/-!
# Control sequences

A message that quotes a user's text goes to a terminal, and the text may hold control characters and
the sequences that they start. They are left out: a sequence runs from an escape character to the
character that ends it, and what kind of sequence it is decides which one that is. White space is
the exception. Where a sequence carries controls out at once, a tab or a line break inside it is
shown, and so is all that follows up to the next control character that is none.
-/

namespace FormatRequest.Text

/-- Where a terminal stands in a text. -/
inductive TerminalState
  | text
  /-- After an escape character. -/
  | escape
  /-- In an escape sequence of several characters. -/
  | escapeIntermediate
  /-- In a control sequence, which `ESC [` starts. -/
  | controlSequence
  /-- In a command for the operating system, which `ESC ]` starts. -/
  | systemCommand
  /-- At the start of a device control string, which `ESC P` starts. -/
  | deviceEntry
  /-- In the parameters of a device control string. -/
  | deviceParameter
  /-- After the parameters of a device control string. -/
  | deviceIntermediate
  /-- In a string that is for no one here: the rest of a device control string, or what `ESC X`,
  `ESC ^` or `ESC _` starts. -/
  | ignoredString
  deriving DecidableEq, Repr

/-- Whether the code point of a character lies between two bounds. -/
def isBetween (first last : Nat) (c : Char) : Bool := first ≤ c.toNat && c.toNat ≤ last

/-- The control characters that are white space. -/
def isControlSpace (c : Char) : Bool := c == '\t' || c == '\n' || c == '\x0c' || c == '\r'

/-- Whether the character is shown in running text. -/
def isShownInText (c : Char) : Bool := isControlSpace c || (0x20 ≤ c.toNat && c.toNat != 0x7F)

/-- Whether the encoding of the character has the byte that ends a string. -/
def hasStringEnd (c : Char) : Bool := (String.utf8EncodeChar c).contains 0x9C

namespace TerminalState

/-- Whether the character is shown. -/
def shows (c : Char) : TerminalState → Bool
  | text => isShownInText c
  | escape | escapeIntermediate | controlSequence => isControlSpace c
  | _ => false

/-- The state after a character that is not shown. An escape character starts a sequence wherever it
stands, and two other controls cut every sequence short. -/
def after (c : Char) (state : TerminalState) : TerminalState :=
  if c = '\x1b' then escape
  else if c = '\x18' || c = '\x1a' then text
  else
    match state with
    | text => text
    | escape =>
      if c = '[' then controlSequence
      else if c = ']' then systemCommand
      else if c = 'P' then deviceEntry
      else if c = 'X' || c = '^' || c = '_' then ignoredString
      else if isBetween 0x20 0x2F c then escapeIntermediate
      else if isBetween 0x30 0x7E c then text
      else escape
    | escapeIntermediate => if isBetween 0x30 0x7E c then text else escapeIntermediate
    | controlSequence => if isBetween 0x40 0x7E c then text else controlSequence
    | systemCommand => if c = '\x07' then text else systemCommand
    | deviceEntry =>
      if isBetween 0x20 0x2F c then deviceIntermediate
      else if isBetween 0x30 0x3F c then deviceParameter
      else if isBetween 0x40 0x7E c then ignoredString
      else deviceEntry
    | deviceParameter =>
      if isBetween 0x20 0x2F c then deviceIntermediate
      else if isBetween 0x3C 0x7E c then ignoredString
      else deviceParameter
    | deviceIntermediate => if isBetween 0x30 0x7E c then ignoredString else deviceIntermediate
    | ignoredString => if hasStringEnd c then text else ignoredString

end TerminalState

/-- What is shown of a text from some state on. While text is being shown, a sequence that white
space has interrupted rests; a character beyond ASCII ends it. -/
def shownFrom (showing : Bool) (state : TerminalState) : List Char → List Char
  | [] => []
  | c :: rest =>
    if (if showing then TerminalState.text else state).shows c then
      c :: shownFrom true (if c.toNat < 0x80 then state else .text) rest
    else shownFrom false (state.after c) rest

/-- What is shown of a text. -/
def shown (s : String) : String := String.ofList (shownFrom false .text s.toList)

/-- A text without control characters is shown as it is. -/
theorem shownFrom_of_isShownInText {s : List Char} (h : ∀ c ∈ s, isShownInText c = true)
    (showing : Bool) : shownFrom showing .text s = s := by
  induction s generalizing showing with
  | nil => rfl
  | cons c rest ih =>
    have hc : isShownInText c = true := h c (List.mem_cons_self ..)
    have hrest := ih fun d hd => h d (List.mem_cons_of_mem _ hd)
    simp [shownFrom, TerminalState.shows, hc, hrest]

end FormatRequest.Text

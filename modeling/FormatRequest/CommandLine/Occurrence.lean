import FormatRequest.CommandLine.UsageFault

/-!
# Occurrences

A command line is a sequence of words, and it means a sequence of occurrences: a file, a flag, or a
parameter with its value. A word that is wanted as a value is one, unless it looks like an option.
An occurrence of a parameter whose value is a word of its own is complete only when the next
occurrence begins or the words end, and it is lost if an unknown option comes before that.
-/

namespace FormatRequest.CommandLine

/-- A part of a command line that has a meaning of its own. -/
inductive Occurrence
  | file (name : String)
  | flag (f : Flag)
  | parameter (p : Parameter) (value : String)
  deriving DecidableEq, Repr

/-- The kinds of words, told apart by how they begin. -/
inductive Word
  /-- The word `--`, after which all words are files. -/
  | filesOnly
  /-- A word `--name` or `--name=value`. -/
  | long (name : List Char) (value : Option (List Char))
  /-- A word `-abc` of letters. -/
  | letters (letters : List Char)
  /-- A file or the value of a parameter; a dash alone is one. -/
  | plain
  deriving DecidableEq, Repr

/-- The kind of a word. -/
def Word.of : List Char → Word
  | ['-', '-'] => .filesOnly
  | '-' :: '-' :: rest =>
    match rest.span (· != '=') with
    | (name, []) => .long name none
    | (name, _ :: value) => .long name (some value)
  | '-' :: c :: rest => .letters (c :: rest)
  | _ => .plain

/-- What the words so far leave open. -/
inductive Pending
  | nothing
  /-- A parameter wants its value. -/
  | value (p : Parameter)
  /-- The occurrence of a parameter is complete with the next one. -/
  | occurrence (p : Parameter) (value : String)
  deriving DecidableEq, Repr

/-- The occurrences that a command line begins with, and the fault that ends them if there is
one. -/
structure Scan where
  occurrences : List Occurrence
  fault : Option UsageFault := none
  deriving DecidableEq, Repr

namespace Scan

/-- The scan of a command line that has an occurrence before the rest. -/
def cons (o : Occurrence) (s : Scan) : Scan := { s with occurrences := o :: s.occurrences }

/-- The scan of a command line that has a fault. -/
def stop (fault : UsageFault) : Scan := ⟨[], some fault⟩

/-- Completes what is pending before the rest. -/
def complete : Pending → Scan → Scan
  | .nothing, s => s
  | .value p, _ => stop (.missingValue p)
  | .occurrence p value, s => s.cons (.parameter p value)

end Scan

/-- The occurrences of the flags of some letters, before the rest. A fault at the first letter loses
what is pending. -/
def scanLetters (pending : Pending) (rest : Scan) : List Char → Scan
  | [] => Scan.complete pending rest
  | c :: letters =>
    match Opt.ofLetter? c with
    | none => .stop (.unexpectedArgument (String.ofList ['-', c]))
    | some f => Scan.complete pending ((scanLetters .nothing rest letters).cons (.flag f))

/-- The occurrences of the words, after words that leave something open. -/
def scanFrom (pending : Pending) : List String → Scan
  | [] => Scan.complete pending ⟨[], none⟩
  | word :: rest =>
    match Word.of word.toList with
    | .filesOnly => Scan.complete pending ⟨rest.map .file, none⟩
    | .long name value =>
      match Opt.ofName? name, value with
      | none, _ => .stop (.unexpectedArgument ("--" ++ String.ofList name))
      | some (.flag f), none => Scan.complete pending ((scanFrom .nothing rest).cons (.flag f))
      | some (.flag f), some value => .stop (.unexpectedValue f (String.ofList value))
      | some (.parameter p), none => Scan.complete pending (scanFrom (.value p) rest)
      | some (.parameter p), some value =>
        Scan.complete pending ((scanFrom .nothing rest).cons (.parameter p (String.ofList value)))
    | .letters letters => scanLetters pending (scanFrom .nothing rest) letters
    | .plain =>
      match pending with
      | .value p => scanFrom (.occurrence p word) rest
      | pending => Scan.complete pending ((scanFrom .nothing rest).cons (.file word))

/-- The occurrences of the words of a command line. -/
def scan (words : List String) : Scan := scanFrom .nothing words

end FormatRequest.CommandLine

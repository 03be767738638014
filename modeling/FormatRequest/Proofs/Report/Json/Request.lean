import FormatRequest.Proofs.Report.Json.Values

/-!
# The JSON report is read back

Read by the grammar of JSON, the report of a request is one object with the fields of the request as
its members. A request can be made from such an object again, member by member, and it is the one
that was reported.

Results:
1. `denotes_value`, `reads_member`, `denotes_report`: fields and lists of fields.
2. `Request.ofJson?_members`: the request that an object describes.
3. `Request.render_json_lossless`: the report of a request, read back.
-/

namespace FormatRequest

/-! ## Fields -/

/-- The value of a field in JSON. -/
def FieldValue.toJson : FieldValue → Json.Value
  | .flag on => .bool on
  | .number n => .number ⟨n.toNat, 0⟩
  | .text s => .string s
  | .texts ss => .array (ss.map .string)
  | .numbers ns => .array (ns.map fun n => .number ⟨n.toNat, 0⟩)
  | .spans pairs =>
    .array (pairs.map fun s => .array [.number ⟨s.start.toNat, 0⟩, .number ⟨s.stop.toNat, 0⟩])

namespace Json

variable {fuel : Nat} {text : List Char}

theorem denotes_value (v : FieldValue) : Denotes (value v) v.toJson := by
  cases v with
  | flag on => exact denotes_boolText on
  | number n => exact denotes_digits n.toNat
  | text s => exact denotes_quoted s
  | texts ss => exact denotes_array (fun s _ => denotes_quoted s) 1
  | numbers ns => exact denotes_array (fun n _ => denotes_digits n.toNat) 1
  | spans pairs =>
    refine denotes_array (fun s _ => ?_) 1
    show Denotes (array 2 ([s.start, s.stop].map Decimal.ofWord))
      (.array ([s.start, s.stop].map fun n => .number ⟨n.toNat, 0⟩))
    exact denotes_array (fun n _ => denotes_digits n.toNat) 2

theorem reads_member (f : Field) (h : (member f).length ≤ fuel) :
    Reads (readMember (readValue fuel) fuel) (member f) (f.key, f.value.toJson) := by
  intro rest hrest
  have hlength := length_add_two_le_quoted f.key
  simp only [member, List.length_append] at h
  have hkey := readCharacters_escape (show f.key.toList.length < fuel by omega)
    (':' :: ' ' :: (value f.value ++ rest))
  have hvalue : readValue fuel (' ' :: (value f.value ++ rest)) = some (f.value.toJson, rest) := by
    have hspace : skipSpace (' ' :: (value f.value ++ rest)) = skipSpace (value f.value ++ rest) :=
      rfl
    rw [readValue_of_skipSpace_eq hspace]
    exact denotes_value f.value (show _ ≤ fuel by omega) hrest
  have htext : member f ++ rest =
      newLine 1 ++ (quoted f.key ++ ':' :: ' ' :: (value f.value ++ rest)) := by
    simp [member]
  rw [htext, readMember, skipSpace_newLine, quoted_append, skipSpace_cons (by decide)]
  simp only [hkey, Option.bind_eq_bind, Option.bind_some]
  rw [skipSpace_cons (by decide)]
  simp only [hvalue, Option.bind_some, String.ofList_toList]
  rfl

theorem readMember_of_close {read : List Char → Option (Value × List Char)}
    (h : (skipSpace text).head? = some '\x7d') : readMember read fuel text = none := by
  obtain ⟨rest, hrest⟩ := List.head?_eq_some_iff.mp h
  rw [readMember, hrest]
  rfl

theorem denotes_report (fields : List Field) :
    Denotes (report fields) (.object (fields.map fun f => (f.key, f.value.toJson))) := by
  intro fuel hfuel rest _
  have hopen (fuel : Nat) (text : List Char) : readValue (fuel + 1) ('\x7b' :: text) =
      (readList (readMember (readValue fuel) fuel) '\x7d' fuel text).map fun read =>
        (.object read.1, read.2) := rfl
  have htext (rest : List Char) : report fields ++ rest =
      '\x7b' :: ([','].intercalate (fields.map member) ++ (newLine 0 ++ '\x7d' :: rest)) := by
    simp [report, newLine]
  have hlength := congrArg List.length (htext [])
  rw [List.append_nil, List.length_cons, List.length_append] at hlength
  obtain ⟨fuel, rfl⟩ := Nat.exists_eq_add_one_of_ne_zero (n := fuel) (by omega)
  have hmembers : ∀ f ∈ fields, Reads (readMember (readValue fuel) fuel) (member f)
      (f.key, f.value.toJson) := by
    intro f hf
    have hle := length_le_intercalate_of_mem (List.mem_map_of_mem (f := member) hf)
    exact reads_member f (by omega)
  have hbody : ([','].intercalate (fields.map member)).length ≤ fuel := by omega
  have hread := readList_intercalate (fun _ => readMember_of_close) hmembers
    (fun _ _ => List.cons_ne_nil _ _) hbody (by decide) (by decide) 0 rest
  rw [htext, hopen, hread]
  rfl

theorem parse_report (fields : List Field) :
    parse (report fields) = some (.object (fields.map fun f => (f.key, f.value.toJson))) := by
  have hread := denotes_report fields (Nat.le_refl _) Text.avoids_nil
  rw [List.append_nil] at hread
  unfold parse
  rw [hread]
  rfl

end Json

/-! ## Requests -/

/-- The members that the report of a request should have, one for each field. -/
def Request.members (r : Request) : List (String × Json.Value) :=
  [("files", .array (r.files.map .string)),
    ("in_place", .bool r.inPlace),
    ("lines", .array (r.lines.toList.map fun s =>
      .array [.number ⟨s.start.toNat, 0⟩, .number ⟨s.stop.toNat, 0⟩])),
    ("offsets", .array (r.offsets.map fun n => .number ⟨n.toNat, 0⟩)),
    ("lengths", .array (r.lengths.map fun n => .number ⟨n.toNat, 0⟩)),
    ("aosp", .bool r.aosp),
    ("max_width", .number ⟨r.maxWidth.toNat, 0⟩),
    ("version", .bool r.version),
    ("help", .bool r.help),
    ("stdin", .bool r.stdin),
    ("fix_imports_only", .bool r.fixImportsOnly),
    ("sort_imports", .bool r.sortImports),
    ("remove_unused_imports", .bool r.removeUnusedImports),
    ("dry_run", .bool r.dryRun),
    ("set_exit_if_changed", .bool r.setExitIfChanged)] ++
  r.assumeFilename.toList.map (fun name => ("assume_filename", .string name)) ++
  [("reflow_long_strings", .bool r.reflowLongStrings),
    ("format_javadoc", .bool r.formatJavadoc)]

theorem Request.members_eq_map_fields (r : Request) :
    r.fields.map (fun f => (f.key, f.value.toJson)) = r.members := by
  unfold fields members
  cases r.assumeFilename <;> rfl

theorem Request.nodup_members (r : Request) : (r.members.map Prod.fst).Nodup := by
  unfold members
  cases r.assumeFilename <;> simp

namespace Json.Value

/-- The member of a name. -/
def member? (name : String) : Value → Option Value
  | .object members => members.lookup name
  | _ => none

/-- A truth value. -/
def flag? : Value → Option Bool
  | .bool on => some on
  | _ => none

/-- A text. -/
def text? : Value → Option String
  | .string s => some s
  | _ => none

/-- A word, written without point and exponent. -/
def word? : Value → Option UInt64
  | .number ⟨.ofNat n, 0⟩ => if n < UInt64.size then some (UInt64.ofNat n) else none
  | _ => none

/-- A pair of words. -/
def span? : Value → Option Span
  | .array [start, stop] => do return ⟨← start.word?, ← stop.word?⟩
  | _ => none

/-- A list. -/
def list? {α : Type} (item? : Value → Option α) : Value → Option (List α)
  | .array items => items.mapM item?
  | _ => none

theorem word?_number (n : UInt64) : word? (.number ⟨n.toNat, 0⟩) = some n :=
  (if_pos n.toNat_lt).trans (congrArg some UInt64.ofNat_toNat)

theorem span?_pair (s : Span) :
    span? (.array [.number ⟨s.start.toNat, 0⟩, .number ⟨s.stop.toNat, 0⟩]) = some s := by
  simp only [span?, word?_number]
  rfl

theorem list?_map {α : Type} {item? : Value → Option α} {value : α → Value}
    (h : ∀ a, item? (value a) = some a) (as : List α) :
    list? item? (.array (as.map value)) = some as := by
  show (as.map value).mapM item? = some as
  induction as with
  | nil => rfl
  | cons a as ih =>
    rw [List.map_cons, List.mapM_cons, h a, ih]
    rfl

end Json.Value

/-- The request that an object of JSON describes, if every member has the right kind of value. Only
the name assumed for standard input may be missing. -/
def Request.ofJson? (v : Json.Value) : Option Request := do
  let flag (name : String) : Option Bool := do (← v.member? name).flag?
  let words (name : String) : Option (List UInt64) := do
    (← v.member? name).list? Json.Value.word?
  let name ← match v.member? "assume_filename" with
    | none => some none
    | some name => name.text?.map some
  let spans ← (← v.member? "lines").list? Json.Value.span?
  return {
    files := ← (← v.member? "files").list? Json.Value.text?
    inPlace := ← flag "in_place"
    lines := ⟨spans.toArray⟩
    offsets := ← words "offsets"
    lengths := ← words "lengths"
    aosp := ← flag "aosp"
    maxWidth := ← (← v.member? "max_width").word?
    version := ← flag "version"
    help := ← flag "help"
    stdin := ← flag "stdin"
    fixImportsOnly := ← flag "fix_imports_only"
    sortImports := ← flag "sort_imports"
    removeUnusedImports := ← flag "remove_unused_imports"
    dryRun := ← flag "dry_run"
    setExitIfChanged := ← flag "set_exit_if_changed"
    assumeFilename := name
    reflowLongStrings := ← flag "reflow_long_strings"
    formatJavadoc := ← flag "format_javadoc" }

theorem Request.ofJson?_members (r : Request) : ofJson? (.object r.members) = some r := by
  have htext (s : String) : Json.Value.text? (.string s) = some s := rfl
  have hfiles := Json.Value.list?_map htext r.files
  have hlines := Json.Value.list?_map Json.Value.span?_pair r.lines.toList
  have hoffsets := Json.Value.list?_map Json.Value.word?_number r.offsets
  have hlengths := Json.Value.list?_map Json.Value.word?_number r.lengths
  -- the members that come after the name stand at other places if there is none
  have hmade (name : Option String) (hname : r.assumeFilename = name) :
      ofJson? (.object r.members) = some { r with assumeFilename := name } := by
    unfold ofJson? members
    rw [hname]
    cases name <;>
      simp [Json.Value.member?, List.lookup_cons, Json.Value.flag?, Json.Value.text?,
        Json.Value.word?_number, hfiles, hlines, hoffsets, hlengths] <;>
      rfl
  exact hmade r.assumeFilename rfl

theorem Request.assume_filename_mem_members (r : Request) :
    "assume_filename" ∈ r.members.map Prod.fst ↔ r.assumeFilename ≠ none := by
  unfold members
  cases r.assumeFilename <;> simp

theorem Request.parse_render_json (r : Request) :
    Json.parse (r.render .json).toList = some (.object r.members) := by
  have htext : (r.render .json).toList = Json.report r.fields := String.toList_ofList
  rw [htext, Json.parse_report, members_eq_map_fields]

/-- The JSON report is one object. It has a member for each field of the request, none of them
twice, and the name assumed for standard input only if there is one. The request can be read from
it, so that no other request has the same report. -/
theorem Request.render_json_lossless :
    (∀ r : Request, Json.parse (r.render .json).toList = some (.object r.members) ∧
      (r.members.map Prod.fst).Nodup ∧
      ("assume_filename" ∈ r.members.map Prod.fst ↔ r.assumeFilename ≠ none) ∧
      ofJson? (.object r.members) = some r) ∧
    Function.Injective fun r : Request => r.render .json := by
  refine ⟨fun r => ⟨r.parse_render_json, r.nodup_members, r.assume_filename_mem_members,
    r.ofJson?_members⟩, fun r r' h => ?_⟩
  have hparse := r.parse_render_json
  have htext : r.render .json = r'.render .json := h
  rw [htext, r'.parse_render_json] at hparse
  have hmembers : r'.members = r.members := Json.Value.object.inj (Option.some.inj hparse)
  have hread := r.ofJson?_members
  rw [← hmembers, r'.ofJson?_members] at hread
  exact (Option.some.inj hread).symm

end FormatRequest

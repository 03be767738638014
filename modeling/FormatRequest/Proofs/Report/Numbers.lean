import FormatRequest.Proofs.Delivery
import FormatRequest.Proofs.Draft.Build
import FormatRequest.Proofs.RangeSet.Extent
import FormatRequest.Proofs.Text.Delimited
import FormatRequest.Proofs.Text.Framed

/-!
# The numbers of a report

A request may have any words as its numbers, also those that are no signed words. No format refuses
them: each writes a number by its digits, with something that is no digit before it and after it, so
that a reader sees the whole number and nothing else. A reader of signed words cannot read all of
them, and whether there is one too many is seen from the offsets, the lengths, the width and the last
stop of the line ranges. The other bounds of line ranges are below that stop.

Results:
1. `mem_integers_iff`, `exists_integer_gt_iff`: the numbers of a request, and whether one of them
   exceeds a limit.
2. `Toml.framed_report`, `Json.framed_report`, `Yaml.framed_report`, `Console.framed_report`: the
   numbers stand in the report.
3. `render_of_build`: the request of a history is reported, in every format.
4. `not_render_fails_iff_exceeds`: a number that is no signed word is not refused in TOML.
-/

namespace FormatRequest

open Text (Framed framed_append framed_between infix_flatMap exists_infix_intercalate)

/-! ## The numbers of a request -/

/-- The numbers of a value. -/
def FieldValue.integers : FieldValue → List UInt64
  | .number n => [n]
  | .numbers ns => ns
  | .spans ss => ss.flatMap fun s => [s.start, s.stop]
  | _ => []

namespace Request

variable {r : Request} {n limit : UInt64}

/-- The numbers of a request, in the order in which they are reported. -/
def integers (r : Request) : List UInt64 := r.fields.flatMap (·.value.integers)

theorem mem_integers_iff :
    n ∈ r.integers ↔
      (∃ s ∈ r.lines.toList, n = s.start ∨ n = s.stop) ∨ n ∈ r.offsets ∨ n ∈ r.lengths ∨
        n = r.maxWidth := by
  simp [integers, fields, FieldValue.integers]

/-- `r.Exceeds limit`: the stop of the last line range, an offset, a length or the width is greater
than the limit. -/
def Exceeds (r : Request) (limit : UInt64) : Prop :=
  (∃ s, r.lines.span? = some s ∧ limit < s.stop) ∨ (∃ n ∈ r.offsets, limit < n) ∨
    (∃ n ∈ r.lengths, limit < n) ∨ limit < r.maxWidth

theorem exists_integer_gt_iff (h : r.lines.Canonical) :
    (∃ n ∈ r.integers, limit < n) ↔ r.Exceeds limit := by
  have hbounds : (∃ n, (∃ s ∈ r.lines.toList, n = s.start ∨ n = s.stop) ∧ limit < n) ↔
      ∃ s ∈ r.lines.toList, limit < s.start ∨ limit < s.stop := by
    constructor
    · rintro ⟨n, ⟨s, hs, rfl | rfl⟩, hlimit⟩
      · exact ⟨s, hs, .inl hlimit⟩
      · exact ⟨s, hs, .inr hlimit⟩
    · rintro ⟨s, hs, hlimit | hlimit⟩
      · exact ⟨s.start, ⟨s, hs, .inl rfl⟩, hlimit⟩
      · exact ⟨s.stop, ⟨s, hs, .inr rfl⟩, hlimit⟩
  simp only [mem_integers_iff, or_and_right, exists_or, exists_eq_left]
  rw [hbounds, RangeSet.exists_bound_gt_iff h]
  exact Iff.rfl

end Request

/-! ## The formats -/

variable {n : UInt64} {v : FieldValue} {f : Field} {fields : List Field} {r : Request}

/-- A format that writes lists as arrays frames all numbers of a value, if its arrays frame their
items. -/
theorem framed_of_arrays {value : FieldValue → List Char} {outer inner : List (List Char) → List Char}
    (houter : ∀ {items item}, item ∈ items → Framed item (outer items))
    (hinner : ∀ {items item}, item ∈ items → Framed item (inner items))
    (hnumber : ∀ n, value (.number n) = Decimal.ofWord n)
    (hnumbers : ∀ ns, value (.numbers ns) = outer (ns.map Decimal.ofWord))
    (hspans : ∀ ss, value (.spans ss) =
      outer (ss.map fun s => inner [Decimal.ofWord s.start, Decimal.ofWord s.stop]))
    (hn : n ∈ v.integers) {d : Char} (hd : d.isDigit = false) :
    Framed (Decimal.ofWord n) (' ' :: (value v ++ [d])) := by
  have hvalue : value v <:+: ' ' :: (value v ++ [d]) := ⟨[' '], [d], rfl⟩
  cases v with
  | number m =>
    obtain rfl := List.mem_singleton.mp hn
    rw [hnumber]
    exact framed_between rfl hd [] []
  | numbers ns =>
    have harray := houter (List.mem_map_of_mem (f := Decimal.ofWord) hn)
    rw [hnumbers] at hvalue ⊢
    exact harray.widen hvalue
  | spans ss =>
    obtain ⟨s, hs, hbound⟩ := List.mem_flatMap.mp hn
    have hpair : Framed (Decimal.ofWord n) (inner [Decimal.ofWord s.start, Decimal.ofWord s.stop]) :=
      hinner (List.mem_map_of_mem (f := Decimal.ofWord) hbound)
    have harray := houter (List.mem_map_of_mem
      (f := fun s : Span => inner [Decimal.ofWord s.start, Decimal.ofWord s.stop]) hs)
    rw [hspans] at hvalue ⊢
    exact hpair.widen (harray.isInfix.trans hvalue)
  | _ => exact absurd hn List.not_mem_nil

/-! ### TOML -/

theorem Toml.framed_array {items : List (List Char)} {item : List Char} (h : item ∈ items) :
    Framed item (array items) := by
  match items, h with
  | [single], h =>
    obtain rfl := List.mem_singleton.mp h
    exact framed_between rfl rfl [] []
  | first :: next :: rest, h =>
    have hrow : Framed item ("\n    ".toList ++ item ++ [',']) :=
      framed_append (by decide) (by decide)
    have hrows := infix_flatMap h fun item => "\n    ".toList ++ item ++ [',']
    exact hrow.widen (hrows.trans ⟨['['], ['\n', ']'], rfl⟩)

theorem Toml.framed_report (hf : f ∈ fields) (hn : n ∈ f.value.integers) :
    Framed (Decimal.ofWord n) (report fields) := by
  have hvalue : Framed (Decimal.ofWord n) (' ' :: (value f.value ++ ['\n'])) :=
    framed_of_arrays Toml.framed_array Toml.framed_array (fun _ => rfl) (fun _ => rfl)
      (fun _ => rfl) hn rfl
  have hline : ' ' :: (value f.value ++ ['\n']) <:+: line f := by
    refine ⟨f.key.toList ++ " =".toList, [], ?_⟩
    simp [line]
  exact hvalue.widen (hline.trans (infix_flatMap hf line))

/-! ### JSON -/

theorem Json.framed_array (depth : Nat) {items : List (List Char)} {item : List Char}
    (h : item ∈ items) : Framed item (array depth items) := by
  -- a new line ends in a space, and what follows an item is a comma or a new line
  have hline : newLine (depth + 1) = '\n' :: List.replicate (2 * depth + 1) ' ' ++ [' '] := by
    rw [newLine, List.cons_append, ← List.replicate_succ']
    rfl
  have hrow := List.mem_map_of_mem (f := (newLine (depth + 1) ++ ·)) h
  obtain ⟨e, he, hitem⟩ := exists_infix_intercalate (c := ',') (d := '\n') hrow rfl rfl
    (List.replicate (2 * depth) ' ' ++ [']'])
  have hframed : Framed item (newLine (depth + 1) ++ item ++ [e]) := by
    rw [hline, List.append_assoc, List.append_assoc]
    exact framed_between rfl he _ []
  have harray : array depth items =
      ['['] ++ ([','].intercalate (items.map (newLine (depth + 1) ++ ·)) ++
        '\n' :: (List.replicate (2 * depth) ' ' ++ [']'])) := by
    cases items with
    | nil => exact absurd h List.not_mem_nil
    | cons first rest => simp [array, newLine]
  rw [harray]
  exact hframed.widen (hitem.trans (List.suffix_append _ _).isInfix)

theorem Json.framed_report (hf : f ∈ fields) (hn : n ∈ f.value.integers) :
    Framed (Decimal.ofWord n) (report fields) := by
  obtain ⟨e, he, hmember⟩ := exists_infix_intercalate (c := ',') (d := '\n')
    (List.mem_map_of_mem (f := member) hf) rfl rfl ['\x7d']
  have hvalue : Framed (Decimal.ofWord n) (' ' :: (value f.value ++ [e])) :=
    framed_of_arrays (Json.framed_array 1) (Json.framed_array 2) (fun _ => rfl) (fun _ => rfl)
      (fun _ => rfl) hn he
  have hline : ' ' :: (value f.value ++ [e]) <:+: member f ++ [e] := by
    refine ⟨newLine 1 ++ quoted f.key ++ [':'], [], ?_⟩
    simp [member]
  have hreport : report fields =
      ['\x7b'] ++ ([','].intercalate (fields.map member) ++ ['\n', '\x7d']) :=
    List.append_assoc _ _ _
  rw [hreport]
  exact hvalue.widen ((hline.trans hmember).trans (List.suffix_append _ _).isInfix)

/-! ### YAML -/

theorem Yaml.infix_items {items : List (List Char)} {item : List Char} (h : item ∈ items) :
    '-' :: ' ' :: item <:+: Yaml.items items := by
  have hrows := infix_flatMap h (['-', ' '] ++ ·)
  cases items with
  | nil => exact absurd h List.not_mem_nil
  | cons first rest => exact hrows.trans ⟨['\n'], [], List.append_nil _⟩

theorem Yaml.framed_value (hn : n ∈ v.integers) : Framed (Decimal.ofWord n) (value v) := by
  cases v with
  | number m =>
    obtain rfl := List.mem_singleton.mp hn
    exact framed_between rfl rfl [] []
  | numbers ns =>
    have hitem : Framed (Decimal.ofWord n) ('-' :: ' ' :: number n) :=
      framed_between rfl rfl ['-'] []
    exact hitem.widen (infix_items (List.mem_map_of_mem (f := number) hn))
  | spans ss =>
    obtain ⟨s, hs, hbound⟩ := List.mem_flatMap.mp hn
    have hitem := infix_items (List.mem_map_of_mem
      (f := fun s : Span => "- ".toList ++ number s.start ++ "  - ".toList ++ number s.stop) hs)
    refine Framed.widen ?_ hitem
    simp only [List.mem_cons, List.not_mem_nil, or_false] at hbound
    rcases hbound with rfl | rfl
    · have hstart : Framed (Decimal.ofWord s.start) (['-', ' ', '-'] ++
          ' ' :: (Decimal.ofWord s.start ++ '\n' :: ("  - ".toList ++ number s.stop))) :=
        framed_between rfl rfl _ _
      simpa [number] using hstart
    · have hstop : Framed (Decimal.ofWord s.stop)
          ((['-', ' ', '-', ' '] ++ number s.start ++ "  -".toList) ++
            ' ' :: (Decimal.ofWord s.stop ++ ['\n'])) :=
        framed_between rfl rfl _ _
      simpa [number] using hstop
  | _ => exact absurd hn List.not_mem_nil

theorem Yaml.framed_report (hf : f ∈ fields) (hn : n ∈ f.value.integers) :
    Framed (Decimal.ofWord n) (report fields) := by
  have hentry : value f.value <:+: entry f := (List.suffix_append _ _).isInfix
  exact (Yaml.framed_value hn).widen (hentry.trans (infix_flatMap hf entry))

/-! ### Console -/

namespace Console

theorem infix_report {line : List Char} (h : line ∈ lines r) : line ++ ['\n'] <:+: report r :=
  infix_flatMap h (· ++ ['\n'])

theorem mem_lines_of_mem_selection {line : List Char} (h : line ∈ selection r) : line ∈ lines r :=
  List.mem_append_left _ (List.mem_append_right _ h)

theorem framed_maxWidth (r : Request) : Framed (Decimal.ofWord r.maxWidth) (report r) := by
  have hstyle : style r ∈ lines r := List.mem_append_right _ List.mem_cons_self
  have hwidth : " (max width ".toList ++ Decimal.ofWord r.maxWidth ++ [')'] <:+ style r := by
    refine ⟨"Style: ".toList ++ styleName r.style, ?_⟩
    unfold style
    simp only [List.append_assoc]
  have hline : style r <:+: report r := (List.prefix_append _ _).isInfix.trans (infix_report hstyle)
  exact (framed_append (by decide) (by decide)).widen (hwidth.isInfix.trans hline)

theorem region_mem_lines {g : Region} (hselection : r.isSelection = true) (h : g ∈ r.regions) :
    region g ∈ lines r := by
  refine mem_lines_of_mem_selection ?_
  rw [selection, if_pos hselection]
  exact List.mem_append_right _ (List.mem_map_of_mem h)

theorem framed_offset {g : Region} (h : region g ∈ lines r) :
    Framed (Decimal.ofWord g.offset) (report r) := by
  have hoffset : "Region: offset ".toList ++ Decimal.ofWord g.offset ++ ", length ".toList <+:
      region g := List.prefix_append _ _
  have hline : region g <:+: report r := (List.prefix_append _ _).isInfix.trans (infix_report h)
  exact (framed_append (by decide) (by decide)).widen (hoffset.isInfix.trans hline)

theorem framed_length {g : Region} (h : region g ∈ lines r) :
    Framed (Decimal.ofWord g.length) (report r) := by
  have hlength : ", length ".toList ++ Decimal.ofWord g.length ++ ['\n'] <:+
      region g ++ ['\n'] := by
    refine ⟨"Region: offset ".toList ++ Decimal.ofWord g.offset, ?_⟩
    unfold region
    simp only [List.append_assoc]
  exact (framed_append (by decide) (by decide)).widen (hlength.isInfix.trans (infix_report h))

/-- A space before the list is a space before its first item. -/
theorem cons_intercalate {items : List (List Char)} (h : items ≠ []) :
    ' ' :: [',', ' '].intercalate items = [','].intercalate (items.map (' ' :: ·)) := by
  cases items with
  | nil => exact absurd rfl h
  | cons first rest =>
    rw [List.map_cons, Text.Delimited.intercalate_cons, Text.Delimited.intercalate_cons,
      List.flatMap_map]
    rfl

theorem framed_text {lines : RangeSet} {s : Span} (hs : s ∈ lines.toList)
    (hn : n = s.start ∨ n = s.stop) : Framed (Decimal.ofWord n) (' ' :: (lines.text ++ ['\n'])) := by
  have htext : Span.text s ∈ lines.toList.map Span.text := List.mem_map_of_mem hs
  obtain ⟨e, he, hspan⟩ := exists_infix_intercalate (c := ',') (d := '\n')
    (List.mem_map_of_mem (f := (' ' :: ·)) htext) rfl rfl []
  rw [← cons_intercalate (List.ne_nil_of_mem htext)] at hspan
  have hstart : [' '] ++ Decimal.ofWord s.start ++ ['.', '.'] <+: ' ' :: s.text ++ [e] := by
    refine ⟨Decimal.ofWord s.stop ++ [e], ?_⟩
    simp [Span.text]
  have hstop : ['.'] ++ Decimal.ofWord s.stop ++ [e] <:+ ' ' :: s.text ++ [e] := by
    refine ⟨' ' :: (Decimal.ofWord s.start ++ ['.']), ?_⟩
    simp [Span.text]
  rcases hn with rfl | rfl
  · exact (framed_append rfl rfl).widen (hstart.isInfix.trans hspan)
  · have hlast : [e].head?.map Char.isDigit = some false := congrArg some he
    exact (framed_append rfl hlast).widen (hstop.isInfix.trans hspan)

theorem framed_lines {s : Span} (hs : s ∈ r.lines.toList) (hn : n = s.start ∨ n = s.stop) :
    Framed (Decimal.ofWord n) (report r) := by
  have hne : r.lines.isEmpty = false := by
    refine Bool.eq_false_iff.mpr fun hempty => ?_
    rw [RangeSet.eq_empty_of_isEmpty hempty] at hs
    exact List.not_mem_nil hs
  have hselection : r.isSelection = true := by
    simp [Request.isSelection, hne]
  have hline : "Lines: ".toList ++ r.lines.text ∈ lines r := by
    refine mem_lines_of_mem_selection ?_
    rw [selection, if_pos hselection, if_neg (Bool.eq_false_iff.mp hne)]
    exact List.mem_append_left _ List.mem_cons_self
  have htext : ' ' :: (r.lines.text ++ ['\n']) <:+ "Lines: ".toList ++ r.lines.text ++ ['\n'] :=
    ⟨"Lines:".toList, rfl⟩
  exact (framed_text hs hn).widen (htext.isInfix.trans (infix_report hline))

theorem framed_report (hpaired : r.offsets.length = r.lengths.length) (hn : n ∈ r.integers) :
    Framed (Decimal.ofWord n) (report r) := by
  have hregions := Request.isSelection_iff hpaired
  have hregion : ∀ g ∈ r.regions, region g ∈ lines r := fun g hg =>
    region_mem_lines (hregions.mpr (.inr (List.ne_nil_of_mem hg))) hg
  rcases Request.mem_integers_iff.mp hn with ⟨s, hs, hbound⟩ | hoffset | hlength | rfl
  · exact framed_lines hs hbound
  · rw [← Request.map_offset_regions hpaired] at hoffset
    obtain ⟨g, hg, rfl⟩ := List.mem_map.mp hoffset
    exact framed_offset (hregion g hg)
  · rw [← Request.map_length_regions hpaired] at hlength
    obtain ⟨g, hg, rfl⟩ := List.mem_map.mp hlength
    exact framed_length (hregion g hg)
  · exact framed_maxWidth r

end Console

/-! ## What is rendered -/

namespace Request

theorem framed_render (hpaired : r.offsets.length = r.lengths.length) (hn : n ∈ r.integers)
    (format : ReportFormat) : Framed (Decimal.ofWord n) (r.render format).toList := by
  obtain ⟨f, hf, hvalue⟩ := List.mem_flatMap.mp hn
  cases format with
  | console =>
    rw [render, String.toList_ofList]
    exact Console.framed_report hpaired hn
  | json =>
    rw [render, String.toList_ofList]
    exact Json.framed_report hf hvalue
  | yaml =>
    rw [render, String.toList_ofList]
    exact Yaml.framed_report hf hvalue
  | toml =>
    rw [render, String.toList_ofList]
    exact Toml.framed_report hf hvalue

/-- Whatever request is built, its report is printed in every format, and only a file that cannot be
written keeps it from being delivered. The report shows every number of the request as it is, and
whether one of them exceeds a limit is seen without looking at more than the last stop of the line
ranges. -/
theorem render_of_build (steps : History) (r : Request)
    (h : (Draft.ofSteps steps).build = .ok r) :
    (∀ folder format, r.describe folder format none =
      .ok { text := if r.version then versionText else r.render format }) ∧
    (∀ folder format path fault, r.describe folder format path = .error fault →
      path = some fault.path ∧
        (folder fault.path (r.render format)).FailsWith (r.render format) fault.cause
          fault.left) ∧
    (∀ format, ∀ n ∈ r.integers, Framed (Decimal.ofWord n) (r.render format).toList) ∧
    ∀ limit, (∃ n ∈ r.integers, limit < n) ↔ r.Exceeds limit := by
  have hcanonical : r.lines.Canonical := by
    rw [(Draft.summarises_of_build h).lines]
    exact RangeSet.canonical_ofList steps.lineRanges
  refine ⟨fun folder format => ?_, fun folder format path fault hfault => ?_,
    fun format n hn => framed_render (Draft.paired_of_build h) hn format,
    fun limit => exists_integer_gt_iff hcanonical⟩
  · cases hversion : r.version with
    | true => exact describe_version hversion none
    | false => exact describe_print hversion
  · exact (describe_eq_error_iff.mp hfault).2

/-- A history that sets a width which is no signed word. -/
def exWide : History := [.maxWidth 9223372036854775808]

/-- The request of `exWide`. -/
def exWideRequest : Request where
  files := []
  lines := ∅
  offsets := []
  lengths := []
  maxWidth := 9223372036854775808

theorem build_exWide : (Draft.ofSteps exWide).build = .ok exWideRequest := by rfl

theorem exceeds_exWide : exWideRequest.Exceeds 9223372036854775807 :=
  .inr (.inr (.inr (by decide)))

/-- The width is shown in every format. -/
theorem render_exWide :
    (Draft.ofSteps exWide).build = .ok exWideRequest ∧
      (∃ n ∈ exWideRequest.integers, 9223372036854775807 < n) ∧
      ∀ format, Framed "9223372036854775808".toList (exWideRequest.render format).toList := by
  have hrender := render_of_build exWide exWideRequest build_exWide
  refine ⟨build_exWide, (hrender.2.2.2 _).mpr exceeds_exWide, fun format => ?_⟩
  exact hrender.2.2.1 format 9223372036854775808 (by decide)

/-- No format refuses a number that is no signed word. -/
theorem not_render_fails_iff_exceeds :
    ¬ ∀ (steps : History) (r : Request), (Draft.ofSteps steps).build = .ok r →
      ∀ folder format, (∃ fault, r.describe folder format none = .error fault) ↔
        format = .toml ∧ r.Exceeds 9223372036854775807 := by
  intro h
  obtain ⟨fault, hfault⟩ :=
    (h exWide exWideRequest build_exWide Folder.empty .toml).mpr ⟨rfl, exceeds_exWide⟩
  rw [describe_print rfl] at hfault
  cases hfault

end Request

end FormatRequest

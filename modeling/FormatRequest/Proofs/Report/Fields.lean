import FormatRequest.Proofs.Decimal
import FormatRequest.Proofs.RangeSet.Equality
import FormatRequest.Report.Field

/-!
# What lists of fields tell

The line-based formats write one field after another: its key, a mark, and the value. A key consists
of small letters and underscores, so that the mark ends it, and the key of a reported field decides
what kind of value follows. For the fields to be told apart it is then enough that values of one
kind are.

Results:
1. `Request.fields_injective`: the fields of a request show what is asked for.
2. `FieldValue.Tells.of_forms`, `Field.entries_inj`: from the forms of the values of each kind to
   lists of fields.
3. `Request.entries_fields_injective`: the entries for the fields of a request show what is asked
   for.
-/

namespace FormatRequest

/-! ## Fields of a request -/

/-- The kinds of values. -/
inductive FieldKind
  | flag
  | number
  | text
  | texts
  | numbers
  | spans
  deriving DecidableEq, Repr

/-- The kind of a value. -/
def FieldValue.kind : FieldValue → FieldKind
  | .flag _ => .flag
  | .number _ => .number
  | .text _ => .text
  | .texts _ => .texts
  | .numbers _ => .numbers
  | .spans _ => .spans

/-- The kind of the value that a key has. -/
def Field.kindOf : String → FieldKind
  | "files" => .texts
  | "lines" => .spans
  | "offsets" => .numbers
  | "lengths" => .numbers
  | "max_width" => .number
  | "assume_filename" => .text
  | _ => .flag

/-- The characters of a key. -/
def isKeyChar (c : Char) : Bool := c.isLower || c == '_'

/-- A field as it can be reported. -/
structure Field.Regular (f : Field) : Prop where
  key_ne_nil : f.key.toList ≠ []
  key : ∀ c ∈ f.key.toList, isKeyChar c = true
  kind : f.value.kind = Field.kindOf f.key

theorem Request.regular_fields (r : Request) : ∀ f ∈ r.fields, f.Regular := by
  have hregular {key : String} {value : FieldValue} (hne : key.toList ≠ [])
      (hkey : key.toList.all isKeyChar = true) (hkind : value.kind = Field.kindOf key) :
      (⟨key, value⟩ : Field).Regular := ⟨hne, List.all_eq_true.mp hkey, hkind⟩
  unfold fields
  simp only [List.forall_mem_append, List.forall_mem_cons, List.forall_mem_map]
  refine ⟨⟨⟨?_, ?_, ?_, ?_, ?_, ?_, ?_, ?_, ?_, ?_, ?_, ?_, ?_, ?_, ?_, nofun⟩, fun name _ => ?_⟩,
    ?_, ?_, nofun⟩
  all_goals exact hregular (by decide) rfl rfl

/-- Only the name assumed for standard input can be missing, and the fields before and after it are
always the same in number. -/
theorem Request.fields_injective : Function.Injective Request.fields := by
  intro r r' h
  unfold fields at h
  obtain ⟨hfront, hlast⟩ := List.append_inj' h rfl
  obtain ⟨hfirst, hname⟩ := List.append_inj hfront rfl
  have hassumed : r.assumeFilename = r'.assumeFilename := by
    cases hr : r.assumeFilename <;> cases hr' : r'.assumeFilename <;> simp_all
  simp only [List.cons.injEq, Field.mk.injEq, FieldValue.texts.injEq, FieldValue.flag.injEq,
    FieldValue.spans.injEq, FieldValue.numbers.injEq, FieldValue.number.injEq, true_and,
    and_true] at hfirst hlast
  obtain ⟨hfiles, hinPlace, hlines, hoffsets, hlengths, haosp, hwidth, hversion, hhelp, hstdin,
    hfix, hsort, hremove, hdry, hexit⟩ := hfirst
  obtain ⟨hreflow, hjavadoc⟩ := hlast
  cases r with | mk settings
  cases settings
  cases r' with | mk settings'
  cases settings'
  simp only [Request.mk.injEq, Settings.mk.injEq]
  exact ⟨⟨hinPlace, haosp, hwidth, hversion, hhelp, hstdin, hfix, hsort, hremove, hdry, hexit,
    hassumed, hreflow, hjavadoc⟩, hfiles, RangeSet.eq_of_toList_eq hlines, hoffsets, hlengths⟩

/-! ## Lists of fields -/

theorem boolText_append_inj {a b : Bool} {s t : List Char} (h : boolText a ++ s = boolText b ++ t) :
    a = b ∧ s = t :=
  Text.append_inj_of_prefix_free (by decide) h

theorem delimited_boolText (p : Char → Bool) : Text.Delimited boolText p :=
  fun _ _ _ _ _ _ => boolText_append_inj

/-- `FieldValue.Tells value p`: before a text that does not begin with a character of the kind `p`,
the form of a value of a known kind shows which value it is and where it ends. -/
def FieldValue.Tells (value : FieldValue → List Char) (p : Char → Bool) : Prop :=
  ∀ ⦃v w : FieldValue⦄ ⦃s t : List Char⦄, v.kind = w.kind →
    Text.Avoids p s → Text.Avoids p t → value v ++ s = value w ++ t → v = w ∧ s = t

namespace FieldValue.Tells

open Text (Avoids Delimited)

variable {value : FieldValue → List Char} {p : Char → Bool}

theorem of_forms (hflag : Delimited (fun on => value (.flag on)) p)
    (hnumber : Delimited (fun n => value (.number n)) p)
    (htext : Delimited (fun s => value (.text s)) p)
    (htexts : Delimited (fun ss => value (.texts ss)) p)
    (hnumbers : Delimited (fun ns => value (.numbers ns)) p)
    (hspans : Delimited (fun spans => value (.spans spans)) p) : Tells value p := by
  intro v w s t hkind hs ht h
  cases v <;> cases w <;> try exact FieldKind.noConfusion hkind
  case flag.flag => exact (hflag hs ht h).imp_left (congrArg _)
  case number.number => exact (hnumber hs ht h).imp_left (congrArg _)
  case text.text => exact (htext hs ht h).imp_left (congrArg _)
  case texts.texts => exact (htexts hs ht h).imp_left (congrArg _)
  case numbers.numbers => exact (hnumbers hs ht h).imp_left (congrArg _)
  case spans.spans => exact (hspans hs ht h).imp_left (congrArg _)

end FieldValue.Tells

namespace Field

variable {value : FieldValue → List Char} {p : Char → Bool} {c : Char} {between : List Char}
  {f : Field} {fs gs : List Field}

/-- The entries of some fields: a key, a fixed text, a value. -/
def entries (between : List Char) (value : FieldValue → List Char) (fs : List Field) : List Char :=
  fs.flatMap fun f => f.key.toList ++ between ++ value f.value

theorem entries_cons :
    entries between value (f :: fs) =
      f.key.toList ++ (between ++ (value f.value ++ entries between value fs)) := by
  simp only [entries, List.flatMap_cons, List.append_assoc]

theorem entries_cons_ne_nil (h : f.Regular) : entries between value (f :: fs) ≠ [] := by
  rw [entries_cons]
  exact List.append_ne_nil_of_left_ne_nil h.key_ne_nil _

theorem avoids_entries (hp : ∀ c, isKeyChar c = true → p c = false) (hfs : ∀ f ∈ fs, f.Regular) :
    Text.Avoids p (entries between value fs) := by
  cases fs with
  | nil => exact Text.avoids_nil
  | cons f fs =>
    have hf := hfs f List.mem_cons_self
    obtain ⟨c, rest, hkey⟩ := List.exists_cons_of_ne_nil hf.key_ne_nil
    rw [entries_cons, hkey]
    exact Text.avoids_cons.mpr (hp c (hf.key c (hkey ▸ List.mem_cons_self)))

/-- Regular fields show in their entries, if their values do. -/
theorem entries_inj (h : FieldValue.Tells value p) (hc : isKeyChar c = false)
    (hp : ∀ c, isKeyChar c = true → p c = false) (hfs : ∀ f ∈ fs, f.Regular)
    (hgs : ∀ g ∈ gs, g.Regular)
    (heq : entries (c :: between) value fs = entries (c :: between) value gs) : fs = gs := by
  induction fs generalizing gs with
  | nil =>
    cases gs with
    | nil => rfl
    | cons g gs => exact absurd heq.symm (entries_cons_ne_nil (hgs g List.mem_cons_self))
  | cons f fs ih =>
    cases gs with
    | nil => exact absurd heq (entries_cons_ne_nil (hfs f List.mem_cons_self))
    | cons g gs =>
      obtain ⟨hf, hfs⟩ := List.forall_mem_cons.mp hfs
      obtain ⟨hg, hgs⟩ := List.forall_mem_cons.mp hgs
      have hmark {f : Field} (hf : f.Regular) : c ∉ f.key.toList := fun hmem =>
        Bool.false_ne_true (hc.symm.trans (hf.key c hmem))
      rw [entries_cons, entries_cons, List.cons_append, List.cons_append] at heq
      obtain ⟨hkey, hrest⟩ := Text.append_mark_inj (hmark hf) (hmark hg) heq
      rw [List.append_cancel_left_eq] at hrest
      have hkeys : f.key = g.key := String.toList_inj.mp hkey
      have hkind : f.value.kind = g.value.kind := by rw [hf.kind, hg.kind, hkeys]
      obtain ⟨hvalue, hst⟩ := h hkind (avoids_entries hp hfs) (avoids_entries hp hgs) hrest
      have hfield : f = g := by
        cases f
        cases g
        rw [mk.injEq]
        exact ⟨hkeys, hvalue⟩
      rw [hfield, ih hfs hgs hst]

end Field

theorem Request.entries_fields_injective {value : FieldValue → List Char} {p : Char → Bool}
    {c : Char} {between : List Char} (h : FieldValue.Tells value p)
    (hc : isKeyChar c = false) (hp : ∀ c, isKeyChar c = true → p c = false) :
    Function.Injective fun r : Request => Field.entries (c :: between) value r.fields :=
  fun r r' heq => fields_injective
    (Field.entries_inj h hc hp r.regular_fields r'.regular_fields heq)

end FormatRequest

import Mathlib.Logic.Basic
import FormatRequest.Policy

/-!
# Which drafts resolve

The rules are checked one by one, and some of them overlap: a request with two inputs breaks the
rule on selections, and often another one as well. Taken together they say that the inputs and the
flags of a request are consistent, and nothing more. A request that is not is reported with the
rules that it breaks, each of them once.

Results:
1. `consistent_iff`: the rules together are the consistency of a request.
2. `brokenRules_eq_nil_iff`, `mem_brokenRules_iff`: which rules are reported, and when there are
   none.
3. `resolve_outcome`: the request that a draft resolves to, or why it does not.
-/

namespace FormatRequest

/-! ## The rules -/

/-- `rule.Met r`: the request does what the rule demands. -/
def Rule.Met (r : Request) : Rule → Prop
  | .someInput => r.stdin = true ∨ r.files ≠ []
  | .stdinOrFiles => r.stdin = true → r.files = []
  | .nameForStdinOnly => r.assumeFilename ≠ none → r.stdin = true
  | .filesForInPlace => r.inPlace = true → r.stdin = false
  | .dryRunOrInPlace => r.dryRun = true → r.inPlace = false
  | .selectionOfOneFile =>
    r.isSelection = true → r.files.length + (if r.stdin then 1 else 0) ≤ 1
  | .selectionOrImports => r.isSelection = true → r.fixImportsOnly = false

namespace Request

variable {r : Request}

/-- The inputs and the flags of a request go together. -/
structure Consistent (r : Request) : Prop where
  /-- Standard input is read or files are, not both. -/
  oneInput : Xor (r.stdin = true) (r.files ≠ [])
  name : r.assumeFilename ≠ none → r.stdin = true
  inPlace : ¬ (r.inPlace = true ∧ r.stdin = true)
  dryRun : ¬ (r.dryRun = true ∧ r.inPlace = true)
  /-- Parts are selected of one input only, and not to fix the imports of it. -/
  selection : r.isSelection = true →
    r.files.length + (if r.stdin then 1 else 0) = 1 ∧ r.fixImportsOnly = false

theorem Consistent.met (h : r.Consistent) (rule : Rule) : rule.Met r := by
  cases rule with
  | someInput => exact Xor.or h.oneInput
  | stdinOrFiles =>
    intro hstdin
    refine Decidable.of_not_not fun hfiles => ?_
    rcases h.oneInput with ⟨_, hnone⟩ | ⟨_, hnot⟩
    · exact hnone hfiles
    · exact hnot hstdin
  | nameForStdinOnly => exact h.name
  | filesForInPlace =>
    intro hinPlace
    exact Bool.eq_false_iff.mpr fun hstdin => h.inPlace ⟨hinPlace, hstdin⟩
  | dryRunOrInPlace =>
    intro hdryRun
    exact Bool.eq_false_iff.mpr fun hinPlace => h.dryRun ⟨hdryRun, hinPlace⟩
  | selectionOfOneFile => exact fun hselection => Nat.le_of_eq (h.selection hselection).1
  | selectionOrImports => exact fun hselection => (h.selection hselection).2

theorem length_add_pos (h : Rule.someInput.Met r) :
    0 < r.files.length + (if r.stdin then 1 else 0) := by
  rcases h with hstdin | hfiles
  · rw [if_pos hstdin]
    omega
  · have hlength := List.length_pos_iff.mpr hfiles
    omega

theorem consistent_iff : r.Consistent ↔ ∀ rule : Rule, rule.Met r := by
  refine ⟨Consistent.met, fun h => ⟨?_, h .nameForStdinOnly, ?_, ?_, fun hselection => ?_⟩⟩
  · rcases h .someInput with hstdin | hfiles
    · exact .inl ⟨hstdin, not_not_intro (h .stdinOrFiles hstdin)⟩
    · exact .inr ⟨hfiles, fun hstdin => hfiles (h .stdinOrFiles hstdin)⟩
  · rintro ⟨hinPlace, hstdin⟩
    exact absurd hstdin (Bool.eq_false_iff.mp (h .filesForInPlace hinPlace))
  · rintro ⟨hdryRun, hinPlace⟩
    exact absurd hinPlace (Bool.eq_false_iff.mp (h .dryRunOrInPlace hdryRun))
  · have hlower := length_add_pos (h .someInput)
    have hupper := h .selectionOfOneFile hselection
    exact ⟨by omega, h .selectionOrImports hselection⟩

end Request

/-- The test for a rule finds those that break it. -/
theorem Rule.brokenBy_iff {r : Request} {rule : Rule} : rule.brokenBy r = true ↔ ¬ rule.Met r := by
  cases rule with
  | someInput =>
    show (r.files.length + (if r.stdin then 1 else 0) == 0) = true ↔ ¬ (_ ∨ _)
    cases r.stdin <;> simp
  | stdinOrFiles => simp [brokenBy, Met]
  | nameForStdinOnly => simp [brokenBy, Met, Option.isSome_iff_ne_none]
  | filesForInPlace => simp [brokenBy, Met]
  | dryRunOrInPlace => simp [brokenBy, Met]
  | selectionOfOneFile => simp [brokenBy, Met, Request.inputCount]
  | selectionOrImports => simp [brokenBy, Met]

namespace Request

variable {r : Request}

/-! ## The rules that are reported -/

theorem brokenRules_sublist : r.brokenRules.Sublist Rule.all := by
  unfold brokenRules
  split
  · exact List.nil_sublist _
  · exact List.filter_sublist

/-- Where the rules count, the broken ones are reported and no others. -/
theorem mem_brokenRules_iff (hhelp : r.help = false) (hversion : r.version = false) {rule : Rule} :
    rule ∈ r.brokenRules ↔ ¬ rule.Met r := by
  unfold brokenRules
  rw [hhelp, hversion, Bool.or_false, if_neg Bool.false_ne_true, List.mem_filter,
    Rule.brokenBy_iff]
  exact and_iff_right (Rule.mem_all rule)

/-- Nothing is reported of a consistent request, nor of one for help or for the version. -/
theorem brokenRules_eq_nil_iff :
    r.brokenRules = [] ↔ r.help = true ∨ r.version = true ∨ r.Consistent := by
  by_cases hskip : r.help = true ∨ r.version = true
  · have hnil : r.brokenRules = [] := if_pos (Bool.or_eq_true_iff.mpr hskip)
    exact iff_of_true hnil (or_assoc.mp (.inl hskip))
  · obtain ⟨hhelp, hversion⟩ := not_or.mp hskip
    rw [Bool.not_eq_true] at hhelp hversion
    have hiff : r.brokenRules = [] ↔ r.Consistent := by
      rw [consistent_iff, List.eq_nil_iff_forall_not_mem]
      refine forall_congr' fun rule => ?_
      rw [mem_brokenRules_iff hhelp hversion, not_not]
    simp [hiff, hhelp, hversion]

theorem nodup_messages : (r.brokenRules.map Rule.message).Nodup := by
  have hall : (Rule.all.map Rule.message).Nodup := by decide +kernel
  exact hall.sublist (brokenRules_sublist.map _)

end Request

/-! ## The outcome -/

namespace Draft

variable {d : Draft} {r : Request}

theorem resolve_of_build_error {cause : Fault} (h : d.build = .error cause) :
    d.resolve = .error (.invalid cause) := by
  unfold resolve
  rw [h]

theorem resolve_of_build_ok (h : d.build = .ok r) :
    d.resolve = if r.brokenRules = [] then .ok r else .error (.refused r.brokenRules) := by
  unfold resolve
  rw [h]
  simp only [List.isEmpty_iff]

theorem resolve_eq_ok_iff : d.resolve = .ok r ↔ d.build = .ok r ∧ r.brokenRules = [] := by
  constructor
  · intro h
    cases hbuild : d.build with
    | error cause =>
      rw [resolve_of_build_error hbuild] at h
      cases h
    | ok built =>
      rw [resolve_of_build_ok hbuild] at h
      split at h
      · next hnil =>
        obtain rfl := Except.ok.inj h
        exact ⟨rfl, hnil⟩
      · cases h
  · rintro ⟨hbuild, hnil⟩
    rw [resolve_of_build_ok hbuild, if_pos hnil]

/-- A draft resolves to the request built from it, provided that this is consistent or asks for help
or for the version. Otherwise what is reported is the fault for which no request could be built, or
the rules that the request breaks, in order and each of them once. -/
theorem resolve_outcome (d : Draft) :
    (∀ r, d.resolve = .ok r ↔
      d.build = .ok r ∧ (r.help = true ∨ r.version = true ∨ r.Consistent)) ∧
    (∀ cause, d.build = .error cause →
      d.resolve = .error (.invalid cause) ∧
      (ResolutionFault.invalid cause).chain = ["Invalid formatting request", cause.message]) ∧
    ∀ r, d.build = .ok r → ¬ (r.help = true ∨ r.version = true ∨ r.Consistent) →
      ∃ rules, d.resolve = .error (.refused rules) ∧
        (rules ≠ [] ∧ rules.Sublist Rule.all ∧ ∀ rule : Rule, rule ∈ rules ↔ ¬ rule.Met r) ∧
        (ResolutionFault.refused rules).chain = ["; ".intercalate (rules.map Rule.message)] ∧
        (rules.map Rule.message).Nodup := by
  refine ⟨fun r => ?_, fun cause h => ⟨resolve_of_build_error h, rfl⟩, fun r h hrefused => ?_⟩
  · rw [resolve_eq_ok_iff, Request.brokenRules_eq_nil_iff]
  · have hbroken := mt Request.brokenRules_eq_nil_iff.mp hrefused
    obtain ⟨hhelp, hrest⟩ := not_or.mp hrefused
    have hversion := (not_or.mp hrest).1
    rw [Bool.not_eq_true] at hhelp hversion
    refine ⟨r.brokenRules, ?_, ⟨hbroken, Request.brokenRules_sublist, fun rule => ?_⟩, rfl,
      Request.nodup_messages⟩
    · rw [resolve_of_build_ok h, if_neg hbroken]
    · exact Request.mem_brokenRules_iff hhelp hversion

end Draft

end FormatRequest

import FormatRequest.Decimal

/-!
# Spans and faults

A span `[start, stop)` of words, as line ranges and character regions are given. Nothing keeps a
span from being empty or inverted: such spans are written by users and have to be reported. A fault
says what is wrong with the numbers a request is made of, and carries the values that its wording
names.
-/

namespace FormatRequest

/-- The half-open span `[start, stop)`. -/
structure Span where
  start : UInt64
  stop : UInt64
  deriving DecidableEq, Repr

namespace Span

/-- `s.Proper`: the span has a point. -/
def Proper (s : Span) : Prop := s.start < s.stop

instance (s : Span) : Decidable s.Proper := inferInstanceAs (Decidable (s.start < s.stop))

/-- `p ∈ s`: the point lies in the span. -/
instance : Membership UInt64 Span := ⟨fun s p => s.start ≤ p ∧ p < s.stop⟩

instance (p : UInt64) (s : Span) : Decidable (p ∈ s) :=
  inferInstanceAs (Decidable (s.start ≤ p ∧ p < s.stop))

/-- The smallest span that covers two spans. -/
def hull (s t : Span) : Span := ⟨min s.start t.start, max s.stop t.stop⟩

/-- The text `start..stop`. -/
def text (s : Span) : List Char := Decimal.ofWord s.start ++ ['.', '.'] ++ Decimal.ofWord s.stop

end Span

/-- A number, or a count of numbers, that no request can have. -/
inductive Fault
  /-- A span without a point. -/
  | invalidRange (span : Span)
  /-- Offsets and lengths that do not come in pairs. -/
  | mismatchedPairing (offsets lengths : Nat)
  /-- A line width that holds nothing. -/
  | invalidWidth (width : UInt64)
  deriving DecidableEq, Repr

/-- The wording of a fault. -/
def Fault.message : Fault → String
  | .invalidRange ⟨start, stop⟩ =>
    "invalid range [" ++ Decimal.text start ++ ", " ++ Decimal.text stop ++
      "): end must be greater than start"
  | .mismatchedPairing offsets lengths =>
    "offsets and lengths must be provided in matching pairs (" ++ Decimal.count offsets ++
      " offsets, " ++ Decimal.count lengths ++ " lengths)"
  | .invalidWidth width =>
    "invalid line width " ++ Decimal.text width ++ ": must be greater than zero"

end FormatRequest

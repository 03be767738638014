import FormatRequest.Span

/-!
# Range sets

A set of points, kept as the array of its maximal spans. The spans are in order, and between two
of them there is a gap of at least one point: an inserted span swallows all spans it overlaps or
touches. A point set therefore has one array only, and equality of the arrays is equality of the
sets. A set is a value: one that is kept while spans are added to it does not change.

The spans that a point or a span meets are found by halving: a partition point is where a predicate
that holds on a first part of an array, and on nothing after it, stops holding.
-/

namespace FormatRequest

section PartitionPoint

variable {α : Type _}

/-- The search for the partition point of `holds` in the part of `xs` from `lo` up to `hi`. -/
def partitionPointIn (holds : α → Bool) (xs : Array α) (lo hi : Nat) (h : hi ≤ xs.size) : Nat :=
  if hlt : lo < hi then
    let mid := lo + (hi - lo) / 2
    have hmid : mid < xs.size := by omega
    if holds xs[mid] then partitionPointIn holds xs (mid + 1) hi h
    else partitionPointIn holds xs lo mid (by omega)
  else lo
termination_by hi - lo

/-- The number of elements in the first part of `xs`, on which `holds` is true. -/
def partitionPoint (holds : α → Bool) (xs : Array α) : Nat :=
  partitionPointIn holds xs 0 xs.size (Nat.le_refl _)

end PartitionPoint

/-- A set of points, as the array of its maximal spans. -/
structure RangeSet where
  spans : Array Span
  deriving DecidableEq, Repr

namespace RangeSet

/-- The set without points. -/
def empty : RangeSet := ⟨#[]⟩

instance : EmptyCollection RangeSet := ⟨empty⟩
instance : Inhabited RangeSet := ⟨empty⟩

/-- The spans in order. -/
def toList (r : RangeSet) : List Span := r.spans.toList

/-- The number of spans. -/
def size (r : RangeSet) : Nat := r.spans.size

/-- Whether there is no point in the set. -/
def isEmpty (r : RangeSet) : Bool := r.spans.isEmpty

/-- The spans that overlap or touch `s`, as the positions from the first of them up to the first
span after them. -/
def window (r : RangeSet) (s : Span) : Nat × Nat :=
  (partitionPoint (fun t => t.stop < s.start) r.spans,
    partitionPoint (fun t => t.start ≤ s.stop) r.spans)

/-- The span that replaces a run of spans when `s` is added. It covers `s`, the first span of the
run and the last; those between them are not looked at. -/
def merge (s : Span) (run : Array Span) : Span :=
  match run[0]?, run.back? with
  | some first, some last => s.hull ⟨first.start, last.stop⟩
  | _, _ => s

/-- Adds the points of `s`: all spans that overlap or touch it are replaced by one. A span without
points is refused. -/
def insert (r : RangeSet) (s : Span) : Except Fault RangeSet :=
  if s.Proper then
    let (lo, hi) := r.window s
    let merged := merge s (r.spans.extract lo hi)
    .ok ⟨r.spans.extract 0 lo ++ [merged] ++ r.spans.extract hi r.spans.size⟩
  else .error (.invalidRange s)

/-- The set after `insert`, if the span is refused the set as it was. -/
def insertIfProper (r : RangeSet) (s : Span) : RangeSet :=
  match r.insert s with
  | .ok r' => r'
  | .error _ => r

/-- The set of the points of some spans. Spans without points add nothing. -/
def ofList (spans : List Span) : RangeSet := spans.foldl insertIfProper empty

/-- Whether the point lies in one of the spans: it can only lie in the first that stops after
it. -/
def contains (r : RangeSet) (p : UInt64) : Bool :=
  match r.spans[partitionPoint (fun t => t.stop ≤ p) r.spans]? with
  | some t => t.start ≤ p
  | none => false

/-- From the start of the first span to the stop of the last. -/
def span? (r : RangeSet) : Option Span :=
  match r.spans[0]?, r.spans.back? with
  | some first, some last => some ⟨first.start, last.stop⟩
  | _, _ => none

/-- The spans, separated by commas. -/
def text (r : RangeSet) : List Char := [',', ' '].intercalate (r.toList.map Span.text)

/-- The list of pairs `[start,stop]`, without any space. -/
def compact (r : RangeSet) : List Char :=
  let pair (s : Span) := ['['] ++ Decimal.ofWord s.start ++ [','] ++ Decimal.ofWord s.stop ++ [']']
  ['['] ++ [','].intercalate (r.toList.map pair) ++ [']']

end RangeSet

end FormatRequest

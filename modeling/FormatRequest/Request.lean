import FormatRequest.RangeSet
import FormatRequest.Settings

/-!
# Requests

What a formatter of Java source is asked to do: which files, which lines or character regions of
them, in which style, and where the output goes.
-/

namespace FormatRequest

/-- A run of `length` characters from `offset` on. -/
structure Region where
  offset : UInt64
  length : UInt64
  deriving DecidableEq, Repr

/-- The two code styles. -/
inductive Style
  | google
  | aosp
  deriving DecidableEq, Repr

/-- How many of the two-space steps make one level of indentation. -/
def Style.indentMultiplier : Style → Nat
  | .google => 1
  | .aosp => 2

/-- A complete request. Offsets and lengths belong together place by place. -/
structure Request extends Settings where
  files : List String
  lines : RangeSet
  offsets : List UInt64
  lengths : List UInt64
  deriving DecidableEq, Repr

namespace Request

/-- The offsets with the lengths at the same places. -/
def regions (r : Request) : List Region := r.offsets.zipWith Region.mk r.lengths

/-- The style that the request asks for. -/
def style (r : Request) : Style := if r.aosp then .aosp else .google

/-- Whether only parts of the input are to be formatted. -/
def isSelection (r : Request) : Bool :=
  !r.lines.isEmpty || !r.offsets.isEmpty || !r.lengths.isEmpty

/-- The number of inputs, standard input counted as one. -/
def inputCount (r : Request) : Nat := r.files.length + if r.stdin then 1 else 0

end Request

end FormatRequest

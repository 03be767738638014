import FormatRequest.CommandLine.Opt
import FormatRequest.Decimal
import FormatRequest.Text.ControlSequence

/-!
# Usage faults

What can be wrong with a command line before anything is done with it.
-/

namespace FormatRequest.CommandLine

/-- Why a command line is refused. -/
inductive UsageFault
  /-- No option is spelled like this. -/
  | unexpectedArgument (spelling : String)
  /-- A flag is given a value. -/
  | unexpectedValue (flag : Flag) (value : String)
  | missingValue (parameter : Parameter)
  /-- An option that may be given once is given again. -/
  | givenAgain (opt : Opt)
  /-- A value cannot be read; numbers say why. -/
  | invalidValue (parameter : Parameter) (value : String) (cause : Option Decimal.Fault)
  deriving DecidableEq, Repr

namespace UsageFault

/-- The wording of a fault. The user's own words are written as a terminal shows them. -/
def message : UsageFault → String
  | unexpectedArgument spelling => s!"unexpected argument '{Text.shown spelling}' found"
  | unexpectedValue flag value =>
    s!"unexpected value '{Text.shown value}' for '--{flag.name}' found; no more were expected"
  | missingValue p => s!"a value is required for '{Opt.shown (.parameter p)}' but none was supplied"
  | givenAgain opt => s!"the argument '{opt.shown}' cannot be used multiple times"
  | invalidValue p value cause =>
    s!"invalid value '{Text.shown value}' for '{Opt.shown (.parameter p)}'" ++
      match cause with
      | none => ""
      | some cause => ": " ++ cause.message

/-- The line that reports the fault, without the hints that may follow it. -/
def report (f : UsageFault) : String := "error: " ++ f.message ++ "\n"

end UsageFault

end FormatRequest.CommandLine

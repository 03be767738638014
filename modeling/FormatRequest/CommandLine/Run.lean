import FormatRequest.CommandLine.Arguments
import FormatRequest.CommandLine.Usage
import FormatRequest.Delivery
import FormatRequest.Policy

/-!
# Running the program

A command line is read, the draft it describes is resolved, and the request is delivered. The first
stage that fails decides how the run ends. The log is off: the rules that a request breaks are
reported once, by the error.
-/

namespace FormatRequest.CommandLine

/-- Why a run fails. -/
inductive RunFault
  | usage (cause : UsageFault)
  | selection (cause : SelectionFault)
  | resolution (cause : ResolutionFault)
  | delivery (cause : DeliveryFault)
  deriving DecidableEq, Repr

/-- What is left of a run when it has ended. -/
structure Outcome where
  exitCode : UInt32 := 0
  stdout : String := ""
  stderr : String := ""
  /-- The file that was written. -/
  saved : Option SavedFile := none
  /-- The file that was opened and not written to the end. -/
  left : Option Remnant := none
  deriving DecidableEq, Repr

/-- A cause under an error, with `lead` before its first line and `margin` before the others. -/
def causeText (lead margin : List Char) (cause : String) : List Char :=
  lead ++ cause.toList.flatMap fun c => if c = '\n' then '\n' :: margin else [c]

/-- The report of an error and its causes; several causes are numbered. -/
def failureText : List String → String
  | [] => "Error: \n"
  | [error] => s!"Error: {error}\n"
  | [error, cause] =>
    let margin := List.replicate 4 ' '
    s!"Error: {error}\n\nCaused by:\n" ++ String.ofList (causeText margin margin cause) ++ "\n"
  | error :: causes =>
    let line (cause : String) (i : Nat) : String :=
      let number := Decimal.digits i
      let lead := List.replicate (5 - number.length) ' ' ++ number ++ [':', ' ']
      String.ofList (causeText lead (List.replicate 7 ' ') cause) ++ "\n"
    s!"Error: {error}\n\nCaused by:\n" ++ String.join (causes.mapIdx fun i cause => line cause i)

/-- How a run ends that fails, with the log off. -/
def RunFault.outcome : RunFault → Outcome
  | .usage cause => { exitCode := 2, stderr := cause.report }
  | .selection cause => { exitCode := 1, stderr := failureText cause.chain }
  | .resolution cause => { exitCode := 1, stderr := failureText cause.chain }
  | .delivery cause =>
    { exitCode := 1, stderr := failureText cause.chain, left := cause.remnant }

/-- The text with a line break at its end. -/
def withLineEnd (text : String) : String :=
  if text.toList.getLast? = some '\n' then text else text ++ "\n"

/-- How a run ends that delivers. -/
def successOutcome (d : Delivered) : Outcome :=
  { stdout := withLineEnd d.text, saved := d.saved }

/-- What a request is delivered as; a request for help is answered by the usage text. -/
def Arguments.delivery (a : Arguments) (r : Request) : Delivery :=
  if r.help then .print usageText else r.delivery (a.outputFormat.getD .console) a.exportPath

/-- What a command line asks to be delivered. -/
def plan (words : List String) : Except RunFault Delivery := do
  let a ← (Arguments.ofWords words).mapError .usage
  let d ← a.draft.mapError .selection
  let r ← d.resolve.mapError .resolution
  return a.delivery r

/-- Carries out what was planned. -/
def carryOut (folder : Folder) (planned : Except RunFault Delivery) :
    Except RunFault Delivered := do
  let d ← planned
  (d.carryOut folder).mapError .delivery

/-- How a run ended. -/
def outcome : Except RunFault Delivered → Outcome
  | .ok d => successOutcome d
  | .error fault => fault.outcome

/-- Runs the program on a command line in a folder. -/
def run (folder : Folder) (words : List String) : Outcome := outcome (carryOut folder (plan words))

end FormatRequest.CommandLine

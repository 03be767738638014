import FormatRequest.Folder
import FormatRequest.Report

/-!
# Delivering a report

A report is printed, or it is saved to a file and a message is printed instead. What comes of
writing the file is not known here: a delivery says what has to be done, and it is carried out in a
folder.
-/

namespace FormatRequest

/-- The name of the program, as its users type it. -/
def programName : String := "jformat-options"

/-- The version number. -/
def versionNumber : String := "0.1.0"

/-- The line that answers a request for the version. -/
def versionText : String := programName ++ " " ++ versionNumber

/-- What has to be done with a text. -/
inductive Delivery
  | print (text : String)
  | save (path text : String)
  deriving DecidableEq, Repr

/-- A file that was written. -/
structure SavedFile where
  path : String
  content : String
  deriving DecidableEq, Repr

/-- A file that was not written to the end. -/
structure Remnant where
  path : String
  bytes : List UInt8
  deriving DecidableEq, Repr

/-- A delivery that has been carried out: the text to print, and the file that was written. -/
structure Delivered where
  text : String
  saved : Option SavedFile := none
  deriving DecidableEq, Repr

/-- A file that could not be written. -/
structure DeliveryFault where
  path : String
  cause : WriteFault
  /-- What the file holds, if it could be opened. -/
  left : Option (List UInt8) := none
  deriving DecidableEq, Repr

namespace DeliveryFault

/-- The wordings of the fault and of what caused it, outermost first. -/
def chain (f : DeliveryFault) : List String :=
  [s!"Failed to write report to {f.path}", f.cause.message]

/-- The file that is left behind. -/
def remnant (f : DeliveryFault) : Option Remnant := f.left.map (⟨f.path, ·⟩)

end DeliveryFault

namespace Delivery

/-- What is printed after a file was written. -/
def savedText (path : String) : String := s!"✓ Wrote formatting request to {path}"

/-- How the delivery of a text to a file ends, after what came of writing it. A file that could be
opened and did not take the whole text is left behind. -/
def ended (path text : String) : Writing → Except DeliveryFault Delivered
  | .done => .ok { text := savedText path, saved := some ⟨path, text⟩ }
  | .refused cause => .error { path, cause }
  | .brokeOff cause taken => .error { path, cause, left := some (firstBytes text taken) }

/-- Carries out a delivery. -/
def carryOut (folder : Folder) : Delivery → Except DeliveryFault Delivered
  | .print text => .ok { text }
  | .save path text => ended path text (folder path text)

end Delivery

/-- The delivery of a request's report. A request for the version is answered by the version, and
nothing is saved for it. -/
def Request.delivery (r : Request) (format : ReportFormat) (path : Option String) : Delivery :=
  if r.version then .print versionText
  else
    match path with
    | none => .print (r.render format)
    | some path => .save path (r.render format)

/-- Reports a request in a folder. -/
def Request.describe (r : Request) (folder : Folder) (format : ReportFormat)
    (path : Option String) : Except DeliveryFault Delivered :=
  (r.delivery format path).carryOut folder

end FormatRequest

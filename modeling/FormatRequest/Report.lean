import FormatRequest.Report.Console
import FormatRequest.Report.Json
import FormatRequest.Report.Toml
import FormatRequest.Report.Yaml

/-!
# Reports

A resolved request is reported in one of four formats.
-/

namespace FormatRequest

/-- The formats of a report. -/
inductive ReportFormat
  | console
  | json
  | yaml
  | toml
  deriving DecidableEq, Repr

namespace ReportFormat

/-- The name by which a user asks for the format. -/
def name : ReportFormat → String
  | console => "console"
  | json => "json"
  | yaml => "yaml"
  | toml => "toml"

/-- All formats, in the order in which they are listed. -/
def all : List ReportFormat := [console, json, yaml, toml]

/-- The format of a name. -/
def ofName? (name : String) : Option ReportFormat := all.find? (·.name == name)

@[simp] theorem ofName?_name (f : ReportFormat) : ofName? f.name = some f := by
  cases f <;> decide

end ReportFormat

/-- The report of a request. -/
def Request.render (r : Request) : ReportFormat → String
  | .console => String.ofList (Console.report r)
  | .json => String.ofList (Json.report r.fields)
  | .yaml => String.ofList (Yaml.report r.fields)
  | .toml => String.ofList (Toml.report r.fields)

end FormatRequest

import FormatRequest.Main
import FormatRequest.Proofs.CommandLine.Export
import FormatRequest.Proofs.CommandLine.Interchange
import FormatRequest.Proofs.CommandLine.Order
import FormatRequest.Proofs.CommandLine.Stages
import FormatRequest.Proofs.Draft.Repair
import FormatRequest.Proofs.LineSpec.Grammar
import FormatRequest.Proofs.RangeSet.Equality
import FormatRequest.Proofs.RangeSet.Linear
import FormatRequest.Proofs.Report.Console
import FormatRequest.Proofs.Report.Json.Request
import FormatRequest.Proofs.Report.Numbers
import FormatRequest.Proofs.Report.Toml
import FormatRequest.Proofs.Report.Yaml
import FormatRequest.Proofs.Selection.Atomic
import FormatRequest.Proofs.Selection.Grouping
import FormatRequest.Proofs.Selection.LastLine

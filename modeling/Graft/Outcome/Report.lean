import Graft.Json
import Graft.Outcome
import Graft.Yaml.Scalar

/-!
# `Graft.Outcome.Report` — outcomes for other programs and for people

An outcome as a JSON document, as a YAML document, and each refusal as the lines of a report.
-/

namespace Graft

namespace Refusal

/-- A refusal as a JSON object. -/
def Record.toJson (r : Record) : Json :=
  .object [("code", .text r.code.toList), ("message", .text r.message.toList),
    ("offset", .number r.offset), ("length", .number r.length), ("line", .number r.line),
    ("column", .number r.column)]

/-- A refusal as an item of a YAML list. -/
def Record.toYaml (r : Record) : Text :=
  "- code: ".toList ++ r.code.toList ++ "\n  message: ".toList ++ r.message.toList
    ++ "\n  offset: ".toList ++ Text.ofNat r.offset ++ "\n  length: ".toList ++ Text.ofNat r.length
    ++ "\n  line: ".toList ++ Text.ofNat r.line ++ "\n  column: ".toList ++ Text.ofNat r.column
    ++ ['\n']

/-- A line without the spaces at its end, or without the carriage return there: that is a part of the
    end of the line. -/
def trimEnd (line : Text) : Text :=
  match line.reverse with
  | '\r' :: before => before.reverse
  | reversed => (reversed.dropWhile (· = ' ')).reverse

/-- The lines of a report: the code, an empty line, the message, and the quotation as help, every
    line of it after the first moved under the first. -/
def reportLines (r : Refusal) : List Text :=
  let help := match r.context.pieces with
    | [] => []
    | first :: rest =>
        ("  help: ".toList ++ trimEnd first)
          :: rest.map fun line => List.replicate 8 ' ' ++ trimEnd line
  [r.code.toList, [], "  × ".toList ++ r.message.toList] ++ help

end Refusal

namespace Outcome

/-- An outcome as a JSON document. -/
def toJson (o : Outcome) : Text :=
  (Json.object [("output", .text o.text),
    ("diagnostics", .array (o.records.map Refusal.Record.toJson))]).pretty 0

/-- An outcome as a YAML document. -/
def toYaml (o : Outcome) : Text :=
  "output: ".toList ++ Yaml.scalarLine o.text ++
    if o.hasRefusals then
      "diagnostics:\n".toList ++ o.records.flatMap Refusal.Record.toYaml
    else "diagnostics: []\n".toList

/-- The lines of all reports. -/
def reportLines (o : Outcome) : List Text :=
  o.refusals.flatMap Refusal.reportLines

end Outcome

end Graft

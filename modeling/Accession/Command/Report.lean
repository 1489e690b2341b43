import Accession.Json
import Accession.Package.Directory
import Accession.Provenance.Document
set_option autoImplicit false

/-!
# What commands show

The texts that commands print, and their styles.

## Main definitions

* `Style` — how a text looks.
* `Style.paint` — a text with its style.
* `Style.areShown` — whether styles are shown at all.
* `Report.verificationLines`, `Report.verification`, `Report.verificationJson` — the report on a
  package.
* `Report.log` — the log of a document.
* `Report.done`, `Report.known` — notes.
-/

/-! ## Styled text

Text on a terminal may be bold, dimmed or underlined, and have a colour. Styles are sequences of
codes around the text; without colours, text is left as it is. -/

namespace Accession

/-- The colours in use. -/
inductive Colour where
  | red
  | green
  | yellow
  | cyan
  deriving DecidableEq, Repr

/-- The code of a colour. -/
def Colour.code : Colour → String
  | .red => "31"
  | .green => "32"
  | .yellow => "33"
  | .cyan => "36"

/-- How a text looks. -/
structure Style where
  bold : Bool := false
  dimmed : Bool := false
  underlined : Bool := false
  colour : Option Colour := none
  deriving DecidableEq, Repr

namespace Style

/-- The codes of a style. The colour comes last. -/
def codes (style : Style) : List String :=
  (if style.bold then ["1"] else []) ++ (if style.dimmed then ["2"] else []) ++
    (if style.underlined then ["4"] else []) ++ (style.colour.map Colour.code).toList

/-- The sequence that ends a style. -/
def reset : List Char :=
  ['\x1b', '[', '0', 'm']

/-- The sequence that begins a style. -/
def opening (style : Style) : List Char :=
  '\x1b' :: '[' :: List.intercalate [';'] (style.codes.map String.toList) ++ ['m']

/-- A text in which every end of a style is followed by `again`. -/
def resume (again : List Char) : List Char → List Char
  | '\x1b' :: '[' :: '0' :: 'm' :: rest => reset ++ again ++ resume again rest
  | c :: rest => c :: resume again rest
  | [] => []

/-- A text with its style, if styles are shown at all. Where the text itself ends a style, its own
style goes on. -/
def paint (style : Style) (shown : Bool) (text : String) : String :=
  if shown then
    String.ofList (style.opening ++ resume style.opening text.toList ++ reset)
  else text

/-- Whether styles are shown. The three settings of the environment force them, forbid them, and
allow them on a terminal (`0` takes the first and the last back). -/
def areShown (force never terminal : Option String) (onTerminal : Bool) : Bool :=
  if force.isSome && force ≠ some "0" then true
  else if never.isSome then false
  else onTerminal && terminal ≠ some "0"

end Style

end Accession

/-! ## Reports, logs and notes

The texts that commands print: the report on a package, as lines or as a JSON record, the log of a
PREMIS document, and the notes that something was recorded. -/

namespace Accession.Report

open Provenance (Agent Document EventRecord ObjectRecord)

/-- Bold text. -/
def bold : Style :=
  { bold := true }

/-- Text of a colour. -/
def coloured (colour : Colour) : Style :=
  { colour := some colour }

/-- Bold text of a colour. -/
def boldColoured (colour : Colour) : Style :=
  { bold := true, colour := some colour }

/-- A heading. -/
def heading : Style :=
  { bold := true, underlined := true }

/-- Lines as one text. -/
def unlines (lines : List String) : String :=
  String.ofList (lines.flatMap fun line => line.toList ++ ['\n'])

/-- A label and what it stands for. -/
def labelled (shown : Bool) (label value : String) : String :=
  bold.paint shown label ++ ": " ++ value

/-! ### Packages -/

/-- The lines for findings of one kind; none if there are none. -/
def findings (shown : Bool) (title : String) (lines : List String) : List String :=
  if lines.isEmpty then []
  else [(boldColoured .yellow).paint shown title ++ s!" ({lines.length}):"] ++
    lines.map ("  - " ++ ·) ++ [""]

/-- The last line of a report that finds something. -/
def statusLine (shown : Bool) : String :=
  labelled shown "Status" ((boldColoured .red).paint shown "FAILED")

/-- The lines of the report on a package. -/
def verificationLines (shown : Bool) (p : Package) (report : Package.Report) : List String :=
  [heading.paint shown "Manifest Verification",
    labelled shown "Package" p.path,
    labelled shown "Type" p.kind.name,
    ""] ++
    if report.failed then
      findings shown "Missing files" report.missing ++
      findings shown "Unexpected files" report.unexpected ++
      findings shown "Checksum mismatches" report.mismatches ++
      [statusLine shown]
    else
      [(boldColoured .green).paint shown "✓" ++ " All declared files present and intact"]

/-- The report on a package. -/
def verification (shown : Bool) (p : Package) (report : Package.Report) : String :=
  unlines (verificationLines shown p report)

/-- The report on a package as a JSON record. -/
def verificationJson (report : Package.Report) : String :=
  let texts (lines : List String) : Json := .list (lines.map .string)
  Json.render 2 (.record [
    ("missing_files", texts report.missing),
    ("unexpected_files", texts report.unexpected),
    ("checksum_mismatches", texts report.mismatches)]) ++ "\n"

/-! ### PREMIS documents -/

/-- The style of an outcome. -/
def outcomeStyle (outcome : String) : Style :=
  coloured (if outcome = "invalid" ∨ outcome = "failure" then .red else .green)

/-- The lines for an event of an object, with its agent if the document has it. -/
def eventLines (shown : Bool) (d : Document) (event : EventRecord) : List String :=
  let outcome := (outcomeStyle event.outcome).paint shown event.outcome
  let label := Style.paint { dimmed := true } shown "by"
  s!"    - {event.dateTime} {event.eventType} [{outcome}]" ::
    match d.agent? event.linkingAgent with
    | some agent => [s!"      {label}: {agent.name}"]
    | none => []

/-- The lines for an object. -/
def objectLines (shown : Bool) (d : Document) (object : ObjectRecord) : List String :=
  let events := d.eventsFor object.originalName
  [Style.paint { bold := true, colour := some .cyan } shown "Object" ++ " " ++
      (coloured .cyan).paint shown object.originalName,
    "  " ++ labelled shown "ID" s!"{object.identifier.value} ({object.identifier.type})"] ++
  (if object.formatName.isEmpty then [] else ["  " ++ labelled shown "Format" object.formatName]) ++
  (if events.isEmpty then
    ["  " ++ labelled shown "Events" ((coloured .yellow).paint shown "none")]
  else []) ++
  events.flatMap (eventLines shown d) ++ [""]

/-- The line for an agent. -/
def agentLine (shown : Bool) (agent : Agent) : String :=
  "  - " ++ (coloured .green).paint shown agent.name ++
    s!" ({agent.agentType}, {agent.identifier.type}: {agent.identifier.value})"

/-- The log of the document in a file. -/
def log (shown : Bool) (file : String) (d : Document) : String :=
  if d.isEmpty then unlines [(coloured .yellow).paint shown "PREMIS file is empty"]
  else
    unlines ([
      heading.paint shown "PREMIS Record",
      labelled shown "File" file,
      labelled shown "Objects" (toString d.objects.length) ++ "  " ++
        labelled shown "Events" (toString d.events.length) ++ "  " ++
        labelled shown "Agents" (toString d.agents.length),
      ""] ++
      d.objects.flatMap (objectLines shown d) ++
      if d.agents.isEmpty then []
      else bold.paint shown "Agents" :: d.agents.map (agentLine shown))

/-! ### Notes -/

/-- A note that something was done. -/
def done (shown : Bool) (note : String) : String :=
  (boldColoured .green).paint shown "✓" ++ " " ++ note ++ "\n"

/-- A note that there was nothing to do. -/
def known (shown : Bool) (note : String) : String :=
  (coloured .yellow).paint shown "•" ++ " " ++ note ++ "\n"

end Accession.Report

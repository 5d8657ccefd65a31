import Jasm.Diagnostic.Bag
import Jasm.Diagnostic.Shown
import Jasm.Json
import Jasm.Sorted

/-!
# Reports in the static analysis results format

A log of one run, in version 2.1.0 of the format. Units have no lines and columns, so results
carry the path of the statement as a logical location. The rules are those of the codes that occur,
sorted by id.
-/

namespace Jasm.Bag

/-- What a log says about the tool that made it. -/
structure RunInfo where
  tool : String
  version : String := ""
  args : List String := []

def logSchema : String := "https://json.schemastore.org/sarif-2.1.0.json"

def logLevel : Severity → String
  | .error => "error"
  | .warning => "warning"
  | _ => "note"

def logMessage (s : String) (bytes : Option (List UInt8) := none) : Json :=
  .obj [("text", .text s bytes)]

/-- The locations of a result: its file and its statement, as far as they are known. -/
def logLocations (cwd : String) (p : Place) (rawPath : Option (List UInt8)) :
    List (String × Json) :=
  let physical :=
    if p.file = "" then []
    else
      let uri := PathMode.relative.format cwd "" p.file
      [("physicalLocation", Json.obj [("artifactLocation", .obj [("uri", .str uri)])])]
  let logical :=
    if p.path = "" then []
    else
      let name :=
        Json.obj [("fullyQualifiedName", .text p.path rawPath), ("kind", .str "statement")]
      [("logicalLocations", Json.arr [name])]
  match physical ++ logical with
  | [] => []
  | fields => [("locations", .arr [.obj fields])]

def logResult (cwd : String) (d : Diagnostic) : Json :=
  .obj ([("ruleId", .str d.code.id), ("level", .str (logLevel d.severity)),
    ("message", logMessage d.message d.rawMessage)] ++ logLocations cwd d.place d.rawPath)

/-- The rules of some findings: ids with titles, sorted by id. Of two rules of one id the later
counts. -/
def logRules (ds : List Diagnostic) : List (String × String) :=
  sortBy Prod.fst (ds.reverse.map fun d => (d.code.id, d.code.title))

def ruleJson (rule : String × String) : Json :=
  .obj [("id", .str rule.1), ("shortDescription", logMessage rule.2)]

/-- The log of a run that left a bag, or none. -/
def toLog (cwd : String) (info : RunInfo) (b : Option Bag) : Json :=
  let items := match b with
    | some b => b.items.toList
    | none => []
  let successful := match b with
    | some b => !b.hasErrors
    | none => true
  let component := Json.obj ([("name", .str info.tool)] ++ Json.optional "version" info.version ++
    Json.optionalList "rules" ((logRules items).map ruleJson))
  let invocation := Json.obj (Json.optionalList "arguments" (info.args.map Json.str) ++
    [("executionSuccessful", .bool successful)])
  let run := Json.obj [("tool", .obj [("driver", component)]), ("invocations", .arr [invocation]),
    ("results", .arr (items.map (logResult cwd)))]
  .obj [("version", .str "2.1.0"), ("$schema", .str logSchema), ("runs", .arr [run])]

end Jasm.Bag

import Jasm.Diagnostic.Bag
import Jasm.Diagnostic.Shown
import Jasm.Json

/-!
# Reports for programs

The findings of a bag, or of several bags by unit, as a JSON document.
-/

namespace Jasm.Bag

/-- What a JSON report shows. -/
structure ExportOptions where
  mode : PathMode := .auto
  cwd : String := "/"
  baseDir : String := ""
  /-- The most findings shown; zero or less for all. -/
  max : Int := 0
  notes : Bool := false

def placeJson (o : ExportOptions) (p : Place) (rawPath : Option (List UInt8) := none) : Json :=
  .obj ([("file", .str (o.mode.format o.cwd o.baseDir p.file)), ("index", .int p.index)] ++
    Json.optional "path" p.path rawPath)

def noteJson (o : ExportOptions) (n : Note) : Json :=
  .obj [("message", .str n.message), ("location", placeJson o n.place)]

def itemJson (o : ExportOptions) (d : Diagnostic) : Json :=
  .obj ([("severity", .str d.severity.text), ("code", .str d.code.id),
      ("title", .str d.code.title), ("message", .text d.message d.rawMessage),
      ("location", placeJson o d.place d.rawPath)] ++
    if o.notes then Json.optionalList "notes" (d.notes.map (noteJson o)) else [])

/-- The report on a bag; the totals count all findings, shown or not. A bag that is not there has
none. -/
def toJson (o : ExportOptions) : Option Bag → Json
  | none => summary [] 0 0
  | some b =>
    let items := b.items.toList
    let shown := if 0 < o.max then items.take o.max.toNat else items
    summary (shown.map (itemJson o)) b.errorCount b.warningCount
where
  summary (items : List Json) (errors warnings : Nat) : Json :=
    .obj [("diagnostics", .arr items), ("count", .int items.length), ("errors", .int errors),
      ("warnings", .int warnings)]

/-- Fields sorted by name, the last of several fields of one name kept. -/
def sortedFields (fields : List (String × Json)) : List (String × Json) :=
  (fields.foldl (fun kept f => kept.filter (·.1 ≠ f.1) ++ [f]) []).mergeSort
    fun a b => !(decide (b.1 < a.1))

/-- The reports on several bags in one document, by unit. -/
def toJsonByUnit (o : ExportOptions) (bags : List (String × Option Bag)) : Json :=
  .obj (sortedFields (bags.map fun (path, b) => (o.mode.format o.cwd o.baseDir path, toJson o b)))

end Jasm.Bag

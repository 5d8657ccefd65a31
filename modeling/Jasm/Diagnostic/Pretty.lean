import Jasm.Diagnostic.Bag
import Jasm.Diagnostic.Shown
import Jasm.Text.Style
import Jasm.Text.Width

/-!
# Reports for people

One line per finding with its place, severity, code and message, its notes below it, and a line
with the totals. Messages can be cut to a number of cells.
-/

namespace Jasm.Bag

/-- How a report for people looks. -/
structure PrettyOptions where
  color : Bool := false
  mode : PathMode := .auto
  cwd : String := "/"
  baseDir : String := ""
  /-- The most cells of a message; zero for no limit. -/
  width : Nat := 0
  notes : Bool := false
  summary : Bool := false

def severityStyle : Severity → List Text.Attribute
  | .error => [.red, .bold]
  | .warning => [.yellow, .bold]
  | _ => [.cyan, .bold]

def clip (message : String) (width : Nat) : String :=
  if width = 0 then message else Text.truncate message width "…"

def counted (n : Nat) (noun : String) : String :=
  if n = 1 then s!"1 {noun}" else s!"{n} {noun}s"

def prettyNote (o : PrettyOptions) (n : Note) : String :=
  let label := Text.paint o.color [.blue] "note:"
  let place := (n.place.shown o.mode o.cwd o.baseDir).text
  s!"  {label} {place}: {clip n.message o.width}\n"

def prettyItem (o : PrettyOptions) (d : Diagnostic) : String :=
  let place := (d.place.shown o.mode o.cwd o.baseDir).text
  let severity := Text.paint o.color (severityStyle d.severity) d.severity.text
  let code := Text.paint o.color [.faint] d.code.id
  let notes := if o.notes then String.join (d.notes.map (prettyNote o)) else ""
  s!"{Text.paint o.color [.bold] place}: {severity} {code}: {clip d.message o.width}\n{notes}"

def pretty (b : Bag) (o : PrettyOptions) : String :=
  let items := String.join (b.items.toList.map (prettyItem o))
  if o.summary then
    let errors := Text.paint o.color (severityStyle .error) (counted b.errorCount "error")
    let warnings := Text.paint o.color (severityStyle .warning) (counted b.warningCount "warning")
    s!"{items}{errors}, {warnings}\n"
  else items

end Jasm.Bag

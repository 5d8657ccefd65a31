import Jasm.Progress
import Jasm.Text.Display
import Jasm.Trace.Event

/-!
# Progress on a screen

While units are compiled a screen shows a title with a turning sign, each unit with its status, and
a bar. The bar is empty until everything is done.
-/

namespace Jasm

/-- What a screen shows. -/
structure ProgressView where
  title : String
  units : List (String × String)
  /-- What is told about the run as a whole; empty until something is. -/
  label : String := ""
  width : Int := 80
  barWidth : Int := 76
  /-- How far the sign has turned. -/
  turns : Nat := 0
  done : Bool := false

/-- Something that changes the screen. -/
inductive ProgressView.Change where
  | progress (p : Progress)
  /-- The sign turns. -/
  | tick
  | resize (width : Int)
  /-- All units are finished. -/
  | done
  /-- Something else, which means nothing. -/
  | other

namespace ProgressView

def new (title : String) (units : List String) : ProgressView where
  title := title
  units := units.map (·, "queued")

/-! ## Changes -/

/-- What a unit at work does in a stage. -/
def stageLabel : Stage → String
  | .load => "loading"
  | .check => "checking"
  | .emit => "emitting"
  | .publish => "publishing"
  | .other _ => ""

/-- How a status is shown; an unknown one is not. -/
def statusLabel (stage : Stage) : Status → String
  | .queued => "queued"
  | .done => "done"
  | .cached => "cached"
  | .error => "error"
  | .working => stageLabel stage
  | .other _ => ""

/-- Gives the last unit of a name another status. -/
def setStatus (unit status : String) (units : List (String × String)) : List (String × String) :=
  match units.reverse.span (·.1 ≠ unit) with
  | (after, (name, _) :: before) => before.reverse ++ (name, status) :: after.reverse
  | (_, []) => units

/-- Shows what a unit, or the run as a whole, tells. -/
def tell (v : ProgressView) (p : Progress) : ProgressView :=
  let label := statusLabel p.stage p.status
  if label = "" then v
  else if p.unit = "" then { v with label := label }
  else { v with units := setStatus p.unit label v.units }

def change (v : ProgressView) : Change → ProgressView
  | .progress p => v.tell p
  | .tick => if v.done then v else { v with turns := v.turns + 1 }
  | .resize width => if 0 < width then { v with width := width, barWidth := width - 4 } else v
  | .done => { v with done := true }
  | .other => v

/-! ## Text -/

def signs : List String := ["⣾ ", "⣽ ", "⣻ ", "⢿ ", "⡿ ", "⣟ ", "⣯ ", "⣷ "]

def sign (turns : Nat) : String := signs.getD (turns % signs.length) ""

/-- Text as a block: tabs become four blanks, and lines are filled up to the longest one. -/
def block (s : String) : String :=
  let expand (c : Char) : List Char := if c = '\t' then [' ', ' ', ' ', ' '] else [c]
  let lines := (String.ofList (s.toList.flatMap expand)).splitOn "\n"
  let widest := (lines.map Text.displayWidth).foldl max 0
  "\n".intercalate (lines.map fun l => l.pushn ' ' (widest - Text.displayWidth l))

/-- The cells of a bar of a given width, followed by how much of the work is done. -/
def bar (width : Int) (done : Bool) : String :=
  "".pushn (if done then '█' else '░') (width - 5).toNat ++ (if done then " 100%" else "   0%")

/-- The cells in which the path of a unit is shown. -/
def nameWidth (v : ProgressView) : Nat := (max 20 (v.width - 16)).toNat

def unitLine (v : ProgressView) (unit : String × String) : String :=
  s!"  {Trace.padLeft 12 unit.2} " ++ Text.truncate unit.1 v.nameWidth "..." ++ "\n"

/-- The screen; nothing if there are no units. -/
def text (v : ProgressView) : String :=
  if v.units.isEmpty then ""
  else
    let title := if v.label = "" then v.title else s!"{v.title} ({v.label})"
    let header := if v.done then s!"done: {title}" else s!"{sign v.turns} {title}"
    block header ++ "\n\n" ++ String.join (v.units.map v.unitLine) ++ "\n" ++
      bar v.barWidth v.done ++ "\n"

end ProgressView

end Jasm

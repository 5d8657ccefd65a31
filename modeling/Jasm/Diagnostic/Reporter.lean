import Jasm.Diagnostic.Bag

/-!
# Reporters

Where findings go as they are made: into a bag, nowhere, or through a filter that lets each
finding pass once. The filter does not look at paths and notes, so of several findings at one
statement that say the same the first one is kept.
-/

namespace Jasm

/-- What the filter tells findings apart by. -/
structure ReportKey where
  code : Code
  severity : Severity
  file : String
  index : Int
  message : String
  rawMessage : Option (List UInt8)
  deriving DecidableEq, Repr

def Diagnostic.reportKey (d : Diagnostic) : ReportKey :=
  ⟨d.code, d.severity, d.place.file, d.place.index, d.message, d.rawMessage⟩

/-- A receiver of findings. -/
inductive Reporter where
  | discard
  | bag (b : Bag)
  /-- Passes on what was not seen before. -/
  | unique (seen : List ReportKey) (next : Reporter)
  deriving Inhabited

namespace Reporter

def report : Reporter → Diagnostic → Reporter
  | .discard, _ => .discard
  | .bag b, d => .bag (b.add d).1
  | .unique seen next, d =>
    if seen.contains d.reportKey then .unique seen next
    else .unique (d.reportKey :: seen) (next.report d)

def contents : Reporter → Bag
  | .discard => { limit := 0 }
  | .bag b => b
  | .unique _ next => next.contents

/-- The receiver of a compilation: a bag with a limit behind a filter. -/
def collecting (limit : Int) : Reporter := .unique [] (.bag (Bag.new limit))

def reportAll (r : Reporter) (ds : List Diagnostic) : Reporter := ds.foldl report r

@[simp] theorem contents_bag (b : Bag) : (bag b).contents = b := rfl

@[simp] theorem contents_unique (seen : List ReportKey) (next : Reporter) :
    (unique seen next).contents = next.contents := rfl

end Reporter

/-- A finding in the making, which is handed over at most once. -/
structure PendingReport where
  diagnostic : Diagnostic
  emitted : Bool := false
  deriving Inhabited

namespace PendingReport

/-- Adds a remark; one that comes after the finding was handed over is only kept here. -/
def withNote (p : PendingReport) (place : Place) (message : String) : PendingReport :=
  { p with diagnostic := p.diagnostic.withNote place message }

/-- Hands the finding over unless that was done before. -/
def emit (p : PendingReport) (r : Reporter) : PendingReport × Reporter :=
  if p.emitted then (p, r) else ({ p with emitted := true }, r.report p.diagnostic)

end PendingReport

end Jasm

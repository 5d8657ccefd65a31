import Std.Data.HashSet
import Jasm.Diagnostic.Basic

/-!
# Bags of diagnostics

A bag keeps findings in the order they come, up to a limit of at most 65535. Merging raises the
limit where it has to; nothing lowers it.
-/

namespace Jasm

/-- Findings in order, of which there are never more than `limit`. -/
structure Bag where
  items : Array Diagnostic := #[]
  limit : Nat
  deriving DecidableEq, Inhabited

namespace Bag

/-- No bag holds more. -/
def maxLimit : Nat := 65535

/-- An empty bag; limits that are too small or too large count as the nearest possible one. -/
def new (max : Int) : Bag := { limit := min max.toNat maxLimit }

def size (b : Bag) : Nat := b.items.size

/-- Adds a finding if there is room; says whether there was. -/
def add (b : Bag) (d : Diagnostic) : Bag × Bool :=
  if b.size < b.limit then ({ b with items := b.items.push d }, true) else (b, false)

def hasErrors (b : Bag) : Bool := b.items.any (·.severity.isError)

/-- Whether a finding is a warning or worse. -/
def hasWarnings (b : Bag) : Bool := b.items.any (1 ≤ ·.severity.rank)

def errorCount (b : Bag) : Nat := b.items.countP (·.severity = .error)

def warningCount (b : Bag) : Nat := b.items.countP (·.severity = .warning)

/-- Takes in the findings of another bag behind its own, as many as any bag can hold. -/
def merge (b : Bag) : Option Bag → Bag
  | none => b
  | some other =>
    let limit := max b.limit (min (b.size + other.size) maxLimit)
    { items := b.items ++ other.items.extract 0 (limit - b.size), limit }

/-- The order of findings in reports: by file, statement, severity from worst to mildest, code. -/
def precedes (a b : Diagnostic) : Bool :=
  if a.place.file ≠ b.place.file then a.place.file < b.place.file
  else if a.place.index ≠ b.place.index then a.place.index < b.place.index
  else if a.severity ≠ b.severity then b.severity.rank < a.severity.rank
  else a.code.number < b.code.number

/-- Sorts the findings; equal ones keep their order. -/
def sort (b : Bag) : Bag :=
  { b with items := (b.items.toList.mergeSort fun x y => !precedes y x).toArray }

/-- What two findings are compared by when repetitions are dropped. -/
def dedupKey (d : Diagnostic) : String :=
  s!"{d.code.id}:{d.place.text}:{d.place.index}:{d.message}"

/-- Keeps the first finding of each key; `seen` holds the keys so far. -/
def dedupItems : (seen : Std.HashSet String) → List Diagnostic → List Diagnostic
  | _, [] => []
  | seen, d :: rest =>
    if seen.contains (dedupKey d) then dedupItems seen rest
    else d :: dedupItems (seen.insert (dedupKey d)) rest

def dedup (b : Bag) : Bag := { b with items := (dedupItems ∅ b.items.toList).toArray }

end Bag

end Jasm

import Std.Data.TreeMap
import Jasm.Assembly.Instruction

/-!
# Labels

Labels are handed out by number and never twice. Each is defined at most once and belongs to one
method: the one that was open when it was reserved or, if none was, the first that uses it.
-/

namespace Jasm.Assembly

/-- What is known of a label that was handed out. -/
structure LabelState where
  defined : Bool
  /-- The number of the method it belongs to; zero while it belongs to none. -/
  owner : Nat
  deriving DecidableEq, Repr

/-- The labels of one program. -/
structure LabelTable where
  stem : String
  /-- How many labels were handed out. -/
  counter : Nat := 0
  states : Std.TreeMap Label LabelState := ∅
  /-- The number of the open method; zero between methods. -/
  current : Nat := 0
  /-- How many methods were opened. -/
  opened : Nat := 0

namespace LabelTable

def label (t : LabelTable) (n : Nat) : Label := t.stem ++ toString n

def get? (t : LabelTable) (l : Label) : Option LabelState := t.states[l]?

def reserveOne (t : LabelTable) : Label × LabelTable :=
  let l := t.label t.counter
  (l, { t with counter := t.counter + 1, states := t.states.insert l ⟨false, t.current⟩ })

def reserve (t : LabelTable) : Nat → List Label × LabelTable
  | 0 => ([], t)
  | n + 1 =>
    let (l, t) := t.reserveOne
    let (ls, t) := t.reserve n
    (l :: ls, t)

def enterMethod (t : LabelTable) : LabelTable :=
  { t with opened := t.opened + 1, current := t.opened + 1 }

def leaveMethod (t : LabelTable) : LabelTable := { t with current := 0 }

/-- Whether the open method may use a label: it is its own or nobody's yet. -/
def isUsable (t : LabelTable) (s : LabelState) : Bool := s.owner = t.current || s.owner = 0

/-- Ties a label to the open method. -/
def bind (t : LabelTable) (l : Label) (s : LabelState) : LabelTable :=
  { t with states := t.states.insert l { s with owner := t.current } }

/-- Marks a label as defined in the open method. -/
def define (t : LabelTable) (l : Label) : LabelTable :=
  { t with states := t.states.insert l ⟨true, t.current⟩ }

/-- Whether a label was handed out and not defined yet. -/
def isPending (t : LabelTable) (l : Label) : Bool :=
  match t.get? l with
  | some s => !s.defined
  | none => false

/-- The labels that were handed out and not defined, in the order of their numbers. -/
def pending (t : LabelTable) : List Label :=
  ((List.range t.counter).map t.label).filter t.isPending

end LabelTable

end Jasm.Assembly

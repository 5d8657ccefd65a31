import Std.Data.TreeMap
import Jasm.Symbol

/-!
# Scopes

A scope holds the declarations of one level. Each name is declared at most once in it. Variables
are numbered from zero in the order of their declaration; other declarations have no number. A
slot is an operand of two bytes, so a scope numbers at most 65536 variables, while declarations
without a slot can still be added.

What a declaration carries is left open: a scope only needs its name and its form.
-/

namespace Jasm

/-- A name with its form and what it stands for. -/
structure Declaration (σ : Type) where
  name : String
  form : Form
  item : σ

/-- A declaration in a scope, with its slot. -/
structure Entry (σ : Type) where
  form : Form
  item : σ
  slot : Option Nat

/-- One level of declarations. -/
structure Scope (σ : Type) where
  index : Std.TreeMap String (Entry σ) := ∅
  /-- The declared names, the last one first. -/
  names : List String := []
  /-- How many slots were given out. -/
  slots : Nat := 0

namespace Scope

/-- Why a scope refuses a declaration or a name does not resolve. -/
inductive Fault where
  | missing
  | duplicate (name : String)
  | tooManyLocals (name : String) (slot : Nat)
  | undeclared (name : String)
  | notAddressable (name : String) (form : Form)
  | underflow
  deriving DecidableEq, Repr

def Fault.message : Fault → String
  | .missing => "insert: nil symbol"
  | .duplicate name => s!"duplicate declaration: {Text.quoted name}"
  | .tooManyLocals name slot =>
    s!"too many local variables: {Text.quoted name} needs slot {slot}: out of range"
  | .undeclared name => s!"undeclared identifier: {Text.quoted name}"
  | .notAddressable name form =>
    s!"not an addressable variable: {Text.quoted name} is a {form.text}"
  | .underflow => "scope underflow"

/-- The largest slot an instruction can address. -/
def maxSlot : Nat := 65535

variable {σ : Type}

instance : Inhabited (Scope σ) := ⟨{}⟩

def get? (s : Scope σ) (name : String) : Option (Entry σ) := s.index[name]?

def contains (s : Scope σ) (name : String) : Bool := (s.get? name).isSome

/-- The slot of a variable of this scope. -/
def slot? (s : Scope σ) (name : String) : Option Nat := (s.get? name).bind Entry.slot

def size (s : Scope σ) : Nat := s.names.length

/-- The entries in the order of their declaration. -/
def entries (s : Scope σ) : List (String × Entry σ) :=
  s.names.reverse.filterMap fun name => (s.get? name).map (name, ·)

/-- Puts an entry behind all others. -/
def push (s : Scope σ) (d : Declaration σ) (slot : Option Nat) : Scope σ where
  index := s.index.insert d.name ⟨d.form, d.item, slot⟩
  names := d.name :: s.names
  slots := match slot with
    | some n => n + 1
    | none => s.slots

/-- Declares a name; gives the new scope and the slot, if the declaration is a variable. -/
def insert (s : Scope σ) : Option (Declaration σ) → Except Fault (Option Nat × Scope σ)
  | none => .error .missing
  | some d =>
    if s.contains d.name then .error (.duplicate d.name)
    else if d.form = .variable then
      if s.slots ≤ maxSlot then .ok (some s.slots, s.push d (some s.slots))
      else .error (.tooManyLocals d.name s.slots)
    else .ok (none, s.push d none)

/-- Takes the next slot in place, if the declaration needs one. -/
def takeSlot (s : Scope σ) (d : Declaration σ) : Except Fault (Option Nat) × Scope σ :=
  if d.form = .variable then
    if s.slots > maxSlot then (.error (.tooManyLocals d.name s.slots), s)
    else (.ok (some s.slots), { s with slots := s.slots + 1 })
  else (.ok none, s)

/-- Declares a name in place, step by step; gives the slot. Whatever was written before a step that
fails stays in the scope. -/
def declare (s : Scope σ) : Option (Declaration σ) → Except Fault (Option Nat) × Scope σ
  | none => (.error .missing, s)
  | some d =>
    if s.contains d.name then (.error (.duplicate d.name), s)
    else
      match s.takeSlot d with
      | (.error f, s) => (.error f, s)
      | (.ok slot, s) =>
        let s := { s with index := s.index.insert d.name ⟨d.form, d.item, slot⟩ }
        let s := { s with names := d.name :: s.names }
        (.ok slot, s)

end Scope

/-- The declaration of a symbol under its own name. -/
def Symbol.declaration (s : Symbol) : Declaration Symbol := ⟨s.name, s.form, s⟩

end Jasm

import Jasm.Scope.Basic

/-!
# Nested scopes

The scopes that are open at one point of a program: the global scope, which is always there, and
the scopes inside it. A name means its innermost declaration. Variables of the global scope are
addressed by name, those of inner scopes by their slot.
-/

namespace Jasm

/-- Where a variable lives. -/
inductive Location where
  | nowhere
  | frame (slot : Int)
  | global
  deriving DecidableEq, Repr

namespace Location

def kindText : Location → String
  | .nowhere => "invalid"
  | .frame _ => "local"
  | .global => "global"

/-- The slot; a global variable has none, which is written as `-1`. -/
def slot : Location → Int
  | .nowhere => 0
  | .frame n => n
  | .global => -1

def isGlobal : Location → Bool
  | .global => true
  | _ => false

def text : Location → String
  | .frame n => s!"local {n}"
  | l => l.kindText

end Location

/-- The open scopes. -/
structure Stack (σ : Type) where
  /-- The scopes inside the global one, innermost first. -/
  inner : List (Scope σ) := []
  global : Scope σ := {}

namespace Stack

variable {σ : Type}

instance : Inhabited (Stack σ) := ⟨{}⟩

/-- The number of open scopes, the global one included. -/
def depth (st : Stack σ) : Nat := st.inner.length + 1

def atGlobal (st : Stack σ) : Bool := st.inner.isEmpty

def top (st : Stack σ) : Scope σ := st.inner.headD st.global

def setTop (st : Stack σ) (s : Scope σ) : Stack σ :=
  match st.inner with
  | [] => { st with global := s }
  | _ :: rest => { st with inner := s :: rest }

def enter (st : Stack σ) : Stack σ := { st with inner := {} :: st.inner }

/-- Closes the innermost scope and forgets its declarations. -/
def leave (st : Stack σ) : Except Scope.Fault (Stack σ) :=
  match st.inner with
  | [] => .error .underflow
  | _ :: rest => .ok { st with inner := rest }

def insert (st : Stack σ) (d : Option (Declaration σ)) :
    Except Scope.Fault (Option Nat × Stack σ) := do
  let (slot, s) ← st.top.insert d
  return (slot, st.setTop s)

/-- Closes the innermost scope in place. -/
def close (st : Stack σ) : Except Scope.Fault Unit × Stack σ :=
  if st.depth ≤ 1 then (.error .underflow, st) else (.ok (), { st with inner := st.inner.tail })

/-- Declares a name in place in the innermost scope. -/
def declare (st : Stack σ) (d : Option (Declaration σ)) :
    Except Scope.Fault (Option Nat) × Stack σ :=
  let (slot, s) := st.top.declare d
  (slot, st.setTop s)

/-- Declares a name in the global scope, whatever scope is open. -/
def insertGlobal (st : Stack σ) (d : Option (Declaration σ)) :
    Except Scope.Fault (Option Nat × Stack σ) := do
  let (slot, s) ← st.global.insert d
  return (slot, { st with global := s })

/-- The innermost declaration of a name in a list of scopes around the global one, with the depth
of its scope. -/
def findIn (global : Scope σ) (name : String) : List (Scope σ) → Option (Nat × Entry σ)
  | [] => (global.get? name).map (0, ·)
  | s :: rest =>
    match s.get? name with
    | some e => some (rest.length + 1, e)
    | none => findIn global name rest

/-- The innermost declaration of a name and the depth of its scope; the global scope has depth
zero. -/
def find? (st : Stack σ) (name : String) : Option (Nat × Entry σ) :=
  findIn st.global name st.inner

def find (st : Stack σ) (name : String) : Except Scope.Fault (Nat × Entry σ) :=
  match st.find? name with
  | some found => .ok found
  | none => .error (.undeclared name)

def lookup (st : Stack σ) (name : String) : Except Scope.Fault σ := do
  return (← st.find name).2.item

/-- The location of an entry found at a depth. -/
def locationOf (depth : Nat) (e : Entry σ) : Location :=
  if e.form ≠ .variable then .nowhere
  else if depth = 0 then .global
  else .frame (match e.slot with
    | some n => n
    | none => -1)

def slotOf (st : Stack σ) (name : String) : Except Scope.Fault Location := do
  let (depth, e) ← st.find name
  if e.form ≠ .variable then throw (.notAddressable name e.form)
  return locationOf depth e

/-- What a name stands for together with its location; only variables have one. -/
def resolve (st : Stack σ) (name : String) : Except Scope.Fault (σ × Location) := do
  let (depth, e) ← st.find name
  return (e.item, locationOf depth e)

/-- The depth of the scope that a name is found in. -/
def scopeOf (st : Stack σ) (name : String) : Except Scope.Fault Nat := do
  return (← st.find name).1

/-! ## Dumps -/

def dumpScope (describe : σ → String) (depth : Nat) (s : Scope σ) : List String :=
  s!"---------- scope {depth} ----------" :: s.entries.map fun (_, e) => describe e.item

def dumpScopes (describe : σ → String) (global : Scope σ) : List (Scope σ) → List String
  | [] => dumpScope describe 0 global
  | s :: rest => dumpScope describe (rest.length + 1) s ++ dumpScopes describe global rest

/-- Shows every open scope, innermost first. -/
def dump (describe : σ → String) (st : Stack σ) : String :=
  let lines :=
    "================= Start of SymbolTable List ================" ::
      dumpScopes describe st.global st.inner ++
      ["=================  End of SymbolTable List  ================"]
  String.join (lines.map (· ++ "\n"))

end Stack

end Jasm

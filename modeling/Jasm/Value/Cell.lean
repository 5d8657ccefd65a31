import Jasm.Value.Literal

/-!
# Cells

In memory a value is a cell: a kind and, apart from it, what the cell holds. Nothing in the cell
makes the two agree. Setters and assignments write to a cell in place. Operators read what their
operands hold by asserting its type, and an assertion that fails stops the program.
-/

namespace Jasm

/-- What a cell can hold. -/
inductive Payload where
  | int (n : Int32)
  | float (x : Float32)
  | char (code : Int32)
  | str (s : String)
  | bool (b : Bool)

structure Cell where
  kind : Kind := .none
  data : Option Payload := none

namespace Cell

open Value (Fault)

/-! ## Making cells -/

def uninit (kind : Kind) : Cell := ⟨kind, none⟩
def int (n : Int32) : Cell := ⟨.integer, some (.int n)⟩
def float (x : Float32) : Cell := ⟨.float, some (.float x)⟩
def char (code : Int32) : Cell := ⟨.char, some (.char code)⟩
def str (s : String) : Cell := ⟨.string, some (.str s)⟩
def bool (b : Bool) : Cell := ⟨.boolean, some (.bool b)⟩

/-- The cell of a value. -/
def of : Value → Cell
  | .uninit k => uninit k
  | .int n => int n
  | .float x => float x
  | .char code => char code
  | .str s => str s
  | .bool b => bool b

def ofLiteral : Literal → Except Literal.Fault Cell
  | .integer n =>
    if -0x80000000 ≤ n ∧ n < 0x80000000 then .ok (int (Int32.ofInt n)) else .error (.integerRange n)
  | .double x =>
    if x.abs > Literal.maxSingle && !x.isInf then .error (.floatRange x)
    else .ok (float x.toFloat32)
  | .single x => .ok (float x)
  | .boolean b => .ok (bool b)
  | .text s => .ok (str s)
  | .missing => .error .missing
  | .unsupported type => .error (.unsupported type)

/-! ## Writing to cells -/

/-- Stores a scalar that belongs to a kind. -/
def set (c : Cell) (kind : Kind) (p : Payload) : Except Fault Unit × Cell :=
  if c.kind ≠ kind then (.error (.store kind c.kind), c) else (.ok (), { c with data := some p })

def setInt (c : Cell) (n : Int32) : Except Fault Unit × Cell := c.set .integer (.int n)
def setFloat (c : Cell) (x : Float32) : Except Fault Unit × Cell := c.set .float (.float x)
def setChar (c : Cell) (code : Int32) : Except Fault Unit × Cell := c.set .char (.char code)
def setStr (c : Cell) (s : String) : Except Fault Unit × Cell := c.set .string (.str s)
def setBool (c : Cell) (b : Bool) : Except Fault Unit × Cell := c.set .boolean (.bool b)

/-- Takes over what another cell of the same kind holds, which may be nothing. -/
def assign (c other : Cell) : Except Fault Unit × Cell :=
  if c.kind ≠ other.kind then (.error (.assign other.kind c.kind), c)
  else (.ok (), { c with data := other.data })

/-! ## Operators

The result is missing where an assertion fails.
-/

/-- The left operand tells which type is asserted of the right one. -/
def arith (op : Operator) (kind : Kind) : Payload → Payload → Option (Except Fault Cell)
  | .int a, .int b => some ((Value.intArith op a b).map of)
  | .float a, .float b => some ((Value.floatArith op a b).map of)
  | .int _, _ | .float _, _ => none
  | _, _ => some (.error (.undefined op kind))

def relation (op : Operator) : Payload → Payload → Option (Except Fault Cell)
  | .int a, .int b => some (.ok (bool (Value.decideOrder op (Value.compareInt a b))))
  | .float a, .float b =>
    if a.isNaN || b.isNaN then some (.ok (bool (op = .notEq)))
    else some (.ok (bool (Value.decideOrder op (Value.compareFloat a b))))
  | .char a, .char b => some (.ok (bool (Value.decideOrder op (Value.compareInt a b))))
  | .str a, .str b => some (.ok (bool (Value.decideOrder op (Value.compareText a b))))
  | .bool a, .bool b => some (.ok (bool (Value.decideOrder op (Value.compareBool a b))))
  | _, _ => none

/-- A truth value, read without an assertion: any other scalar counts as false. -/
def truth : Payload → Bool
  | .bool b => b
  | _ => false

def binary (op : Operator) (l r : Cell) : Option (Except Fault Cell) :=
  if !op.isBinary then some (.error (.notBinary op))
  else if l.kind ≠ r.kind then some (.error (.operands l.kind op r.kind))
  else
    match Value.resultKind op l.kind, l.data, r.data with
    | .error f, _, _ => some (.error f)
    | .ok _, some a, some b =>
      if op.isArithmetic then arith op l.kind a b
      else if op.isRelational then relation op a b
      else if op = .and then some (.ok (bool (truth a && truth b)))
      else some (.ok (bool (truth a || truth b)))
    | .ok kind, _, _ => some (.ok (uninit kind))

def unary (op : Operator) (c : Cell) : Except Fault Cell :=
  if !op.isUnary then .error (.notUnary op)
  else
    match Value.resultKind op c.kind, c.data with
    | .error f, _ => .error f
    | .ok _, some (.int n) => .ok (int (-n))
    | .ok _, some (.float x) => .ok (float (-x))
    | .ok _, some (.bool b) => .ok (bool !b)
    | .ok kind, _ => .ok (uninit kind)

end Cell

end Jasm

import Jasm.Number.Shortest
import Jasm.Text.Quoted
import Jasm.Value.Operator

/-!
# Scalar values

A value has a kind for life and may or may not hold a scalar of it. The five constructors for
held scalars determine the kind, so a value can never hold a scalar of another kind than its own.

Operators never read what is not there: applied to a value without a scalar they give a value of
the result kind without a scalar. Integers have 32 bits and wrap around.
-/

namespace Jasm

/-- A scalar value. -/
inductive Value where
  /-- A value of a kind that holds nothing yet. -/
  | uninit (kind : Kind)
  | int (n : Int32)
  | float (x : Float32)
  /-- A character, by a code that need not be that of any character. -/
  | char (code : Int32)
  | str (s : String)
  | bool (b : Bool)
  deriving DecidableEq

namespace Value

instance : Inhabited Value := ⟨.uninit .none⟩

/-- Why an operation on values is refused. -/
inductive Fault where
  | unknownOperator (op : Operator)
  | notBinary (op : Operator)
  | notUnary (op : Operator)
  | operands (left : Kind) (op : Operator) (right : Kind)
  | undefined (op : Operator) (kind : Kind)
  | divisionByZero (op : Operator) (dividend : Int32)
  | store (source target : Kind)
  | assign (source target : Kind)
  deriving DecidableEq, Repr

/-- Whether a fault is a mismatch of kinds; the others are divisions by zero. -/
def Fault.isMismatch : Fault → Bool
  | .divisionByZero .. => false
  | _ => true

def Fault.message : Fault → String
  | .unknownOperator op => s!"type mismatch: unknown operator {op.text}"
  | .notBinary op => s!"type mismatch: {op.text} is not a binary operator"
  | .notUnary op => s!"type mismatch: {op.text} is not a unary operator"
  | .operands l op r => s!"type mismatch: {l.text} {op.text} {r.text}"
  | .undefined op k => s!"type mismatch: operator {op.text} is not defined for {k.text}"
  | .divisionByZero op a => s!"integer division by zero: {a.toInt} {op.text} 0"
  | .store source target => s!"type mismatch: cannot store {source.text} into {target.text}"
  | .assign source target => s!"type mismatch: cannot assign {source.text} to {target.text}"

/-! ## Observations -/

def kind : Value → Kind
  | .uninit k => k
  | .int _ => .integer
  | .float _ => .float
  | .char _ => .char
  | .str _ => .string
  | .bool _ => .boolean

def isInit : Value → Bool
  | .uninit _ => false
  | _ => true

/-- The character of a code; codes that name none are shown as the replacement character. -/
def charOfCode (code : Int32) : Char :=
  let n := code.toInt
  if 0 ≤ n ∧ n.toNat.isValidChar then Char.ofNat n.toNat else Char.ofNat 0xfffd

def text : Value → String
  | .uninit _ => "<uninit>"
  | .int n => toString n.toInt
  | .float x => x.shortestText
  | .char code => String.singleton (charOfCode code)
  | .str s => s
  | .bool b => if b then "true" else "false"

/-- Same kind and same scalar, where a number that is not a number equals nothing and the two
zeros are equal. -/
def same : Value → Value → Bool
  | .uninit k, .uninit k' => k = k'
  | .int a, .int b => a = b
  | .float a, .float b => a == b
  | .char a, .char b => a = b
  | .str a, .str b => a = b
  | .bool a, .bool b => a = b
  | _, _ => false

/-- The whole number that stands for a value in memory: integers as they are, truth values as one
and zero. -/
def intImage? : Value → Option Int32
  | .int n => some n
  | .bool b => some (if b then 1 else 0)
  | _ => none

/-! ## Storing -/

/-- Stores a scalar into a value of its kind. -/
def store (target : Value) (scalar : Value) : Except Fault Value :=
  if target.kind = scalar.kind then .ok scalar else .error (.store scalar.kind target.kind)

/-- Replaces a value by another of the same kind, which may hold nothing. -/
def assign (target : Value) (other : Value) : Except Fault Value :=
  if target.kind = other.kind then .ok other else .error (.assign other.kind target.kind)

/-- Assigns to a value in place; gives what is there behind the assignment. -/
def put (target other : Value) : Except Fault Unit × Value :=
  if target.kind = other.kind then (.ok (), other) else
    (.error (.assign other.kind target.kind), target)

/-! ## Operators -/

def resultKind (op : Operator) (k : Kind) : Except Fault Kind :=
  if !(op.isBinary || op.isUnary) then .error (.unknownOperator op)
  else if op.admits k then .ok (op.resultKind k)
  else .error (.undefined op k)

def intArith (op : Operator) (a b : Int32) : Except Fault Value :=
  match op with
  | .add => .ok (.int (a + b))
  | .sub => .ok (.int (a - b))
  | .mul => .ok (.int (a * b))
  | .div => if b = 0 then .error (.divisionByZero .div a) else .ok (.int (a / b))
  | .rem => if b = 0 then .error (.divisionByZero .rem a) else .ok (.int (a % b))
  | _ => .error (.undefined op .integer)

def floatArith (op : Operator) (a b : Float32) : Except Fault Value :=
  match op with
  | .add => .ok (.float (a + b))
  | .sub => .ok (.float (a - b))
  | .mul => .ok (.float (a * b))
  | .div => .ok (.float (a / b))
  | _ => .error (.undefined op .float)

/-- Whether a comparison holds of two operands in this order. -/
def decideOrder : Operator → Ordering → Bool
  | .less, o => o = .lt
  | .greater, o => o = .gt
  | .lessEq, o => o ≠ .gt
  | .greaterEq, o => o ≠ .lt
  | .eq, o => o = .eq
  | .notEq, o => o ≠ .eq
  | _, _ => false

def compareInt (a b : Int32) : Ordering :=
  if a < b then .lt else if b < a then .gt else .eq

def compareFloat (a b : Float32) : Ordering :=
  if a < b then .lt else if b < a then .gt else .eq

def compareBool (a b : Bool) : Ordering :=
  if !a && b then .lt else if a && !b then .gt else .eq

def compareText (a b : String) : Ordering :=
  if a < b then .lt else if b < a then .gt else .eq

/-- Comparisons. Numbers that are not numbers are unordered: they only differ. -/
def relation (op : Operator) : Value → Value → Except Fault Value
  | .int a, .int b => .ok (.bool (decideOrder op (compareInt a b)))
  | .float a, .float b =>
    if a.isNaN || b.isNaN then .ok (.bool (op = .notEq))
    else .ok (.bool (decideOrder op (compareFloat a b)))
  | .char a, .char b => .ok (.bool (decideOrder op (compareInt a b)))
  | .str a, .str b => .ok (.bool (decideOrder op (compareText a b)))
  | .bool a, .bool b => .ok (.bool (decideOrder op (compareBool a b)))
  | a, _ => .error (.undefined op a.kind)

/-- A binary operator on operands that hold scalars of one kind it is defined on. -/
def applyBinary (op : Operator) (l r : Value) : Except Fault Value :=
  if op.isRelational then relation op l r
  else
    match op, l, r with
    | op, .int a, .int b => intArith op a b
    | op, .float a, .float b => floatArith op a b
    | .and, .bool a, .bool b => .ok (.bool (a && b))
    | .or, .bool a, .bool b => .ok (.bool (a || b))
    | op, l, _ => .error (.undefined op l.kind)

/-- Applies a binary operator. Kinds are checked first and must be equal; an operand that holds
nothing gives a result that holds nothing. -/
def binary (op : Operator) (l r : Value) : Except Fault Value :=
  if !op.isBinary then .error (.notBinary op)
  else if l.kind ≠ r.kind then .error (.operands l.kind op r.kind)
  else if !op.admits l.kind then .error (.undefined op l.kind)
  else if !(l.isInit && r.isInit) then .ok (.uninit (op.resultKind l.kind))
  else applyBinary op l r

/-- A unary operator on an operand that holds a scalar of a kind it is defined on. -/
def applyUnary (op : Operator) : Value → Except Fault Value
  | .int n => .ok (.int (-n))
  | .float x => .ok (.float (-x))
  | .bool b => .ok (.bool !b)
  | v => .error (.undefined op v.kind)

/-- Applies negation or logical not. -/
def unary (op : Operator) (v : Value) : Except Fault Value :=
  if !op.isUnary then .error (.notUnary op)
  else if !op.admits v.kind then .error (.undefined op v.kind)
  else if !v.isInit then .ok (.uninit (op.resultKind v.kind))
  else applyUnary op v

@[simp] theorem kind_uninit (k : Kind) : (uninit k).kind = k := rfl
@[simp] theorem kind_int (n : Int32) : (int n).kind = .integer := rfl
@[simp] theorem kind_float (x : Float32) : (float x).kind = .float := rfl
@[simp] theorem kind_char (c : Int32) : (char c).kind = .char := rfl
@[simp] theorem kind_str (s : String) : (str s).kind = .string := rfl
@[simp] theorem kind_bool (b : Bool) : (bool b).kind = .boolean := rfl

@[simp] theorem isInit_uninit (k : Kind) : (uninit k).isInit = false := rfl

/-- A value without a scalar is determined by its kind. -/
theorem eq_uninit_of_not_isInit {v : Value} (h : v.isInit = false) : v = .uninit v.kind := by
  cases v <;> simp_all [isInit]

end Value

end Jasm

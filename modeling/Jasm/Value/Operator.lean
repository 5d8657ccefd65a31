import Jasm.Value.Kind

/-!
# Scalar operators

Operators are stored as one byte like kinds. What an operator accepts is a table: the family of
kinds it is defined on and whether its result is a truth value or of the operands' kind.
-/

namespace Jasm

/-- A scalar operator, or what stands where one should. -/
inductive Operator where
  | invalid
  | add
  | sub
  | mul
  | div
  | rem
  | less
  | greater
  | lessEq
  | greaterEq
  | eq
  | notEq
  | and
  | or
  | neg
  | not
  /-- A byte that names no operator, counted from the first such byte. -/
  | other (index : Fin 240)
  deriving DecidableEq, Repr, Inhabited

namespace Operator

/-- The operators that have a token, in the order of their bytes. -/
def all : List Operator :=
  [.add, .sub, .mul, .div, .rem, .less, .greater, .lessEq, .greaterEq, .eq, .notEq, .and, .or,
    .neg, .not]

/-- The operator of a byte; only the low eight bits count. -/
def ofCode (n : Nat) : Operator :=
  match n % 256 with
  | 0 => .invalid
  | k + 1 =>
    match all[k]? with
    | some op => op
    | none => .other (Fin.ofNat 240 (k - 15))

def code : Operator → Nat
  | .invalid => 0
  | .add => 1
  | .sub => 2
  | .mul => 3
  | .div => 4
  | .rem => 5
  | .less => 6
  | .greater => 7
  | .lessEq => 8
  | .greaterEq => 9
  | .eq => 10
  | .notEq => 11
  | .and => 12
  | .or => 13
  | .neg => 14
  | .not => 15
  | .other i => 16 + i

def text : Operator → String
  | .invalid => "<invalid>"
  | .add => "+"
  | .sub => "-"
  | .mul => "*"
  | .div => "/"
  | .rem => "%"
  | .less => "<"
  | .greater => ">"
  | .lessEq => "<="
  | .greaterEq => ">="
  | .eq => "=="
  | .notEq => "!="
  | .and => "&&"
  | .or => "||"
  | .neg => "neg"
  | .not => "!"
  | .other i => s!"Op({16 + i.val})"

/-- Reads a token. Unary minus is spelled `neg`. -/
def parse? (s : String) : Option Operator := all.find? (·.text = s)

def isRelational : Operator → Bool
  | .less | .greater | .lessEq | .greaterEq | .eq | .notEq => true
  | _ => false

def isArithmetic : Operator → Bool
  | .add | .sub | .mul | .div | .rem => true
  | _ => false

def isLogical : Operator → Bool
  | .and | .or => true
  | _ => false

def isUnary : Operator → Bool
  | .neg | .not => true
  | _ => false

def isBinary (op : Operator) : Bool := op.isArithmetic || op.isRelational || op.isLogical

/-- Whether the operator is defined on operands of a kind. -/
def admits : Operator → Kind → Bool
  | .add, k | .sub, k | .mul, k | .div, k | .neg, k => k = .integer || k = .float
  | .rem, k => k = .integer
  | .less, k | .greater, k | .lessEq, k | .greaterEq, k =>
    k = .integer || k = .float || k = .boolean
  | .eq, k | .notEq, k => k.isScalar
  | .and, k | .or, k | .not, k => k = .boolean
  | .invalid, _ | .other _, _ => false

/-- The kind of the result on operands of kind `k`. -/
def resultKind (op : Operator) (k : Kind) : Kind :=
  if op.isRelational || op.isLogical then .boolean else k

end Operator

end Jasm

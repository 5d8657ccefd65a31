import Jasm.Text.Blank
import Jasm.Text.Quoted

/-!
# Scalar kinds

The kinds a scalar can be declared with. A kind is stored as one byte, so besides the five scalar
kinds and "no kind" there are bytes that name nothing; they are kept apart because messages show
them.
-/

namespace Jasm

/-- The kind of a scalar, or what stands where a kind should. -/
inductive Kind where
  | none
  | integer
  | float
  | char
  | string
  | boolean
  /-- A byte that names no kind, counted from the first such byte. -/
  | other (index : Fin 250)
  deriving DecidableEq, Repr, Inhabited

namespace Kind

def code : Kind → Nat
  | .none => 0
  | .integer => 1
  | .float => 2
  | .char => 3
  | .string => 4
  | .boolean => 5
  | .other i => 6 + i

/-- The kind of a byte; only the low eight bits count. -/
def ofCode (n : Nat) : Kind :=
  match n % 256 with
  | 0 => .none
  | 1 => .integer
  | 2 => .float
  | 3 => .char
  | 4 => .string
  | 5 => .boolean
  | k + 6 => .other (Fin.ofNat 250 k)

def text : Kind → String
  | .none => "None"
  | .integer => "Integer"
  | .float => "Float"
  | .char => "Char"
  | .string => "String"
  | .boolean => "Boolean"
  | .other i => s!"Kind({6 + i.val})"

/-- Whether this is one of the five scalar kinds. -/
def isScalar : Kind → Bool
  | .integer | .float | .char | .string | .boolean => true
  | .none | .other _ => false

/-- Reads a kind as a unit description names it. -/
def parse? (s : String) : Option Kind :=
  match Text.keyword s with
  | "int" | "integer" => some .integer
  | "float" | "real" => some .float
  | "char" => some .char
  | "string" | "str" => some .string
  | "bool" | "boolean" => some .boolean
  | _ => Option.none

/-- Reads a kind, or says what was wrong. -/
def parse (s : String) : Except String Kind :=
  match parse? s with
  | some k => .ok k
  | .none => .error s!"unknown scalar kind {Text.quoted s} (expected int|float|char|string|bool)"

@[simp] theorem ofCode_code (k : Kind) : ofCode k.code = k := by
  cases k with
  | other i =>
    have hi := i.isLt
    have hmod : (6 + i.val) % 256 = i.val + 6 := by omega
    simp only [ofCode, code, hmod, other.injEq]
    ext
    simp [Fin.ofNat]
  | _ => rfl

end Kind

end Jasm

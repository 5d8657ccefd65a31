import Jasm.Value.Scalar

/-!
# Literals

What a description can hold in the place of a literal, before it is narrowed to a scalar. Integers
come with 64 bits and must fit 32; numbers with a point are narrowed by rounding but must not
overflow.
-/

namespace Jasm

/-- A literal as it was read. -/
inductive Literal where
  | integer (n : Int)
  | double (x : Float)
  | single (x : Float32)
  | boolean (b : Bool)
  | text (s : String)
  | missing
  /-- Something that is no scalar, by the name messages call it. -/
  | unsupported (type : String)
  deriving Inhabited

namespace Literal

/-- Why a literal gives no scalar. -/
inductive Fault where
  | integerRange (n : Int)
  | floatRange (x : Float)
  | missing
  | unsupported (type : String)

def Fault.message : Fault → String
  | .integerRange n => s!"integer literal {n} out of range: out of range"
  | .floatRange x => s!"float literal {x.shortestText} out of range"
  | .missing => "uninitialized value: missing literal"
  | .unsupported type => s!"unsupported literal {type}"

/-- The largest finite number of 32 bits. -/
def maxSingle : Float := (Float32.ofBits 0x7f7fffff).toFloat

/-- Narrows a literal to a scalar. -/
def toValue : Literal → Except Fault Value
  | .integer n =>
    if -0x80000000 ≤ n ∧ n < 0x80000000 then .ok (.int (Int32.ofInt n)) else .error
      (.integerRange n)
  | .double x =>
    if x.abs > maxSingle && !x.isInf then .error (.floatRange x) else .ok (.float x.toFloat32)
  | .single x => .ok (.float x)
  | .boolean b => .ok (.bool b)
  | .text s => .ok (.str s)
  | .missing => .error .missing
  | .unsupported type => .error (.unsupported type)

end Literal

end Jasm

import Jasm.Text.Normal
import Jasm.Value.Scalar

/-!
# Stack-machine assembly

The lines of an assembly program as data. A program is one class with static fields and methods;
integers and truth values are both kept as whole numbers of 32 bits, so every stored thing has the
type `int`. Text is only made when a program is written out.
-/

namespace Jasm.Assembly

/-- The name of a branch target. -/
abbrev Label := String

/-- When a conditional branch is taken, by how the number on the stack compares with zero. -/
inductive Cond where
  | lt
  | gt
  | eq
  | le
  | ge
  | ne
  deriving DecidableEq, Repr

namespace Cond

def mnemonic : Cond → String
  | .lt => "iflt"
  | .gt => "ifgt"
  | .eq => "ifeq"
  | .le => "ifle"
  | .ge => "ifge"
  | .ne => "ifne"

/-- The conditions in the order of their numbers, which start at one. -/
def all : List Cond := [.lt, .gt, .eq, .le, .ge, .ne]

def ofCode? : Nat → Option Cond
  | 0 => none
  | n + 1 => all[n]?

/-- The branch that is taken when a comparison holds of the difference of its operands. -/
def ofOperator? : Operator → Option Cond
  | .less => some .lt
  | .greater => some .gt
  | .eq => some .eq
  | .lessEq => some .le
  | .greaterEq => some .ge
  | .notEq => some .ne
  | _ => none

end Cond

/-- An operation on the numbers on top of the stack. -/
inductive StackOp where
  | add
  | sub
  | mul
  | div
  | rem
  | neg
  | and
  | or
  | xor
  deriving DecidableEq, Repr

namespace StackOp

def mnemonic : StackOp → String
  | .add => "iadd"
  | .sub => "isub"
  | .mul => "imul"
  | .div => "idiv"
  | .rem => "irem"
  | .neg => "ineg"
  | .and => "iand"
  | .or => "ior"
  | .xor => "ixor"

/-- The operation an operator is carried out by, where there is one. -/
def ofOperator? : Operator → Option StackOp
  | .add => some .add
  | .sub => some .sub
  | .mul => some .mul
  | .div => some .div
  | .rem => some .rem
  | .neg => some .neg
  | .and => some .and
  | .or => some .or
  | _ => none

end StackOp

/-- What a print instruction takes from the stack. -/
inductive Printed where
  | int
  | boolean
  | string
  | char
  deriving DecidableEq, Repr

namespace Printed

def typeName : Printed → String
  | .int => "int"
  | .boolean => "boolean"
  | .string => "java.lang.String"
  | .char => "char"

def ofKind? : Kind → Option Printed
  | .integer => some .int
  | .boolean => some .boolean
  | .string => some .string
  | .char => some .char
  | _ => none

end Printed

/-- One instruction of a method body. -/
inductive Instruction where
  | loadGlobal (id : String)
  | storeGlobal (id : String)
  | loadLocal (slot : Nat)
  | storeLocal (slot : Nat)
  /-- A whole number that fits two bytes. -/
  | pushShort (n : Int32)
  /-- Any other whole number. -/
  | pushInt (n : Int32)
  | pushString (s : String)
  | pushBool (b : Bool)
  | pop
  | op (o : StackOp)
  | branch (c : Cond) (target : Label)
  | goto (target : Label)
  | label (l : Label)
  | invoke (name : String) (arity : Nat) (returns : Bool)
  /-- Pushes the stream that prints go to. -/
  | pushStream
  | print (what : Printed) (newline : Bool)
  | ret
  | retValue
  deriving DecidableEq, Repr

/-- One line of a program. -/
inductive Line where
  | openClass
  | close
  | field (id : String) (init : Option Int32)
  | method (name : String) (arity : Nat) (returns : Bool)
  | entryPoint
  | maxStack (n : Int)
  | maxLocals (n : Int)
  | openBody
  | instr (i : Instruction)
  deriving DecidableEq, Repr

/-! ## Text -/

def constantChar (c : Char) : List Char :=
  if c = '"' then ['\\', '"']
  else if c = '\\' then ['\\', '\\']
  else if c = '\n' then ['\\', 'n']
  else if c = '\t' then ['\\', 't']
  else if c = '\r' then ['\\', 'r']
  else if c.toNat < 0x20 then '\\' :: 'u' :: '0' :: '0' :: Text.hexDigits 2 c.toNat
  else [c]

/-- A string constant: the text in composed normal form between double quotes. -/
def constantText (s : String) : String :=
  String.ofList ('"' :: (Text.normalForm s).toList.flatMap constantChar ++ ['"'])

def returnType (returns : Bool) : String := if returns then "int" else "void"

def paramTypes (arity : Nat) : String :=
  "(" ++ ", ".intercalate (List.replicate arity "int") ++ ")"

/-- An instruction in the class it stands in. -/
def Instruction.text (cls : String) : Instruction → String
  | .loadGlobal id => s!"getstatic int {cls}.{id}"
  | .storeGlobal id => s!"putstatic int {cls}.{id}"
  | .loadLocal slot => s!"iload {slot}"
  | .storeLocal slot => s!"istore {slot}"
  | .pushShort n => s!"sipush {n.toInt}"
  | .pushInt n => s!"ldc {n.toInt}"
  | .pushString s => "ldc " ++ constantText s
  | .pushBool b => if b then "iconst_1" else "iconst_0"
  | .pop => "pop"
  | .op o => o.mnemonic
  | .branch c target => s!"{c.mnemonic} {target}"
  | .goto target => s!"goto {target}"
  | .label l => s!"{l}:"
  | .invoke name arity returns =>
    s!"invokestatic {returnType returns} {cls}.{name}{paramTypes arity}"
  | .pushStream => "getstatic java.io.PrintStream java.lang.System.out"
  | .print what newline =>
    let name := if newline then "println" else "print"
    s!"invokevirtual void java.io.PrintStream.{name}({what.typeName})"
  | .ret => "return"
  | .retValue => "ireturn"

/-- A line in the class it stands in, without its indentation. -/
def Line.text (cls : String) : Line → String
  | .openClass => s!"class {cls} \x7b"
  | .close => "\x7d"
  | .field id none => s!"field static int {id}"
  | .field id (some n) => s!"field static int {id} = {n.toInt}"
  | .method name arity returns =>
    s!"method public static {returnType returns} {name}{paramTypes arity}"
  | .entryPoint => "method public static void main(java.lang.String[])"
  | .maxStack n => s!"max_stack {n}"
  | .maxLocals n => s!"max_locals {n}"
  | .openBody => "\x7b"
  | .instr i => i.text cls

/-- Whether control never goes on to the next instruction. -/
def Instruction.isTerminal : Instruction → Bool
  | .goto _ | .ret | .retValue => true
  | _ => false

end Jasm.Assembly

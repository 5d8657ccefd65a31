import Jasm.Draft.Basic
import Jasm.Symbol

/-!
# Programs

A program is a unit description whose every part is there: each statement has the fields it needs,
kinds and operators are known, literals have values. Names are not resolved and nothing is typed
yet.
-/

namespace Jasm.Program

inductive Expr where
  | literal (v : Value)
  | ref (name : String)
  | unary (op : Operator) (e : Expr)
  | binary (op : Operator) (l r : Expr)
  | call (name : String) (args : List Expr)

/-- A declaration, global or local. -/
inductive Declaration where
  | variable (name : String) (kind : Kind) (init : Option Expr)
  /-- A constant takes its kind from its value; one that is written down has to agree. -/
  | constant (name : String) (kind : Option Kind) (init : Expr)
  | array (name : String) (kind : Kind) (length : Nat) (values : List Value)

def Declaration.tag : Declaration → String
  | .variable .. => "var"
  | .constant .. => "const"
  | .array .. => "array"

inductive Stmt where
  | declare (pos : Position) (d : Declaration)
  | assign (pos : Position) (name : String) (e : Expr)
  | print (pos : Position) (newline : Bool) (e : Expr)
  | branch (pos : Position) (cond : Expr) (thenBody elseBody : List Stmt)
  | loop (pos : Position) (cond : Expr) (body : List Stmt)
  | ret (pos : Position) (e : Option Expr)
  | call (pos : Position) (name : String) (args : List Expr)
  | block (pos : Position) (body : List Stmt)

namespace Stmt

def pos : Stmt → Position
  | .declare p _ | .assign p _ _ | .print p _ _ | .branch p _ _ _ | .loop p _ _ | .ret p _
  | .call p _ _ | .block p _ => p

/-- The word that a description uses for the statement. -/
def tag : Stmt → String
  | .declare _ d => d.tag
  | .assign .. => "assign"
  | .print _ newline _ => if newline then "println" else "print"
  | .branch .. => "if"
  | .loop .. => "while"
  | .ret .. => "return"
  | .call .. => "call"
  | .block .. => "block"

mutual

/-- Whether a statement always ends in a return. -/
def returns : Stmt → Bool
  | .ret .. => true
  | .block _ body => lastReturns body
  | .branch _ _ thenBody elseBody => lastReturns thenBody && lastReturns elseBody
  | _ => false

/-- Whether the last statement of a list always ends in a return. -/
def lastReturns : List Stmt → Bool
  | [] => false
  | [s] => s.returns
  | _ :: rest => lastReturns rest

end

end Stmt

structure Function where
  pos : Position
  name : String
  params : List (String × Kind)
  /-- The kind of the result; `none` if there is none. -/
  ret : Kind
  body : List Stmt

/-- What a call of the function needs to know. -/
def Function.signature (f : Function) : Signature := ⟨f.name, f.params.map (·.2), f.ret⟩

end Jasm.Program

namespace Jasm

/-- A program. -/
structure Program where
  name : String
  globals : List (Position × Program.Declaration)
  functions : List Program.Function
  main : List Program.Stmt
  mainPos : Position

end Jasm

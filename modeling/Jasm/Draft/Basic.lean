import Jasm.Diagnostic.Basic
import Jasm.Text.Quoted
import Jasm.Value.Literal

/-!
# Unit descriptions

A unit description holds a program the way a front end hands it over: its name, declarations of
global names, functions and a main body. Statements and expressions are tagged records, and which
of their fields are meant depends on the tag. Nothing here is checked; a missing text is empty.
-/

namespace Jasm

/-- The place of a statement in its unit: its number in program order, and the way to it. -/
structure Position where
  index : Nat := 0
  path : String := ""
  deriving DecidableEq, Repr

namespace Draft

/-- An expression: one literal, a name, an operator with its operands, or a call. -/
structure Expr where
  int : Option Int := none
  float : Option Float := none
  char : Option String := none
  str : Option String := none
  bool : Option Bool := none
  ref : String := ""
  op : String := ""
  left : Option Expr := none
  right : Option Expr := none
  call : String := ""
  args : List Expr := []

/-- What an expression is. -/
inductive ExprForm where
  | invalid
  | literal
  | ref
  | op
  | call
  deriving DecidableEq, Repr

def ExprForm.text : ExprForm → String
  | .invalid => "invalid"
  | .literal => "literal"
  | .ref => "ref"
  | .op => "op"
  | .call => "call"

/-- The forms an expression sets, one for each field that is set. -/
def Expr.forms (e : Expr) : List ExprForm :=
  [(e.int.isSome, .literal), (e.float.isSome, .literal), (e.char.isSome, .literal),
    (e.str.isSome, .literal), (e.bool.isSome, .literal), (e.ref ≠ "", .ref), (e.op ≠ "", .op),
    (e.call ≠ "", .call)].filterMap fun (isSet, form) => if isSet then some form else none

/-- The form of an expression; it has to set exactly one. -/
def Expr.form (e : Expr) : ExprForm :=
  match e.forms with
  | [form] => form
  | _ => .invalid

/-- Why an expression is no literal. -/
inductive LiteralFault where
  | oneCharacter (text : String)
  | bad (fault : Literal.Fault)
  | notLiteral

def LiteralFault.message : LiteralFault → String
  | .oneCharacter text =>
    s!"bad literal: char literal {Text.quoted text} must hold exactly one character"
  | .bad fault => s!"bad literal: {fault.message}"
  | .notLiteral => "malformed unit: not a literal"

/-- The literal fields other than characters, in the order in which they count. -/
def Expr.plainLiteral? (e : Expr) : Option Literal :=
  (e.int.map .integer).or ((e.float.map .double).or ((e.str.map .text).or (e.bool.map .boolean)))

def Expr.literal (e : Expr) : Except LiteralFault Value :=
  match e.plainLiteral?, e.char with
  | some l, _ => l.toValue.mapError .bad
  | none, some text =>
    match text.toList with
    | [c] => .ok (.char (.ofNat c.toNat))
    | _ => .error (.oneCharacter text)
  | none, none => .error .notLiteral

/-- A statement. -/
structure Stmt where
  tag : String := ""
  /-- The name that is declared, assigned or called. -/
  name : String := ""
  kind : String := ""
  length : Int := 0
  /-- The first elements of an array. -/
  values : List Literal := []
  value : Option Expr := none
  args : List Expr := []
  cond : Option Expr := none
  thenBody : List Stmt := []
  elseBody : List Stmt := []
  body : List Stmt := []
  pos : Position := {}

structure Param where
  name : String := ""
  kind : String := ""

structure Function where
  name : String := ""
  params : List Param := []
  /-- The kind of the result; empty if there is none. -/
  returns : String := ""
  body : List Stmt := []
  pos : Position := {}

end Draft

/-- A unit description. -/
structure Draft where
  program : String := ""
  globals : List Draft.Stmt := []
  functions : List Draft.Function := []
  main : List Draft.Stmt := []
  mainPos : Position := {}
  path : String := ""
  source : ByteArray := .empty
  /-- The keys of the description that mean nothing, in order. -/
  unknown : List String := []

namespace Draft

/-- The name shown for a unit: that of its program, or else its path. -/
def name (d : Draft) : String := if d.program = "" then d.path else d.program

end Draft

def Position.place (p : Position) (file : String) : Place := ⟨file, p.index, p.path⟩

/-! ## Numbering

Statements, functions and the main body are numbered in program order: the globals, each function in
front of its body, then main in front of its body, and a statement in front of the statements inside
it.
-/

namespace Draft

mutual

/-- Numbers a statement and all inside it from `n` on; gives the next number. -/
def Stmt.locate (path : String) (n : Nat) : Stmt → Stmt × Nat
  | ⟨tag, name, kind, length, values, value, args, cond, thenBody, elseBody, body, _⟩ =>
    let (thenBody, k) := locateAll (path ++ ".then") 0 (n + 1) thenBody
    let (elseBody, k) := locateAll (path ++ ".else") 0 k elseBody
    let (body, k) := locateAll (path ++ ".body") 0 k body
    (⟨tag, name, kind, length, values, value, args, cond, thenBody, elseBody, body, ⟨n, path⟩⟩, k)

/-- Numbers the statements of a list; `i` is the place of the first one in it. -/
def locateAll (stem : String) (i n : Nat) : List Stmt → List Stmt × Nat
  | [] => ([], n)
  | s :: rest =>
    let (s, k) := s.locate s!"{stem}[{i}]" n
    let (rest, k) := locateAll stem (i + 1) k rest
    (s :: rest, k)

end

def locateFunctions (n : Nat) : List Function → List Function × Nat
  | [] => ([], n)
  | f :: rest =>
    let (body, k) := locateAll s!"fn {f.name}/body" 0 (n + 1) f.body
    let (rest, k) := locateFunctions k rest
    ({ f with body := body, pos := ⟨n, s!"fn {f.name}"⟩ } :: rest, k)

def locate (d : Draft) : Draft :=
  let (globals, n) := locateAll "globals" 0 0 d.globals
  let (functions, n) := locateFunctions n d.functions
  let (main, _) := locateAll "main/body" 0 (n + 1) d.main
  { d with globals := globals, functions := functions, main := main, mainPos := ⟨n, "main"⟩ }

end Draft

end Jasm

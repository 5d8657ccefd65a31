import Jasm.Diagnostic.Reporter
import Jasm.Program.Basic

/-!
# Checking unit descriptions

Checking a unit description reports everything that is missing or unknown in it. If there is no
error the description is a program. What was found is listed in program order; a fault in one part
does not hide those in others.
-/

namespace Jasm

/-- Something wrong at a position of a unit. -/
structure Problem where
  code : Code
  pos : Position
  message : String

/-- The outcome of a check: all problems, and the result exactly if there are none. -/
structure Checked (α : Type) where
  problems : List Problem
  result : Option α
  fair : result = none ↔ problems ≠ []

namespace Checked

variable {α β : Type}

def ok (a : α) : Checked α := ⟨[], some a, by simp⟩

def problem (code : Code) (pos : Position) (message : String) : Checked α :=
  ⟨[⟨code, pos, message⟩], none, by simp⟩

/-- Both parts are checked, whatever the first one gives. -/
protected def seq (f : Checked (α → β)) (x : Unit → Checked α) : Checked β :=
  let y := x ()
  { problems := f.problems ++ y.problems
    result := f.result.bind fun g => y.result.map g
    fair := by
      have hf := f.fair
      have hy := y.fair
      cases hr : f.result <;> cases hs : y.result <;> simp_all }

instance : Applicative Checked where
  pure := ok
  seq := Checked.seq

end Checked

namespace Draft

open Checked (ok problem)

def checkKind (pos : Position) (name : String) : Checked Kind :=
  match Kind.parse? name with
  | some k => ok k
  | none => problem .unitUnknownKind pos s!"unknown kind {Text.quoted name}"

/-- A field that a statement needs. -/
def missing {α : Type} (s : Stmt) (field : String) : Checked α :=
  problem .unitMissingField s.pos s!"{s.tag} statement needs {Text.quoted field}"

def checkName (s : Stmt) : Checked String := if s.name = "" then missing s "name" else ok s.name

def checkDeclaredKind (s : Stmt) : Checked Kind :=
  if s.kind = "" then missing s "kind" else checkKind s.pos s.kind

mutual

def checkExpr (pos : Position) : Expr → Checked Program.Expr
  | e@⟨_, _, _, _, _, ref, op, left, right, call, args⟩ =>
    match e.form with
    | .literal =>
      match e.literal with
      | .ok v => ok (.literal v)
      | .error f => problem .unitBadLiteral pos f.message
    | .ref => ok (.ref ref)
    | .op =>
      match Operator.parse? op with
      | none => problem .unitUnknownOp pos s!"unknown operator {Text.quoted op}"
      | some op =>
        match left with
        | none => problem .unitMissingField pos s!"operator {op.text} needs operand \"l\""
        | some l =>
          let left := checkExpr pos l
          match op.isUnary, right with
          | true, none => .unary op <$> left
          | true, some _ =>
            (fun _ e => e) <$> left <*>
              problem .unitMalformed pos s!"unary operator {op.text} takes no \"r\" operand"
          | false, none =>
            (fun _ e => e) <$> left <*>
              problem .unitMissingField pos s!"operator {op.text} needs operand \"r\""
          | false, some r => .binary op <$> left <*> checkExpr pos r
    | .call => .call call <$> checkExprs pos args
    | .invalid =>
      problem .unitMalformed pos
        "expression must set exactly one of int, float, char, str, bool, ref, op, call"

def checkExprs (pos : Position) : List Expr → Checked (List Program.Expr)
  | [] => ok []
  | e :: rest => List.cons <$> checkExpr pos e <*> checkExprs pos rest

end

/-- An expression that a statement may leave out. -/
def checkOptional (pos : Position) : Option Expr → Checked (Option Program.Expr)
  | none => ok none
  | some e => some <$> checkExpr pos e

/-- An expression that a statement needs. -/
def checkNeeded (s : Stmt) (field : String) : Option Expr → Checked Program.Expr
  | none => missing s field
  | some e => checkExpr s.pos e

/-- The length of an array with some values given. -/
def checkLength (s : Stmt) : Checked Nat :=
  if s.length ≤ 0 then
    problem .unitBadArrayShape s.pos s!"array {Text.quoted s.name} needs a positive length"
  else if s.length < s.values.length then
    problem .unitBadArrayShape s.pos
      s!"array {Text.quoted s.name} has {s.values.length} initializers for length {s.length}"
  else ok s.length.toNat

def checkValues (s : Stmt) : List Literal → Checked (List Value)
  | [] => ok []
  | l :: rest =>
    let first : Checked Value := match l.toValue with
      | .ok v => ok v
      | .error f =>
        problem .unitBadLiteral s.pos s!"array {Text.quoted s.name}: {f.message}"
    List.cons <$> first <*> checkValues s rest

/-- The declaration that a statement makes, if its tag is one of a declaration. -/
def checkDeclaration? (s : Stmt) : Option (Checked Program.Declaration) :=
  match s.tag with
  | "var" =>
    some (.variable <$> checkName s <*> checkDeclaredKind s <*> checkOptional s.pos s.value)
  | "const" =>
    let kind := if s.kind = "" then ok none else some <$> checkKind s.pos s.kind
    some (.constant <$> checkName s <*> kind <*> checkNeeded s "value" s.value)
  | "array" =>
    some (.array <$> checkName s <*> checkDeclaredKind s <*> checkLength s <*>
      checkValues s s.values)
  | _ => none

mutual

def checkStmt : Stmt → Checked Program.Stmt
  | s@⟨tag, _, _, _, _, value, args, cond, thenBody, elseBody, body, pos⟩ =>
    match checkDeclaration? s with
    | some d => .declare pos <$> d
    | none =>
      match tag with
      | "assign" => .assign pos <$> checkName s <*> checkNeeded s "value" value
      | "print" => .print pos false <$> checkNeeded s "value" value
      | "println" => .print pos true <$> checkNeeded s "value" value
      | "if" =>
        .branch pos <$> checkNeeded s "cond" cond <*> checkStmts thenBody <*>
          checkStmts elseBody
      | "while" => .loop pos <$> checkNeeded s "cond" cond <*> checkStmts body
      | "return" => .ret pos <$> checkOptional pos value
      | "call" => .call pos <$> checkName s <*> checkExprs pos args
      | "block" => .block pos <$> checkStmts body
      | "" => problem .unitMissingField pos "statement has no \"stmt\" tag"
      | tag => problem .unitUnknownStmt pos s!"unknown statement {Text.quoted tag}"

def checkStmts : List Stmt → Checked (List Program.Stmt)
  | [] => ok []
  | s :: rest => List.cons <$> checkStmt s <*> checkStmts rest

end

/-- Checks each item of a list with its number. -/
def checkEach {α β : Type} (f : Nat → α → Checked β) : (i : Nat) → List α → Checked (List β)
  | _, [] => ok []
  | i, a :: rest => List.cons <$> f i a <*> checkEach f (i + 1) rest

/-- Only declarations are allowed outside functions. -/
def checkGlobal (s : Stmt) : Checked (Position × Program.Declaration) :=
  match checkDeclaration? s with
  | some d => (s.pos, ·) <$> d
  | none =>
    problem .unitUnknownStmt s.pos
      s!"statement {Text.quoted s.tag} is not allowed at global scope"

def checkParam (pos : Position) (i : Nat) (p : Param) : Checked (String × Kind) :=
  let name := if p.name = "" then problem .unitMissingField pos s!"parameter {i + 1} has no name"
    else ok p.name
  Prod.mk <$> name <*> checkKind pos p.kind

/-- The name of a function; that of the entry point is taken. -/
def checkFunctionName (f : Function) : Checked String :=
  match f.name with
  | "" => problem .unitMissingField f.pos "function name is missing"
  | "main" =>
    problem .semaDuplicateSymbol f.pos "function main is reserved for the entry point"
  | name => ok name

def checkFunction (f : Function) : Checked Program.Function :=
  let returns := if f.returns = "" then ok Kind.none else checkKind f.pos f.returns
  Program.Function.mk f.pos <$> checkFunctionName f <*> checkEach (checkParam f.pos) 0 f.params <*>
    returns <*> checkStmts f.body

def check (d : Draft) : Checked Program :=
  let name := if d.program = "" then problem .unitMissingField {} "program name is missing"
    else ok d.program
  (Program.mk · · · · d.mainPos) <$> name <*> checkEach (fun _ => checkGlobal) 0 d.globals <*>
    checkEach (fun _ => checkFunction) 0 d.functions <*> checkStmts d.main

/-- A problem as a finding in the file of the unit. -/
def diagnosticOf (d : Draft) (p : Problem) : Diagnostic :=
  .error p.code (p.pos.place d.path) p.message

def unknownKeys (d : Draft) : List Diagnostic :=
  d.unknown.map fun key => .warning .unitMalformed ⟨d.path, 0, ""⟩ s!"unknown key {key} ignored"

/-- Reports all findings of the check; gives the program unless there was an error. -/
def validate (d : Draft) (r : Reporter) : Option Program × Reporter :=
  let checked := d.check
  (checked.result, r.reportAll (d.unknownKeys ++ checked.problems.map d.diagnosticOf))

end Draft

end Jasm

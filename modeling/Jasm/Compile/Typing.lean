import Jasm.Compile.State

/-!
# Typing

Typing an expression resolves its names, checks kinds and computes every part whose value is known:
literals, constants, and operators on such parts. The result is a tree that holds all that is needed
to write the expression, so that writing it can no longer fail for reasons of the program.
-/

namespace Jasm.Compile

/-- An expression whose names are resolved and whose known parts are computed. -/
inductive Typed where
  | constant (v : Value)
  | variable (name : String) (kind : Kind) (location : Location)
  | unary (op : Operator) (kind : Kind) (e : Typed)
  | binary (op : Operator) (kind : Kind) (l r : Typed)
  | call (function : Signature) (args : List Typed)

namespace Typed

/-- What is known of the value: all of it, or its kind. -/
def static : Typed → Value
  | .constant v => v
  | .variable _ kind _ | .unary _ kind _ | .binary _ kind _ _ => .uninit kind
  | .call f _ => .uninit f.ret

def kind (t : Typed) : Kind := t.static.kind

/-- A tree with a result that may be known. -/
def folded (result : Value) (unfolded : Kind → Typed) : Typed :=
  if result.isInit then .constant result else unfolded result.kind

end Typed

namespace Walk

variable (cfg : Config)

/-- Reports why an operator cannot be applied. -/
def valueError (pos : Position) (f : Value.Fault) : Walk Unit :=
  if f.isMismatch then error cfg .semaTypeMismatch pos f.message
  else error cfg .semaDivisionByZero pos "constant expression divides by zero"

def typeRef (pos : Position) (name : String) : Walk (Option Typed) := do
  match ← find cfg pos name with
  | none => return none
  | some (depth, e) =>
    match e.item with
    | .constant _ v => return some (.constant v)
    | .variable _ v =>
      let c ← get
      if !c.assigned.contains (depth, name) then
        warning cfg .semaUninitRead pos
          s!"variable {Text.quoted name} is read before it is assigned"
      return some (.variable name v.kind (c.location depth e))
    | .function _ =>
      error cfg .semaNotAddressable pos s!"function {Text.quoted name} used as a value"
      return none
    | s =>
      error cfg .semaNotAddressable pos
        s!"{s.form.text} {Text.quoted name} has no scalar storage"
      return none

def findFunction (pos : Position) (name : String) : Walk (Option Signature) := do
  match ← find cfg pos name with
  | none => return none
  | some (_, e) =>
    match e.item with
    | .function f => return some f
    | s =>
      error cfg .semaNotCallable pos s!"{s.form.text} {Text.quoted name} is not callable"
      return none

def checkArguments (pos : Position) (f : Signature) (args : List Typed) : Walk Bool := do
  if args.length ≠ f.arity then
    error cfg .semaArityMismatch pos
      s!"{Text.quoted f.name} takes {f.arity} arguments, got {args.length}"
    return false
  match f.checkKinds (args.map Typed.kind) with
  | .ok _ => return true
  | .error fault =>
    symbolError cfg pos fault
    return false

mutual

/-- Types an expression; reports what is wrong with it. -/
def typeExpr (pos : Position) : Program.Expr → Walk (Option Typed)
  | .literal v => return some (.constant v)
  | .ref name => typeRef cfg pos name
  | .unary op e => do
    match ← typeExpr pos e with
    | none => return none
    | some t =>
      match Value.unary op t.static with
      | .ok v => return some (.folded v (.unary op · t))
      | .error f =>
        valueError cfg pos f
        return none
  | .binary op l r => do
    match ← typeExpr pos l with
    | none => return none
    | some tl =>
      match ← typeExpr pos r with
      | none => return none
      | some tr =>
        match Value.binary op tl.static tr.static with
        | .ok v => return some (.folded v (.binary op · tl tr))
        | .error f =>
          valueError cfg pos f
          return none
  | .call name args => do
    match ← findFunction cfg pos name with
    | none => return none
    | some f =>
      match ← typeArgs pos args with
      | none => return none
      | some typed =>
        if !(← checkArguments cfg pos f typed) then return none
        if f.result?.isNone then
          error cfg .semaTypeMismatch pos s!"function {Text.quoted f.name} returns no value"
          return none
        return some (.call f typed)

/-- Types the arguments of a call, all of them even if some are wrong. -/
def typeArgs (pos : Position) : List Program.Expr → Walk (Option (List Typed))
  | [] => return some []
  | e :: rest => do
    let first ← typeExpr pos e
    let others ← typeArgs pos rest
    return first.bind fun t => others.map (t :: ·)

end

/-- Types a call, whatever its function returns. -/
def typeCall (pos : Position) (name : String) (args : List Program.Expr) :
    Walk (Option (Signature × List Typed)) := do
  match ← findFunction cfg pos name with
  | none => return none
  | some f =>
    match ← typeArgs cfg pos args with
    | none => return none
    | some typed => return if ← checkArguments cfg pos f typed then some (f, typed) else none

end Walk

/-! ## Writing typed expressions -/

mutual

/-- Writes the instructions that put the value of an expression on the operand stack. -/
def Typed.emit : Typed → Assembly.Emit Unit
  | .constant v => Assembly.Emit.loadConst v
  | .variable name _ location => Assembly.Emit.load name location
  | .unary op _ e => do
    e.emit
    Assembly.Emit.operation op
  | .binary op _ l r => do
    l.emit
    r.emit
    if op.isRelational then Assembly.Emit.relation op else Assembly.Emit.operation op
  | .call f args => do
    emitArgs args
    Assembly.Emit.invoke (some f) args.length

/-- Writes the arguments of a call from left to right. -/
def emitArgs : List Typed → Assembly.Emit Unit
  | [] => return
  | t :: rest => do
    t.emit
    emitArgs rest

end

end Jasm.Compile

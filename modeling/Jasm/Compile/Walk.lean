import Jasm.Compile.Typing

/-!
# Compiling statements

Each statement is typed first and written only if that succeeds. Scopes follow the nesting of
statements: whatever happens inside a statement, its scopes are closed behind it.
-/

namespace Jasm.Compile.Walk

open Assembly (Emit)

variable (cfg : Config)

/-! ## Declarations -/

/-- Declares a global variable, which needs a value that is known or none at all. -/
def declareGlobal (pos : Position) (name : String) (kind : Kind) (init : Option Typed) :
    Walk Unit := do
  if init.any fun t => !t.static.isInit then
    error cfg .genUnsupported pos s!"global {Text.quoted name} needs a constant initializer"
    return
  if (← insert cfg pos (.newVariable name kind)).isNone then return
  markTopAssigned name
  let _ ← emit cfg pos (match init with
    | some t => Emit.declareGlobalInit name t.static
    | none => Emit.declareGlobal name kind)

/-- Stores the value on the operand stack in a variable. -/
def store (pos : Position) (name : String) : Walk Unit := do
  match ← find cfg pos name with
  | none => return
  | some (depth, e) =>
    let location := (← get).location depth e
    let _ ← emit cfg pos (Emit.store name location)

/-- Declares a local variable. Its value is computed before its name can be seen. -/
def declareLocal (pos : Position) (name : String) (kind : Kind) (init : Option Typed) :
    Walk Unit := do
  match init with
  | none =>
    let _ ← insertLocal cfg pos name kind
  | some t =>
    let _ ← emit cfg pos t.emit
    if ← insertLocal cfg pos name kind then
      markTopAssigned name
      store cfg pos name

/-- Types the first value of a variable, which has to be of its kind. The outer `none` means that
something is wrong. -/
def typeInit (pos : Position) (name : String) (kind : Kind) :
    Option Program.Expr → Walk (Option (Option Typed))
  | none => return some none
  | some e => do
    match ← typeExpr cfg pos e with
    | none => return none
    | some t =>
      if t.kind = kind then return some (some t)
      error cfg .semaTypeMismatch pos
        s!"cannot initialize {kind.text} variable {Text.quoted name} with {t.kind.text}"
      return none

def declareVariable (pos : Position) (name : String) (kind : Kind) (init : Option Program.Expr) :
    Walk Unit := do
  if !Assembly.isStorable kind then
    error cfg .genUnsupported pos
      s!"variable {Text.quoted name}: {kind.text} variables have no storage"
    return
  match ← typeInit cfg pos name kind init with
  | none => return
  | some init =>
    if (← get).stack.atGlobal then declareGlobal cfg pos name kind init
    else declareLocal cfg pos name kind init

def declareConstant (pos : Position) (name : String) (kind : Option Kind) (init : Program.Expr) :
    Walk Unit := do
  match ← typeExpr cfg pos init with
  | none => return
  | some t =>
    let v := t.static
    match kind.filter (· ≠ v.kind) with
    | some k =>
      error cfg .semaTypeMismatch pos
        (s!"constant {Text.quoted name} declared {k.text} but initialized with " ++
          s!"{v.kind.text}")
    | none =>
      if !v.isInit then
        error cfg .semaError pos s!"constant {Text.quoted name} needs a constant initializer"
      else match Symbol.newConstant name v with
        | .error f => symbolError cfg pos f
        | .ok s =>
          let _ ← insert cfg pos s

/-- Puts the first elements into an array; stops at one of the wrong kind and gives its place. -/
def fillArray (a : ArrayVar) : (i : Nat) → List Value → Except (Nat × Symbol.Fault) ArrayVar
  | _, [] => .ok a
  | i, v :: rest =>
    match a.set i v with
    | .ok a => fillArray a (i + 1) rest
    | .error f => .error (i, f)

def declareArray (pos : Position) (name : String) (kind : Kind) (length : Nat)
    (values : List Value) : Walk Unit := do
  match ArrayVar.new name kind length with
  | .error f => symbolError cfg pos f
  | .ok a =>
    allocate length
    match fillArray a 0 values with
    | .error (i, f) =>
      error cfg f.diagnosticCode pos s!"array {Text.quoted name} element {i}: {f.message}"
    | .ok a =>
      let _ ← insert cfg pos (.array a)

def declare (pos : Position) : Program.Declaration → Walk Unit
  | .variable name kind init => declareVariable cfg pos name kind init
  | .constant name kind init => declareConstant cfg pos name kind init
  | .array name kind length values => declareArray cfg pos name kind length values

/-! ## Simple statements -/

/-- The variable that an assignment means: the depth of its scope and its kind. -/
def findTarget (pos : Position) (name : String) : Walk (Option (Nat × Kind)) := do
  match ← find cfg pos name with
  | none => return none
  | some (depth, e) =>
    match e.item with
    | .variable _ v => return some (depth, v.kind)
    | .constant .. =>
      error cfg .semaAssignToConstant pos s!"cannot assign to constant {Text.quoted name}"
      return none
    | s =>
      error cfg .semaNotAddressable pos s!"cannot assign to {s.form.text} {Text.quoted name}"
      return none

def assign (pos : Position) (name : String) (e : Program.Expr) : Walk Unit := do
  let typed ← typeExpr cfg pos e
  let target ← findTarget cfg pos name
  match typed, target with
  | some t, some (depth, kind) =>
    if t.kind ≠ kind then
      error cfg .semaTypeMismatch pos
        s!"cannot assign {t.kind.text} to {kind.text} variable {Text.quoted name}"
    else
      let _ ← emit cfg pos t.emit
      markAssigned depth name
      store cfg pos name
  | _, _ => return

def print (pos : Position) (newline : Bool) (e : Program.Expr) : Walk Unit := do
  match ← typeExpr cfg pos e with
  | none => return
  | some t =>
    let _ ← emit cfg pos do
      Emit.printBegin
      t.emit
      Emit.printEnd t.kind newline

def condition (pos : Position) (e : Program.Expr) : Walk Unit := do
  match ← typeExpr cfg pos e with
  | none => return
  | some t =>
    if t.kind ≠ .boolean then
      error cfg .semaTypeMismatch pos
        s!"condition must be {Kind.boolean.text}, got {t.kind.text}"
    else
      let _ ← emit cfg pos t.emit

/-- Returns from main, which has no result. -/
def returnFromMain (pos : Position) (e : Option Program.Expr) : Walk Unit := do
  if e.isSome then error cfg .semaReturnOutsideFn pos "main cannot return a value"
  else
    let _ ← emit cfg pos Emit.returnVoid

/-- Returns from a function, with a value exactly if it has a result. -/
def returnFrom (pos : Position) (f : Signature) (e : Option Program.Expr) : Walk Unit := do
  match f.result?, e with
  | none, some _ =>
    error cfg .semaTypeMismatch pos s!"function {Text.quoted f.name} returns no value"
  | some want, none =>
    error cfg .semaMissingReturn pos s!"function {Text.quoted f.name} must return {want.text}"
  | none, none =>
    let _ ← emit cfg pos Emit.returnVoid
  | some want, some e =>
    match ← typeExpr cfg pos e with
    | none => return
    | some t =>
      if t.kind ≠ want then
        error cfg .semaTypeMismatch pos
          s!"function {Text.quoted f.name} returns {want.text}, not {t.kind.text}"
      else
        let _ ← emit cfg pos do
          t.emit
          Emit.returnValue

def ret (pos : Position) (e : Option Program.Expr) : Walk Unit := do
  match (← get).function with
  | none => returnFromMain cfg pos e
  | some f => returnFrom cfg pos f e

/-- Calls a function for its effect; a result is dropped. -/
def call (pos : Position) (name : String) (args : List Program.Expr) : Walk Unit := do
  match ← typeCall cfg pos name args with
  | none => return
  | some (f, typed) =>
    let _ ← emit cfg pos do
      emitArgs typed
      Emit.invoke (some f) typed.length
      if f.result?.isSome then Emit.pop

/-! ## Statements -/

mutual

def stmt (s : Program.Stmt) : Walk Unit := do
  modify fun c => { c with recorder := c.recorder.point .stmt s.tag s.pos.path c.span }
  match s with
  | .declare pos d => declare cfg pos d
  | .assign pos name e => assign cfg pos name e
  | .print pos newline e => print cfg pos newline e
  | .branch pos cond thenBody elseBody =>
    condition cfg pos cond
    let id ← emit cfg pos Emit.ifBegin
    enter false
    stmts thenBody
    leave cfg pos
    if !elseBody.isEmpty then
      let _ ← emit cfg pos (Emit.otherwise id)
      enter false
      stmts elseBody
      leave cfg pos
    let _ ← emit cfg pos (Emit.ifEnd id)
  | .loop pos cond body =>
    let id ← emit cfg pos Emit.loopBegin
    condition cfg pos cond
    let _ ← emit cfg pos (Emit.loopTest id)
    enter false
    stmts body
    leave cfg pos
    let _ ← emit cfg pos (Emit.loopEnd id)
  | .ret pos e => ret cfg pos e
  | .call pos name args => call cfg pos name args
  | .block pos body =>
    enter false
    stmts body
    leave cfg pos

/-- The statements of a block. A walk that is cancelled passes over the rest of them. -/
def stmts : List Program.Stmt → Walk Unit
  | [] => return
  | s :: rest => do
    if ← poll then
      stmt s
      stmts rest

end

/-! ## Programs -/

/-- Shows the open scopes under a title, if that is wanted. -/
def dumpScopes (title : String) : Walk Unit :=
  modify fun c =>
    { c with dump := c.dump.map (· ++ title ++ ":\n" ++ c.stack.dump Symbol.describe) }

/-- Declares the parameters of a function, which have a value from the start. -/
def parameters (pos : Position) : List (String × Kind) → Walk Unit
  | [] => return
  | (name, kind) :: rest => do
    if ← insertLocal cfg pos name kind then markTopAssigned name
    parameters pos rest

/-- Compiles the body of a function that is already declared. -/
def functionBody (f : Program.Function) : Walk Unit := do
  let _ ← emit cfg f.pos (Emit.beginFunction (some f.signature))
  enter true
  parameters cfg f.pos f.params
  stmts cfg f.body
  match f.signature.result? with
  | some k =>
    if !Program.Stmt.lastReturns f.body then
      error cfg .semaMissingReturn f.pos
        s!"function {Text.quoted f.name} must end with a return of {k.text}"
  | none => pure ()
  dumpScopes s!"fn {f.name}"
  leave cfg f.pos
  let _ ← emit cfg f.pos Emit.endFunction

/-- Compiles a function. It can be called in its own body. -/
def function (f : Program.Function) : Walk Unit :=
  inSpan s!"fn {f.name}" do
    if (← insert cfg f.pos (.function f.signature)).isSome then
      modify fun c => { c with function := some f.signature }
      functionBody cfg f
      modify fun c => { c with function := none }

def main (pos : Position) (body : List Program.Stmt) : Walk Unit :=
  inSpan "main" do
    let _ ← emit cfg pos Emit.beginMain
    enter true
    stmts cfg body
    dumpScopes "main"
    leave cfg pos
    let _ ← emit cfg pos Emit.endMain

def globals : List (Position × Program.Declaration) → Walk Unit
  | [] => return
  | (pos, d) :: rest => do
    declare cfg pos d
    globals rest

def functions : List Program.Function → Walk Unit
  | [] => return
  | f :: rest => do
    function cfg f
    functions rest

def program (p : Program) : Walk Unit := do
  let _ ← emit cfg {} Emit.programStart
  globals cfg p.globals
  functions cfg p.functions
  main cfg p.mainPos p.main
  let _ ← emit cfg p.mainPos Emit.programEnd

/-- Closes the assembly program, which has to be finished unless an error was reported. -/
def close (p : Program) : Walk Unit := do
  let c ← get
  let (faults, g) := c.generator.close none
  set { c with generator := g }
  match faults with
  | [] => return
  | f :: _ =>
    if !c.failed then error cfg f.diagnosticCode p.mainPos (Assembly.Fault.messages faults)

end Jasm.Compile.Walk

import Jasm.Assembly.Control
import Jasm.Diagnostic.Reporter
import Jasm.Program.Basic
import Jasm.Trace.Tracer

/-!
# The state of a walk

A program is compiled by one walk over its statements in program order. The walk keeps the open
scopes, the first frame slot of each of them, the variables that were given a value, and the
assembly program written so far. The first error stops the writing, but the walk goes on, so that
all errors are found.
-/

namespace Jasm

/-! ## Codes of faults -/

def Scope.Fault.diagnosticCode : Scope.Fault → Code
  | .missing => .semaError
  | .duplicate _ => .semaDuplicateSymbol
  | .tooManyLocals .. => .semaTooManyLocals
  | .undeclared _ => .semaUnresolvedSymbol
  | .notAddressable .. => .semaNotAddressable
  | .underflow => .semaScopeUnderflow

def Symbol.Fault.diagnosticCode : Symbol.Fault → Code
  | .uninitConstant _ | .arrayLength .. => .semaError
  | .index .. => .semaIndexOutOfRange
  | _ => .semaTypeMismatch

def Assembly.Fault.diagnosticCode (f : Assembly.Fault) : Code :=
  match f.family with
  | .labelProtocol => .genLabelProtocol
  | .sequence | .closed => .genSequence
  | .unsupported => .genUnsupported
  | .arity => .genArity
  | .output => .semaError

namespace Compile

/-- What stays the same during a walk. -/
structure Config where
  /-- The file that findings are reported for. -/
  path : String
  /-- The number of frame slots of a method. -/
  maxLocals : Int

structure State where
  stack : Stack Symbol := {}
  /-- The frame slot of the first variable of each open scope, innermost first. -/
  bases : List Nat := [0]
  /-- The variables that were given a value, each by the depth of its scope and its name. -/
  assigned : List (Nat × String) := []
  /-- The function around the current statement; none in main. -/
  function : Option Signature := none
  generator : Assembly.Generator
  reporter : Reporter
  /-- Whether an error was reported, after which nothing is written any more. -/
  failed : Bool := false
  /-- The scopes at the end of each method, if they are wanted. -/
  dump : Option String := none
  recorder : Trace.Recorder := {}
  /-- The span around the current statement. -/
  span : Nat := 0
  /-- How often the walk may still be asked to go on before it is cancelled. -/
  polls : Option Nat := none
  /-- Whether more memory was asked for than there can be. The process is gone then, and what
  follows in the walk never happens. -/
  crashed : Bool := false

/-- A step of the walk. -/
abbrev Walk := StateM State

namespace State

/-- The frame slot of the first variable of the scope at a depth. -/
def base (c : State) (depth : Nat) : Nat := c.bases.reverse.getD depth 0

/-- Where a declaration found at a depth lives in the current frame. -/
def location (c : State) (depth : Nat) (e : Entry Symbol) : Location :=
  match Stack.locationOf depth e with
  | .frame slot => .frame (c.base depth + slot)
  | l => l

def topDepth (c : State) : Nat := c.stack.depth - 1

end State

namespace Walk

variable (cfg : Config)

/-! ## Findings -/

/-- Reports an error and stops the writing. -/
def error (code : Code) (pos : Position) (message : String) : Walk Unit :=
  modify fun c =>
    { c with
        failed := true
        reporter := c.reporter.report (.error code (pos.place cfg.path) message) }

def warning (code : Code) (pos : Position) (message : String) : Walk Unit :=
  modify fun c =>
    { c with reporter := c.reporter.report (.warning code (pos.place cfg.path) message) }

def scopeError (pos : Position) (f : Scope.Fault) : Walk Unit :=
  error cfg f.diagnosticCode pos f.message

def symbolError (pos : Position) (f : Symbol.Fault) : Walk Unit :=
  error cfg f.diagnosticCode pos f.message

/-! ## Writing -/

/-- Writes a part of the assembly program, unless an error was reported before. A part that is
refused is an error. -/
def emit {α : Type} (pos : Position) (step : Assembly.Emit α) : Walk (Option α) := do
  let c ← get
  if c.failed then return none
  let (r, g) := step.run.run c.generator
  set { c with generator := g }
  match r with
  | .ok a => return some a
  | .error f =>
    error cfg f.diagnosticCode pos f.message
    return none

/-! ## Scopes -/

/-- Opens a scope. The outermost scope of a method starts a new frame; a scope inside it goes on
behind the variables declared so far. -/
def enter (method : Bool) : Walk Unit :=
  modify fun c =>
    let base := if method then 0 else c.bases.headD 0 + c.stack.top.slots
    { c with stack := c.stack.enter, bases := base :: c.bases }

def leave (pos : Position) : Walk Unit := do
  let c ← get
  match c.stack.leave with
  | .error f => scopeError cfg pos f
  | .ok stack =>
    let kept := c.assigned.filter fun v => v.1 < c.topDepth
    set { c with stack := stack, bases := c.bases.tail, assigned := kept }

/-- Declares a symbol in the innermost scope; gives its slot. -/
def insert (pos : Position) (s : Symbol) : Walk (Option (Option Nat)) := do
  let c ← get
  match c.stack.insert (some s.declaration) with
  | .error f =>
    scopeError cfg pos f
    return none
  | .ok (slot, stack) =>
    set { c with stack := stack }
    return some slot

/-- Declares a variable of the current frame, which has a limited number of slots. -/
def insertLocal (pos : Position) (name : String) (kind : Kind) : Walk Bool := do
  match ← insert cfg pos (.newVariable name kind) with
  | none => return false
  | some slot =>
    let frame := (← get).bases.headD 0 + slot.getD 0
    if frame < cfg.maxLocals then return true
    error cfg .semaTooManyLocals pos
      (s!"local {Text.quoted name} needs frame slot {frame} but max_locals is " ++
        s!"{cfg.maxLocals}")
    return false

/-- Notes that a variable of the scope at a depth has a value. -/
def markAssigned (depth : Nat) (name : String) : Walk Unit :=
  modify fun c => { c with assigned := (depth, name) :: c.assigned }

/-- Notes that the variable of this name in the innermost scope has a value. -/
def markTopAssigned (name : String) : Walk Unit := do markAssigned (← get).topDepth name

/-- What a name stands for and where; reports a name that stands for nothing. -/
def find (pos : Position) (name : String) : Walk (Option (Nat × Entry Symbol)) := do
  match (← get).stack.find name with
  | .ok found => return some found
  | .error f =>
    scopeError cfg pos f
    return none

/-- Asks for the memory of an array. -/
def allocate (length : Nat) : Walk Unit :=
  modify fun c => { c with crashed := c.crashed || ArrayVar.maxLength < length }

/-! ## Going on -/

def poll : Walk Bool := do
  let c ← get
  match c.polls with
  | none => return true
  | some 0 => return false
  | some (n + 1) =>
    set { c with polls := some n }
    return true

def inSpan (name : String) (body : Walk Unit) : Walk Unit := do
  let c ← get
  let outer := c.span
  let (span, recorder) := c.recorder.start .pass name outer
  set { c with recorder := recorder, span := span.id }
  body
  modify fun c => { c with recorder := c.recorder.finish span "", span := outer }

end Walk

end Compile

end Jasm

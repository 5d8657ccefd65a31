import Jasm.Assembly.Generator
import Jasm.Scope.Stack

/-!
# Steps of writing a program

The class and its fields, methods and their ends, loads and stores, operations, prints and jumps.
Each step first checks that its turn has come and that the target can express it, and only then
writes.
-/

namespace Jasm.Assembly

def isStorable : Kind → Bool
  | .integer | .boolean => true
  | _ => false

namespace Emit

def requireStorable (site : StorageSite) (kind : Kind) : Emit Unit := do
  if !isStorable kind then throw (.storage site kind)

/-! ## The class -/

def programStart : Emit Unit := do
  requirePhase .idle "program start"
  line .openClass
  modify fun g => { g with depth := g.depth + 1, phase := .program }

def programEnd : Emit Unit := do
  requirePhase .program "program end"
  requireLabelsDefined s!"program {(← get).className}"
  modify fun g => { g with depth := g.depth - 1 }
  line .close
  modify fun g => { g with phase := .done }

/-- A static field that starts as zero. -/
def declareGlobal (id : String) (kind : Kind) : Emit Unit := do
  requirePhase .program "field declaration"
  requireStorable (.global id) kind
  line (.field id none)

/-- A static field that starts with a constant. -/
def declareGlobalInit (id : String) (v : Value) : Emit Unit := do
  requirePhase .program "field declaration"
  requireStorable (.global id) v.kind
  match v.intImage? with
  | some n => line (.field id (some n))
  | none => throw (.initializer id)

/-! ## Loads and stores -/

def loadGlobal (id : String) : Emit Unit := do
  requirePhase .method "getstatic"
  instr (.loadGlobal id)

def storeGlobal (id : String) : Emit Unit := do
  requirePhase .method "putstatic"
  instr (.storeGlobal id)

def loadLocal (slot : Int) : Emit Unit := do
  requirePhase .method "iload"
  if slot < 0 then throw (.slot "iload" slot)
  instr (.loadLocal slot.toNat)

def storeLocal (slot : Int) : Emit Unit := do
  requirePhase .method "istore"
  if slot < 0 then throw (.slot "istore" slot)
  instr (.storeLocal slot.toNat)

def load (id : String) (loc : Location) : Emit Unit :=
  if loc.isGlobal then loadGlobal id else loadLocal loc.slot

def store (id : String) (loc : Location) : Emit Unit :=
  if loc.isGlobal then storeGlobal id else storeLocal loc.slot

/-! ## Constants -/

def fitsShort (n : Int32) : Bool := -0x8000 ≤ n.toInt && n.toInt < 0x8000

def pushNumber (n : Int32) : Instruction := if fitsShort n then .pushShort n else .pushInt n

def loadInt (n : Int32) : Emit Unit := do
  requirePhase .method "integer constant"
  instr (pushNumber n)

def loadString (s : String) : Emit Unit := do
  requirePhase .method "string constant"
  instr (.pushString s)

def loadBool (b : Bool) : Emit Unit := do
  requirePhase .method "boolean constant"
  instr (.pushBool b)

/-- Pushes a constant of any kind that can be stored or printed. -/
def loadConst (v : Value) : Emit Unit :=
  match v with
  | .uninit k => throw (.uninitConstant k)
  | .int n => loadInt n
  | .bool b => loadBool b
  | .str s => loadString s
  | .char code => loadInt code
  | .float _ => throw (.constantKind .float)

/-! ## Operations -/

def pop : Emit Unit := do
  requirePhase .method "pop"
  instr .pop

/-- Carries out an arithmetic or logical operator on what is on the stack. Logical not flips the
lowest bit. Comparisons are not done here. -/
def operation (op : Operator) : Emit Unit := do
  requirePhase .method "operation"
  if op = .not then
    instr (.pushBool true)
    instr (.op .xor)
  else
    match StackOp.ofOperator? op with
    | some o => instr (.op o)
    | none => throw (.noInstruction op)

/-! ## Prints -/

/-- Pushes the stream for a print that follows. -/
def printBegin : Emit Unit := do
  requirePhase .method "print"
  instr .pushStream
  modify fun g => { g with prints := g.prints + 1 }

/-- Prints the value of a kind that is on the stack. -/
def printEnd (kind : Kind) (newline : Bool) : Emit Unit := do
  requirePhase .method "print"
  if (← get).prints = 0 then throw .printNotBegun
  match Printed.ofKind? kind with
  | some what =>
    modify fun g => { g with prints := g.prints - 1 }
    instr (.print what newline)
  | none => throw (.printKind kind)

/-! ## Labels and jumps -/

def reserve (n : Int) : Emit (List Label) := do
  requireOpen
  if n ≤ 0 then throw (.reserveCount n)
  let (ls, t) := (← get).labels.reserve n.toNat
  modify fun g => { g with labels := t }
  return ls

/-- Defines a label that was handed out at the present place. -/
def define (l : Label) : Emit Unit := do
  requirePhase .method "label definition"
  let t := (← get).labels
  match t.get? l with
  | none => throw (.notReserved l)
  | some s =>
    if s.defined then throw (.definedTwice l)
    if !t.isUsable s then throw (.foreignLabel l)
    modify fun g => { g with labels := g.labels.define l }
    instr (.label l)

/-- A jump to a label that was handed out, with a check of what `i` is called. -/
def jump (mnemonic : String) (l : Label) (i : Instruction) : Emit Unit := do
  requirePhase .method mnemonic
  let t := (← get).labels
  match t.get? l with
  | none => throw (.jumpNotReserved mnemonic l)
  | some s =>
    if !t.isUsable s then throw (.jumpForeign mnemonic l)
    modify fun g => { g with labels := g.labels.bind l s }
    instr i

def goto (l : Label) : Emit Unit := jump "goto" l (.goto l)

def branch (c : Cond) (l : Label) : Emit Unit := jump c.mnemonic l (.branch c l)

/-- A conditional jump whose condition is given by number. -/
def branchCode (code : Nat) (l : Label) : Emit Cond := do
  match Cond.ofCode? code with
  | some c =>
    branch c l
    return c
  | none => throw (.branchCondition code)

/-! ## Methods -/

/-- Refuses signatures with a kind that cannot be stored; the first such parameter is named. -/
def requireParams (name : String) : (position : Nat) → List Kind → Emit Unit
  | _, [] => pure ()
  | position, k :: rest => do
    requireStorable (.parameter name position) k
    requireParams name (position + 1) rest

def requireSignature (f : Signature) : Emit Unit := do
  requireParams f.name 1 f.params
  match f.result? with
  | some k => requireStorable (.result f.name) k
  | none => pure ()

/-- The header of a method and its opening brace. -/
def openMethod (m : MethodFrame) (header : Line) : Emit Unit := do
  let o := (← get).options
  line header
  line (.maxStack o.maxStack)
  line (.maxLocals o.maxLocals)
  line .openBody
  modify fun g =>
    { g with depth := g.depth + 1, method := some m, phase := .method,
             labels := g.labels.enterMethod }

def beginFunction (f : Option Signature) : Emit Unit := do
  match f with
  | none => throw .headerWithoutFunction
  | some f =>
    requirePhase .program s!"method {f.name}"
    requireSignature f
    openMethod ⟨f.name, f.ret⟩ (.method f.name f.arity f.result?.isSome)

def beginMain : Emit Unit := do
  requirePhase .program "method main"
  openMethod ⟨"main", .none⟩ .entryPoint

/-- Closes a method. Methods without a result return at their end. -/
def endFunction : Emit Unit := do
  requirePhase .method "method end"
  let m ← currentMethod
  if (← get).prints ≠ 0 then throw (.endsInsidePrint m.name)
  requireLabelsDefined s!"method {m.name}"
  if m.isVoid then instr .ret
  modify fun g => { g with depth := g.depth - 1 }
  line .close
  modify fun g =>
    { g with method := none, phase := .program, labels := g.labels.leaveMethod }

def endMain : Emit Unit := do
  match (← get).method with
  | some m => if m.name ≠ "main" then throw (.notMain m.name)
  | none => pure ()
  endFunction

def returnValue : Emit Unit := do
  requirePhase .method "ireturn"
  let m ← currentMethod
  if m.isVoid then throw (.valueFromVoid m.name)
  instr .retValue

def returnVoid : Emit Unit := do
  requirePhase .method "return"
  let m ← currentMethod
  if !m.isVoid then throw (.bareReturn m.name m.ret)
  instr .ret

/-- Calls a function whose arguments are on the stack. -/
def invoke (f : Option Signature) (given : Int) : Emit Unit := do
  requirePhase .method "invokestatic"
  match f with
  | none => throw .unresolvedCall
  | some f =>
    if given ≠ f.arity then throw (.arity f.name f.arity given)
    requireSignature f
    instr (.invoke f.name f.arity f.result?.isSome)

end Emit

/-! ## The end -/

namespace Generator

/-- Closes the program for good and tells what was wrong: it was not finished, or what was written
cannot be handed on for a reason. -/
def close (g : Generator) (broken : Option String) : List Fault × Generator :=
  if g.phase = .closed then ([.closed], g)
  else
    let unfinished :=
      if g.phase = .done || g.phase = .idle then [] else [Fault.unfinished g.className]
    let unwritten :=
      match broken with
      | some reason => if g.lines.isEmpty then [] else [Fault.flush reason]
      | none => []
    (unfinished ++ unwritten, { g with phase := .closed })

end Generator

end Jasm.Assembly

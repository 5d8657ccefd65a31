import Jasm.Assembly.Label
import Jasm.Symbol

/-!
# The state of a program in the making

A program is written line by line, in an order that the generator enforces: the class is opened,
fields and methods follow, the class is closed. A step that is refused says why. A step that needs
several lines is made of smaller steps, and what the first of them wrote stays written if a later
one is refused.
-/

namespace Jasm.Assembly

/-- Budgets and looks of the program text. -/
structure Options where
  maxStack : Int := 0
  maxLocals : Int := 0
  labelStem : String := ""
  indent : Bool := false
  deriving DecidableEq, Repr, Inhabited

namespace Options

def defaultBudget : Int := 15

def standard : Options := ⟨defaultBudget, defaultBudget, "L", true⟩

/-- Fills in budgets that are not positive and an empty stem of labels. -/
def withDefaults (o : Options) : Options where
  maxStack := if o.maxStack ≤ 0 then defaultBudget else o.maxStack
  maxLocals := if o.maxLocals ≤ 0 then defaultBudget else o.maxLocals
  labelStem := if o.labelStem = "" then "L" else o.labelStem
  indent := o.indent

end Options

/-- How far a program has come. -/
inductive Phase where
  | idle
  | program
  | method
  | done
  | closed
  deriving DecidableEq, Repr

/-- The method whose body is being written. -/
structure MethodFrame where
  name : String
  ret : Kind
  deriving DecidableEq, Repr

def MethodFrame.isVoid (m : MethodFrame) : Bool := m.ret = .none

/-- The labels of an `if` statement. -/
structure IfBlock where
  falseTarget : Label
  join : Option Label := none
  hasElse : Bool := false
  closed : Bool := false
  deriving DecidableEq, Repr

/-- The labels of a `while` statement. -/
structure Loop where
  head : Label
  exit : Label
  tested : Bool := false
  closed : Bool := false
  deriving DecidableEq, Repr

/-- The state of a program in the making. -/
structure Generator where
  className : String
  options : Options
  phase : Phase := .idle
  depth : Nat := 0
  method : Option MethodFrame := none
  /-- How many prints were begun and not ended. -/
  prints : Nat := 0
  labels : LabelTable
  /-- The lines so far, each with the depth it is written at. -/
  lines : Array (Nat × Line) := #[]
  /-- Whether the last line never lets control go on. -/
  terminal : Bool := false
  /-- The `if` statements begun so far; a statement is known by its position here. -/
  ifs : Array IfBlock := #[]
  /-- The `while` statements begun so far. -/
  loops : Array Loop := #[]

/-! ## Refusals -/

/-- What a step was refused for, roughly. -/
inductive Family where
  | labelProtocol
  | sequence
  | closed
  | unsupported
  | arity
  | output
  deriving DecidableEq, Repr

/-- Where in a program a step came out of turn. -/
inductive Situation where
  | beforeStart
  | outsideMethod
  | insideMethod (name : String)
  | afterEnd
  deriving DecidableEq, Repr

/-- Where a kind without storage was met. -/
inductive StorageSite where
  | global (id : String)
  | parameter (function : String) (position : Nat)
  | result (function : String)
  deriving DecidableEq, Repr

/-- Why a step is refused. -/
inductive Fault where
  | closed
  | outOfTurn (what : String) (situation : Situation)
  | unfinished (program : String)
  | headerWithoutFunction
  | endsInsidePrint (method : String)
  | notMain (method : String)
  | valueFromVoid (method : String)
  | bareReturn (method : String) (ret : Kind)
  | unresolvedCall
  | printNotBegun
  | reserveCount (n : Int)
  | definedTwice (l : Label)
  | notReserved (l : Label)
  | foreignLabel (l : Label)
  | jumpNotReserved (mnemonic : String) (l : Label)
  | jumpForeign (mnemonic : String) (l : Label)
  | undefinedLabels (place : String) (ls : List Label)
  | noOpenIf
  | ifClosedTwice
  | loopTestOrder
  | loopEndOrder
  | storage (site : StorageSite) (kind : Kind)
  | initializer (id : String)
  | slot (mnemonic : String) (n : Int)
  | uninitConstant (kind : Kind)
  | constantKind (kind : Kind)
  | noInstruction (op : Operator)
  | printKind (kind : Kind)
  | notRelational (op : Operator)
  | branchCondition (n : Nat)
  | arity (function : String) (want given : Int)
  | flush (reason : String)
  deriving DecidableEq, Repr

namespace Fault

def family : Fault → Family
  | .closed => .closed
  | .outOfTurn .. | .unfinished _ | .headerWithoutFunction | .endsInsidePrint _ | .notMain _
  | .valueFromVoid _ | .bareReturn .. | .unresolvedCall | .printNotBegun => .sequence
  | .reserveCount _ | .definedTwice _ | .notReserved _ | .foreignLabel _ | .jumpNotReserved ..
  | .jumpForeign .. | .undefinedLabels .. | .noOpenIf | .ifClosedTwice | .loopTestOrder
  | .loopEndOrder => .labelProtocol
  | .storage .. | .initializer _ | .slot .. | .uninitConstant _ | .constantKind _
  | .noInstruction _ | .printKind _ | .notRelational _ | .branchCondition _ => .unsupported
  | .arity .. => .arity
  | .flush _ => .output

end Fault

namespace Family

def text : Family → String
  | .labelProtocol => "label protocol violation"
  | .sequence => "emission out of sequence"
  | .closed => "output stream closed"
  | .unsupported => "unsupported by target"
  | .arity => "call arity mismatch"
  | .output => "flush output"

end Family

def Situation.text : Situation → String
  | .beforeStart => "before ProgramStart"
  | .outsideMethod => "outside a method body"
  | .insideMethod name => s!"inside method {Text.quoted name}"
  | .afterEnd => "after ProgramEnd"

def StorageSite.text : StorageSite → String
  | .global id => s!"global {Text.quoted id}"
  | .parameter function position => s!"function {Text.quoted function} parameter {position}"
  | .result function => s!"function {Text.quoted function} result"

namespace Fault

/-- What a refusal says behind the name of its family. -/
def detail : Fault → String
  | .closed => ""
  | .outOfTurn what situation => s!"{what} {situation.text}"
  | .unfinished program => s!"program {Text.quoted program} closed before ProgramEnd"
  | .headerWithoutFunction => "method header without a function"
  | .endsInsidePrint method => s!"method {Text.quoted method} ends inside a print"
  | .notMain method => s!"EndMain inside method {Text.quoted method}"
  | .valueFromVoid method => s!"value return from void method {Text.quoted method}"
  | .bareReturn method ret =>
    s!"bare return from method {Text.quoted method} returning {ret.text}"
  | .unresolvedCall => "call to unresolved function"
  | .printNotBegun => "print end without PrintBegin"
  | .reserveCount n => s!"reserve {n} labels"
  | .definedTwice l => s!"label {l} defined twice"
  | .notReserved l => s!"label {l} defined before reservation"
  | .foreignLabel l => s!"label {l} belongs to another method"
  | .jumpNotReserved mnemonic l => s!"{mnemonic} to unreserved label {l}"
  | .jumpForeign mnemonic l => s!"{mnemonic} to label {l} of another method"
  | .undefinedLabels place ls => s!"{place} leaves labels undefined: " ++ ", ".intercalate ls
  | .noOpenIf => "else without an open if"
  | .ifClosedTwice => "if closed twice"
  | .loopTestOrder => "loop test out of order"
  | .loopEndOrder => "loop end out of order"
  | .storage _ kind => s!"{kind.text} storage"
  | .initializer _ => "initializer must be an initialized constant"
  | .slot mnemonic n => s!"{mnemonic} {n}"
  | .uninitConstant kind => s!"uninitialized value: constant of kind {kind.text}"
  | .constantKind kind => s!"{kind.text} constant"
  | .noInstruction op => s!"operator {op.text} has no direct instruction"
  | .printKind kind => s!"print of {kind.text}"
  | .notRelational op => s!"{op.text} is not a relational operator"
  | .branchCondition n => s!"invalid branch condition {n}"
  | .arity function want given =>
    s!"{Text.quoted function} takes {want} arguments, {given} pushed"
  | .flush reason => reason

/-- What stands in front of the family's name: the declaration a refusal is about. -/
def context : Fault → String
  | .storage site _ => site.text ++ ": "
  | .initializer id => (StorageSite.global id).text ++ ": "
  | _ => ""

def message (f : Fault) : String :=
  match f with
  | .closed => f.family.text
  | _ => s!"{f.context}{f.family.text}: {f.detail}"

def messages (fs : List Fault) : String := "\n".intercalate (fs.map message)

end Fault

/-! ## Steps -/

/-- A step on a program in the making. What was written stays written when a later part of the
step is refused. -/
abbrev Emit := ExceptT Fault (StateM Generator)

namespace Generator

def new (className : String) (options : Options) : Generator :=
  let options := options.withDefaults
  { className, options, labels := { stem := options.labelStem } }

def lineCount (g : Generator) : Nat := g.lines.size

def labelCount (g : Generator) : Nat := g.labels.counter

def lineText (indent : Bool) (cls : String) (depth : Nat) (l : Line) : String :=
  "".pushn '\t' (if indent then depth else 0) ++ l.text cls ++ "\n"

def text (g : Generator) : String :=
  g.lines.foldl (fun s (depth, l) => s ++ lineText g.options.indent g.className depth l) ""

/-- Where the program stands, as refusals tell it. -/
def situation (g : Generator) : Situation :=
  match g.phase with
  | .idle => .beforeStart
  | .program => .outsideMethod
  | .method => .insideMethod ((g.method.map MethodFrame.name).getD "")
  | .done | .closed => .afterEnd

def push (g : Generator) (l : Line) : Generator :=
  { g with lines := g.lines.push (g.depth, l), terminal := false }

/-- Writes an instruction and notes whether control can go on behind it. -/
def pushInstr (g : Generator) (i : Instruction) : Generator :=
  { g.push (.instr i) with terminal := i.isTerminal }

@[simp] theorem lineCount_push (g : Generator) (l : Line) :
    (g.push l).lineCount = g.lineCount + 1 := by
  simp [push, lineCount]

@[simp] theorem lineCount_pushInstr (g : Generator) (i : Instruction) :
    (g.pushInstr i).lineCount = g.lineCount + 1 := by
  simp [pushInstr, push, lineCount]

@[simp] theorem phase_push (g : Generator) (l : Line) : (g.push l).phase = g.phase := rfl

@[simp] theorem phase_pushInstr (g : Generator) (i : Instruction) :
    (g.pushInstr i).phase = g.phase := rfl

@[simp] theorem labels_push (g : Generator) (l : Line) : (g.push l).labels = g.labels := rfl

@[simp] theorem labels_pushInstr (g : Generator) (i : Instruction) :
    (g.pushInstr i).labels = g.labels := rfl

end Generator

namespace Emit

/-- Goes on only while the program is open. -/
def requireOpen : Emit Unit := do
  if (← get).phase = .closed then throw .closed

/-- Goes on only in a phase; `what` names the step. -/
def requirePhase (phase : Phase) (what : String) : Emit Unit := do
  requireOpen
  let g ← get
  if g.phase ≠ phase then throw (.outOfTurn what g.situation)

def currentMethod : Emit MethodFrame := do
  return (← get).method.getD ⟨"", .none⟩

def line (l : Line) : Emit Unit := modify (·.push l)

def instr (i : Instruction) : Emit Unit := modify (·.pushInstr i)

/-- Refuses to go on while labels are handed out and not defined. -/
def requireLabelsDefined (place : String) : Emit Unit := do
  match (← get).labels.pending with
  | [] => pure ()
  | ls => throw (.undefinedLabels place ls)

end Emit

end Jasm.Assembly

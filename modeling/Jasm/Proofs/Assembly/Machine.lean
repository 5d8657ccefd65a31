import Mathlib.Logic.Function.Basic
import Mathlib.Logic.Relation
import Jasm.Assembly.Generator

/-!
# The machine that runs a class

A class is run by a machine with a stack of frames. Each frame has its own local variables and its
own operand stack, on which whole numbers of 32 bits, texts and the print stream can stand; numbers
wrap around. The machine takes one instruction at a time. It has no step where an instruction does
not find what it needs: operands of the right sort, a variable that holds something, a divisor that
is not zero, a label or a method that exists.

What is left to do in a frame is kept as the rest of its code instead of a position in it. A jump
replaces that rest by the code behind the label in the body of the method.
-/

namespace Jasm.Assembly

/-! ## Classes -/

/-- A method that can be called. -/
structure Method where
  name : String
  arity : Nat
  returns : Bool
  body : List Instruction

/-- A class with its fields and their first values, its methods, and the body of its entry point. -/
structure Class where
  fields : List (String × Option Int32)
  methods : List Method
  entry : List Instruction

/-- The lines of a method behind its header. -/
def bodyLines (o : Options) (body : List Instruction) : List Line :=
  .maxStack o.maxStack :: .maxLocals o.maxLocals :: .openBody :: body.map .instr ++ [.close]

def Method.lines (o : Options) (m : Method) : List Line :=
  .method m.name m.arity m.returns :: bodyLines o m.body

def Class.lines (o : Options) (k : Class) : List Line :=
  .openClass :: k.fields.map (fun f => .field f.1 f.2) ++ k.methods.flatMap (·.lines o) ++
    .entryPoint :: bodyLines o k.entry ++ [.close]

namespace Class

def method? (k : Class) (name : String) (arity : Nat) (returns : Bool) : Option Method :=
  k.methods.find? fun m => m.name = name ∧ m.arity = arity ∧ m.returns = returns

/-- The fields before the first step; one without a value of its own starts as zero. -/
def initial (k : Class) (id : String) : Option Int32 := (k.fields.lookup id).map (·.getD 0)

end Class

/-! ## Single operations -/

/-- What can stand on an operand stack. -/
inductive Operand where
  | int (n : Int32)
  | string (s : String)
  | stream
  deriving DecidableEq

def Operand.ofBool (b : Bool) : Operand := .int (if b then 1 else 0)

def Cond.holds (c : Cond) (n : Int32) : Bool :=
  match c with
  | .lt => n < 0
  | .gt => 0 < n
  | .eq => n = 0
  | .le => n ≤ 0
  | .ge => 0 ≤ n
  | .ne => n ≠ 0

def StackOp.apply (o : StackOp) (a b : Int32) : Option Int32 :=
  match o with
  | .add => some (a + b)
  | .sub => some (a - b)
  | .mul => some (a * b)
  | .div => if b = 0 then none else some (a / b)
  | .rem => if b = 0 then none else some (a % b)
  | .and => some (a &&& b)
  | .or => some (a ||| b)
  | .xor => some (a ^^^ b)
  | .neg => none

/-- What a print shows of an operand. A truth value has to be one or zero. -/
def Printed.value? : Printed → Operand → Option Value
  | .int, .int n => some (.int n)
  | .boolean, .int n =>
    if n = 0 then some (.bool false) else if n = 1 then some (.bool true) else none
  | .char, .int n => some (.char n)
  | .string, .string s => some (.str s)
  | _, _ => none

/-- Takes numbers from a stack; the deepest one comes first. -/
def popInts : Nat → List Operand → List Int32 → Option (List Int32 × List Operand)
  | 0, stack, taken => some (taken, stack)
  | n + 1, .int v :: stack, taken => popInts n stack (v :: taken)
  | _ + 1, _, _ => none

def after (l : Label) : List Instruction → Option (List Instruction)
  | [] => none
  | i :: rest => if i = .label l then some rest else after l rest

/-! ## Runs -/

/-- The run of one method. -/
structure Frame where
  body : List Instruction
  /-- What is left to do. -/
  rest : List Instruction
  locals : Nat → Option Int32
  stack : List Operand
  /-- Whether the method has to give a result. -/
  returns : Bool

def Frame.start (body : List Instruction) (args : List Int32) (returns : Bool) : Frame :=
  ⟨body, body, fun i => args[i]?, [], returns⟩

def Frame.set (f : Frame) (rest : List Instruction) (stack : List Operand) : Frame :=
  { f with rest := rest, stack := stack }

/-- A machine in the middle of a run. -/
structure Machine where
  /-- The methods that have not returned, the running one first. -/
  frames : List Frame
  globals : String → Option Int32
  /-- What was printed, and whether a line was ended behind it. -/
  output : List (Value × Bool)

namespace Machine

def start (k : Class) : Machine := ⟨[.start k.entry [] false], k.initial, []⟩

/-- Carries out an instruction in a frame that has moved behind it. -/
def exec (k : Class) (i : Instruction) (f : Frame) (callers : List Frame)
    (globals : String → Option Int32) (output : List (Value × Bool)) : Option Machine :=
  let next (stack : List Operand) : Machine :=
    ⟨{ f with stack := stack } :: callers, globals, output⟩
  let jump (l : Label) (stack : List Operand) : Option Machine :=
    (after l f.body).map fun rest => ⟨{ f with rest := rest, stack := stack } :: callers,
      globals, output⟩
  match i, f.stack with
  | .loadGlobal id, stack => (globals id).map fun n => next (.int n :: stack)
  | .storeGlobal id, .int n :: stack =>
    if (globals id).isSome then
      some ⟨{ f with stack := stack } :: callers, Function.update globals id (some n), output⟩
    else none
  | .loadLocal slot, stack => (f.locals slot).map fun n => next (.int n :: stack)
  | .storeLocal slot, .int n :: stack =>
    some ⟨{ f with stack := stack, locals := Function.update f.locals slot (some n) } :: callers,
      globals, output⟩
  | .pushShort n, stack | .pushInt n, stack => some (next (.int n :: stack))
  | .pushString s, stack => some (next (.string (Text.normalForm s) :: stack))
  | .pushBool b, stack => some (next (.ofBool b :: stack))
  | .pop, _ :: stack => some (next stack)
  | .op .neg, .int a :: stack => some (next (.int (-a) :: stack))
  | .op o, .int b :: .int a :: stack => (o.apply a b).map fun n => next (.int n :: stack)
  | .branch c l, .int n :: stack => if c.holds n then jump l stack else some (next stack)
  | .goto l, stack => jump l stack
  | .label _, stack => some (next stack)
  | .invoke name arity returns, stack =>
    match k.method? name arity returns, popInts arity stack [] with
    | some m, some (args, stack) =>
      some ⟨.start m.body args m.returns :: { f with stack := stack } :: callers, globals, output⟩
    | _, _ => none
  | .pushStream, stack => some (next (.stream :: stack))
  | .print what newline, v :: .stream :: stack =>
    (what.value? v).map fun shown =>
      ⟨{ f with stack := stack } :: callers, globals, output ++ [(shown, newline)]⟩
  | .ret, _ => if f.returns then none else some ⟨callers, globals, output⟩
  | .retValue, .int n :: _ =>
    match f.returns, callers with
    | true, caller :: callers =>
      some ⟨{ caller with stack := .int n :: caller.stack } :: callers, globals, output⟩
    | _, _ => none
  | _, _ => none

def step (k : Class) (m : Machine) : Option Machine :=
  match m.frames with
  | [] => none
  | f :: callers =>
    match f.rest with
    | [] => none
    | i :: rest => exec k i { f with rest := rest } callers m.globals m.output

/-- Some steps lead from one machine to another. -/
def Runs (k : Class) : Machine → Machine → Prop :=
  Relation.ReflTransGen fun m m' => m.step k = some m'

namespace Runs

variable {k : Class} {m m₁ m₂ : Machine}

theorem refl {m : Machine} : Runs k m m := Relation.ReflTransGen.refl

theorem trans (first : Runs k m m₁) (second : Runs k m₁ m₂) : Runs k m m₂ :=
  Relation.ReflTransGen.trans first second

theorem one (h : m.step k = some m₁) : Runs k m m₁ := Relation.ReflTransGen.single h

theorem cons (h : m.step k = some m₁) (rest : Runs k m₁ m₂) : Runs k m m₂ :=
  (one h).trans rest

/-- A load of a slot that holds nothing has no next step, so no run to an end comes to one. -/
theorem loads_held {f : Frame} {callers : List Frame} {slot : Nat} {rest : List Instruction}
    (runs : Runs k m m₂) (last : m₂.frames = []) (here : Runs k m m₁)
    (frames : m₁.frames = f :: callers) (next : f.rest = .loadLocal slot :: rest) :
    (f.locals slot).isSome := by
  have unique : Relator.RightUnique fun m m' : Machine => m.step k = some m' :=
    fun _ _ _ h h' => Option.some.inj (h.symm.trans h')
  rcases Relation.ReflTransGen.total_of_right_unique unique here runs with onward | back
  · rcases onward.cases_head with rfl | ⟨m', step, -⟩
    · cases last.symm.trans frames
    · rw [Machine.step, frames] at step
      dsimp only at step
      rw [next] at step
      obtain ⟨n, held, -⟩ := Option.map_eq_some_iff.mp step
      rw [held]
      rfl
  · rcases back.cases_head with rfl | ⟨m', step, -⟩
    · cases last.symm.trans frames
    · rw [Machine.step, last] at step
      cases step

end Runs

end Machine

/-! ## Labels in bodies -/

def Instruction.label? : Instruction → Option Label
  | .label l => some l
  | _ => none

def labels (code : List Instruction) : List Label := code.filterMap Instruction.label?

@[simp] theorem labels_nil : labels [] = [] := rfl

@[simp] theorem labels_cons (i : Instruction) (code : List Instruction) :
    labels (i :: code) = i.label?.toList ++ labels code := by
  cases h : i.label? <;> simp [labels, h]

@[simp] theorem labels_append (code code' : List Instruction) :
    labels (code ++ code') = labels code ++ labels code' := List.filterMap_append

theorem after_eq_some {l : Label} {rest : List Instruction} :
    {body : List Instruction} → (labels body).Nodup → .label l :: rest <:+ body →
      after l body = some rest
  | [], _, h => by
    obtain ⟨front, hf⟩ := h
    cases front <;> cases hf
  | i :: body, nodup, h => by
    rw [labels_cons, List.nodup_append] at nodup
    rcases List.suffix_cons_iff.mp h with heq | htail
    · cases heq
      simp [after]
    · have differs : i ≠ .label l := by
        rintro rfl
        obtain ⟨front, rfl⟩ := htail
        exact nodup.2.2 l (by simp [Instruction.label?]) l (by simp [Instruction.label?]) rfl
      rw [after, if_neg differs]
      exact after_eq_some nodup.2.1 htail

/-- Some code is the end of the body of a frame, in which no label is defined twice. -/
structure Frame.EndsWith (f : Frame) (code : List Instruction) : Prop where
  nodup : (labels f.body).Nodup
  suffix : code <:+ f.body

namespace Frame.EndsWith

variable {f : Frame} {code code' rest : List Instruction}

theorem of_suffix (h : f.EndsWith code) (hs : code' <:+ code) : f.EndsWith code' :=
  ⟨h.nodup, hs.trans h.suffix⟩

theorem right (h : f.EndsWith (code ++ rest)) : f.EndsWith rest :=
  h.of_suffix (List.suffix_append code rest)

theorem tail {i : Instruction} (h : f.EndsWith (i :: rest)) : f.EndsWith rest :=
  h.of_suffix (List.suffix_cons i rest)

theorem after_eq {l : Label} (h : f.EndsWith (.label l :: rest)) : after l f.body = some rest :=
  after_eq_some h.nodup h.suffix

end Frame.EndsWith

end Jasm.Assembly

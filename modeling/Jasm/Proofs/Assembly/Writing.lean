import Jasm.Assembly.Control

/-!
# What a step writes

`m.Writes g a g'` says that the step `m` is carried out on the program `g`, gives `a` and leaves the
program `g'`. A step that is refused writes nothing in this sense, so the rules below read a
composite step off as the sequence of its parts, each of them carried out.
-/

namespace Jasm.Assembly

open Generator

namespace Emit

variable {α β : Type} {g g' : Generator} {m : Emit α} {b : β} {what id : String} {k : Unit → Emit β}
  {a : Unit} {f : Signature} {slot : Int} {v : Value} {kind : Kind} {l : Label}

/-- A step is carried out: from `g` it gives `a` and leaves `g'`. -/
def Writes (m : Emit α) (g : Generator) (a : α) (g' : Generator) : Prop :=
  m.run.run g = (.ok a, g')

@[simp] theorem writes_pure {a b : α} : (pure a : Emit α).Writes g b g' ↔ b = a ∧ g' = g := by
  constructor
  · intro h
    cases h
    exact ⟨rfl, rfl⟩
  · rintro ⟨rfl, rfl⟩
    rfl

@[simp] theorem not_writes_throw {f : Fault} {a : α} : ¬ (throw f : Emit α).Writes g a g' := by
  intro h
  cases h

theorem writes_bind {k : α → Emit β} :
    (m >>= k).Writes g b g' ↔ ∃ a g₁, m.Writes g a g₁ ∧ (k a).Writes g₁ b g' := by
  unfold Writes
  rw [ExceptT.run_bind, StateT.run_bind]
  rcases h : m.run.run g with ⟨r, g₁⟩
  cases r with
  | error f =>
    constructor
    · intro h'
      cases h'
    · rintro ⟨a, g₂, h', -⟩
      cases h'
  | ok a =>
    constructor
    · intro h'
      exact ⟨a, g₁, rfl, h'⟩
    · rintro ⟨a', g₂, h', h''⟩
      cases h'
      exact h''

@[simp] theorem writes_pure_bind {a : α} {k : α → Emit β} {b : β} :
    ((pure a : Emit α) >>= k).Writes g b g' ↔ (k a).Writes g b g' := Iff.rfl

theorem Writes.seqRight {a : α} (w : m.Writes g a g') (b : β) : (m *> pure b).Writes g b g' := by
  rw [seqRight_eq_bind]
  exact writes_bind.mpr ⟨a, g', w, writes_pure.mpr ⟨rfl, rfl⟩⟩

theorem Writes.map {a : α} (w : m.Writes g a g') (f : α → β) : (f <$> m).Writes g (f a) g' := by
  rw [map_eq_pure_bind]
  exact writes_bind.mpr ⟨a, g', w, writes_pure.mpr ⟨rfl, rfl⟩⟩

@[simp] theorem writes_get_bind {k : Generator → Emit β} {b : β} :
    ((get : Emit Generator) >>= k).Writes g b g' ↔ (k g).Writes g b g' := Iff.rfl

@[simp] theorem writes_modify {f : Generator → Generator} {a : PUnit} :
    (modify f : Emit PUnit).Writes g a g' ↔ g' = f g := by
  constructor
  · intro h
    cases h
    rfl
  · rintro rfl
    rfl

@[simp] theorem writes_modify_bind {f : Generator → Generator} {k : PUnit → Emit β} {b : β} :
    ((modify f : Emit PUnit) >>= k).Writes g b g' ↔ (k ⟨⟩).Writes (f g) b g' := Iff.rfl

@[simp] theorem writes_instr {i : Instruction} {a : Unit} :
    (instr i).Writes g a g' ↔ g' = g.pushInstr i := writes_modify

@[simp] theorem writes_instr_bind {i : Instruction} {k : Unit → Emit β} {b : β} :
    (instr i >>= k).Writes g b g' ↔ (k ()).Writes (g.pushInstr i) b g' := Iff.rfl

@[simp] theorem writes_line {l : Line} {a : Unit} : (line l).Writes g a g' ↔ g' = g.push l :=
  writes_modify

@[simp] theorem writes_line_bind {l : Line} {k : Unit → Emit β} {b : β} :
    (line l >>= k).Writes g b g' ↔ (k ()).Writes (g.push l) b g' := Iff.rfl

/-! ## Checks -/

theorem writes_requirePhase_bind {ph : Phase} (isOpen : ph ≠ .closed) :
    (requirePhase ph what >>= k).Writes g b g' ↔ g.phase = ph ∧ (k ()).Writes g b g' := by
  unfold requirePhase requireOpen
  simp only [bind_assoc, writes_get_bind]
  by_cases hp : g.phase = ph
  · simp [hp, isOpen]
  · by_cases hc : g.phase = .closed <;> simp [hp, hc, isOpen.symm]

@[simp] theorem writes_requireMethod_bind {what : String} {k : Unit → Emit β} {b : β} :
    (requirePhase .method what >>= k).Writes g b g' ↔
      g.phase = .method ∧ (k ()).Writes g b g' := writes_requirePhase_bind (by decide)

theorem writes_requireMethod :
    (requirePhase .method what).Writes g a g' ↔ g.phase = .method ∧ g' = g := by
  rw [← bind_pure (requirePhase .method what), writes_requireMethod_bind, writes_pure]
  simp

@[simp] theorem writes_requireProgram_bind {what : String} {k : Unit → Emit β} {b : β} :
    (requirePhase .program what >>= k).Writes g b g' ↔
      g.phase = .program ∧ (k ()).Writes g b g' := writes_requirePhase_bind (by decide)

@[simp] theorem writes_requireIdle_bind {what : String} {k : Unit → Emit β} {b : β} :
    (requirePhase .idle what >>= k).Writes g b g' ↔
      g.phase = .idle ∧ (k ()).Writes g b g' := writes_requirePhase_bind (by decide)

@[simp] theorem writes_requireStorable_bind {site : StorageSite} {kind : Kind}
    {k : Unit → Emit β} {b : β} :
    (requireStorable site kind >>= k).Writes g b g' ↔
      isStorable kind ∧ (k ()).Writes g b g' := by
  unfold requireStorable
  cases h : isStorable kind <;> simp

theorem writes_requireParams {name : String} {position : Nat} {kinds : List Kind} :
    (requireParams name position kinds).Writes g a g' ↔
      (∀ k ∈ kinds, isStorable k) ∧ g' = g := by
  induction kinds generalizing position with
  | nil => simp [requireParams]
  | cons k rest ih => simp [requireParams, ih, and_assoc]

theorem writes_requireSignature :
    (requireSignature f).Writes g a g' ↔
      ((∀ k ∈ f.params, isStorable k) ∧ ∀ k, f.result? = some k → isStorable k) ∧ g' = g := by
  unfold requireSignature
  rw [writes_bind]
  simp only [writes_requireParams]
  cases f.result? with
  | none => simp
  | some k =>
    have h : ∀ g₁, (requireStorable (.result f.name) k).Writes g₁ a g' ↔
        isStorable k ∧ g' = g₁ := by
      intro g₁
      unfold requireStorable
      cases isStorable k <;> simp
    simp [h, and_assoc]

theorem writes_requireSignature_bind :
    (requireSignature f >>= k).Writes g b g' ↔
      ((∀ k ∈ f.params, isStorable k) ∧ ∀ k, f.result? = some k → isStorable k) ∧
        (k ()).Writes g b g' := by
  rw [writes_bind]
  simp only [writes_requireSignature]
  constructor
  · rintro ⟨_, _, ⟨storable, rfl⟩, h⟩
    exact ⟨storable, h⟩
  · rintro ⟨storable, h⟩
    exact ⟨(), g, ⟨storable, rfl⟩, h⟩

theorem writes_reserve_bind {n : Int} {k : List Label → Emit β} :
    (reserve n >>= k).Writes g b g' ↔ g.phase ≠ .closed ∧ 0 < n ∧
      (k (g.labels.reserve n.toNat).1).Writes
        { g with labels := (g.labels.reserve n.toNat).2 } b g' := by
  unfold reserve requireOpen
  simp only [bind_assoc, writes_get_bind]
  by_cases hc : g.phase = .closed
  · simp [hc]
  · by_cases hn : n ≤ 0
    · simp [hc, hn, Int.not_lt.mpr hn]
    · simp only [hc, hn, if_false, writes_pure_bind, ne_eq, not_false_eq_true, true_and,
        Int.not_le.mp hn]
      rfl

theorem writes_reserve {n : Int} {ls : List Label} :
    (reserve n).Writes g ls g' ↔ g.phase ≠ .closed ∧ 0 < n ∧ ls = (g.labels.reserve n.toNat).1 ∧
      g' = { g with labels := (g.labels.reserve n.toNat).2 } := by
  rw [← bind_pure (reserve n), writes_reserve_bind, writes_pure]

theorem writes_requireLabelsDefined_bind {place : String} :
    (requireLabelsDefined place >>= k).Writes g b g' ↔
      g.labels.pending = [] ∧ (k ()).Writes g b g' := by
  unfold requireLabelsDefined
  simp only [bind_assoc, writes_get_bind]
  cases g.labels.pending with
  | nil => simp
  | cons l ls => simp

/-! ## Single steps -/

theorem writes_loadGlobal :
    (loadGlobal id).Writes g a g' ↔ g.phase = .method ∧ g' = g.pushInstr (.loadGlobal id) := by
  simp [loadGlobal]

theorem writes_storeGlobal :
    (storeGlobal id).Writes g a g' ↔ g.phase = .method ∧ g' = g.pushInstr (.storeGlobal id) := by
  simp [storeGlobal]

theorem writes_loadLocal :
    (loadLocal slot).Writes g a g' ↔
      g.phase = .method ∧ 0 ≤ slot ∧ g' = g.pushInstr (.loadLocal slot.toNat) := by
  unfold loadLocal
  by_cases h : slot < 0
  · simp [h, Int.not_le.mpr h]
  · simp [h, Int.not_lt.mp h]

theorem writes_storeLocal :
    (storeLocal slot).Writes g a g' ↔
      g.phase = .method ∧ 0 ≤ slot ∧ g' = g.pushInstr (.storeLocal slot.toNat) := by
  unfold storeLocal
  by_cases h : slot < 0
  · simp [h, Int.not_le.mpr h]
  · simp [h, Int.not_lt.mp h]

theorem writes_loadBool {x : Bool} :
    (loadBool x).Writes g a g' ↔ g.phase = .method ∧ g' = g.pushInstr (.pushBool x) := by
  simp [loadBool]

/-- The instruction that pushes a constant, if there is one for its kind. -/
def constant? : Value → Option Instruction
  | .int n => some (pushNumber n)
  | .bool b => some (.pushBool b)
  | .str s => some (.pushString s)
  | .char code => some (pushNumber code)
  | .uninit _ | .float _ => none

theorem writes_loadConst :
    (loadConst v).Writes g a g' ↔
      ∃ i, constant? v = some i ∧ g.phase = .method ∧ g' = g.pushInstr i := by
  cases v <;> simp [loadConst, constant?, loadInt, loadBool, loadString]

theorem writes_pop :
    pop.Writes g a g' ↔ g.phase = .method ∧ g' = g.pushInstr .pop := by
  simp [pop]

/-- The instructions of an operator that is carried out directly. -/
def operationCode? (op : Operator) : Option (List Instruction) :=
  if op = .not then some [.pushBool true, .op .xor]
  else (StackOp.ofOperator? op).map fun o => [.op o]

theorem writes_operation {op : Operator} :
    (operation op).Writes g a g' ↔
      ∃ code, operationCode? op = some code ∧ g.phase = .method ∧
        g' = code.foldl pushInstr g := by
  unfold operation operationCode?
  by_cases h : op = .not
  · simp [h]
  · cases StackOp.ofOperator? op <;> simp [h]

theorem writes_printBegin :
    printBegin.Writes g a g' ↔ g.phase = .method ∧
      g' = { g.pushInstr .pushStream with prints := g.prints + 1 } := by
  simp [printBegin, pushInstr, push]

theorem writes_printEnd {newline : Bool} :
    (printEnd kind newline).Writes g a g' ↔ g.phase = .method ∧ g.prints ≠ 0 ∧
      ∃ what, Printed.ofKind? kind = some what ∧
        g' = { g with prints := g.prints - 1 }.pushInstr (.print what newline) := by
  unfold printEnd
  by_cases h : g.prints = 0
  · simp [h]
  · cases Printed.ofKind? kind <;> simp [h]

theorem writes_jump {mnemonic : String} {i : Instruction} :
    (jump mnemonic l i).Writes g a g' ↔ g.phase = .method ∧ ∃ s, g.labels.get? l = some s ∧
      g.labels.isUsable s ∧ g' = { g with labels := g.labels.bind l s }.pushInstr i := by
  unfold jump
  simp only [writes_requireMethod_bind, writes_get_bind]
  cases g.labels.get? l with
  | none => simp
  | some s => cases h : g.labels.isUsable s <;> simp [h]

theorem writes_define :
    (define l).Writes g a g' ↔ g.phase = .method ∧ ∃ s, g.labels.get? l = some s ∧
      s.defined = false ∧ g.labels.isUsable s ∧
      g' = { g with labels := g.labels.define l }.pushInstr (.label l) := by
  unfold define
  simp only [writes_requireMethod_bind, writes_get_bind]
  cases g.labels.get? l with
  | none => simp
  | some s => cases h : g.labels.isUsable s <;> cases h' : s.defined <;> simp [h, h']

theorem writes_returnValue :
    returnValue.Writes g a g' ↔ g.phase = .method ∧
      (g.method.getD ⟨"", .none⟩).isVoid = false ∧ g' = g.pushInstr .retValue := by
  unfold returnValue currentMethod
  simp only [writes_requireMethod_bind, bind_assoc, writes_get_bind, writes_pure_bind]
  cases (g.method.getD ⟨"", .none⟩).isVoid <;> simp

theorem writes_returnVoid :
    returnVoid.Writes g a g' ↔ g.phase = .method ∧
      (g.method.getD ⟨"", .none⟩).isVoid ∧ g' = g.pushInstr .ret := by
  unfold returnVoid currentMethod
  simp only [writes_requireMethod_bind, bind_assoc, writes_get_bind, writes_pure_bind]
  cases (g.method.getD ⟨"", .none⟩).isVoid <;> simp

theorem writes_invoke {given : Int} :
    (invoke (some f) given).Writes g a g' ↔ g.phase = .method ∧ given = f.arity ∧
      ((∀ k ∈ f.params, isStorable k) ∧ ∀ k, f.result? = some k → isStorable k) ∧
      g' = g.pushInstr (.invoke f.name f.arity f.result?.isSome) := by
  unfold invoke
  simp only [writes_requireMethod_bind]
  by_cases h : given = f.arity
  · simp [h, writes_requireSignature_bind]
  · simp [h]

/-! ## The class and its methods -/

theorem writes_programStart :
    programStart.Writes g a g' ↔ g.phase = .idle ∧
      g' = { g.push .openClass with depth := g.depth + 1, phase := .program } := by
  simp [programStart, push]

theorem writes_programEnd :
    programEnd.Writes g a g' ↔ g.phase = .program ∧ g.labels.pending = [] ∧
      g' = { ({ g with depth := g.depth - 1 }.push .close) with phase := .done } := by
  simp [programEnd, push, writes_requireLabelsDefined_bind]

theorem writes_declareGlobal :
    (declareGlobal id kind).Writes g a g' ↔
      g.phase = .program ∧ isStorable kind ∧ g' = g.push (.field id none) := by
  simp [declareGlobal]

theorem writes_declareGlobalInit :
    (declareGlobalInit id v).Writes g a g' ↔ g.phase = .program ∧ isStorable v.kind ∧
      ∃ n, v.intImage? = some n ∧ g' = g.push (.field id (some n)) := by
  unfold declareGlobalInit
  simp only [writes_requireProgram_bind, writes_requireStorable_bind]
  cases v.intImage? <;> simp

def opened (g : Generator) (m : MethodFrame) (header : Line) : Generator :=
  let o := g.options
  { (((g.push header).push (.maxStack o.maxStack)).push
    (.maxLocals o.maxLocals)).push .openBody with
    depth := g.depth + 1, method := some m, phase := .method, labels := g.labels.enterMethod }

theorem writes_openMethod {m : MethodFrame} {header : Line} :
    (openMethod m header).Writes g a g' ↔ g' = opened g m header := by
  simp [openMethod, opened, push]

theorem writes_beginFunction :
    (beginFunction (some f)).Writes g a g' ↔ g.phase = .program ∧
      ((∀ k ∈ f.params, isStorable k) ∧ ∀ k, f.result? = some k → isStorable k) ∧
      g' = opened g ⟨f.name, f.ret⟩ (.method f.name f.arity f.result?.isSome) := by
  simp [beginFunction, writes_requireSignature_bind, writes_openMethod]

theorem writes_beginMain :
    beginMain.Writes g a g' ↔ g.phase = .program ∧
      g' = opened g ⟨"main", .none⟩ .entryPoint := by
  simp [beginMain, writes_openMethod]

def ended (g : Generator) : Generator :=
  { { g with depth := g.depth - 1 }.push .close with
    method := none, phase := .program, labels := g.labels.leaveMethod }

theorem writes_endFunction :
    endFunction.Writes g a g' ↔ g.phase = .method ∧ g.prints = 0 ∧ g.labels.pending = [] ∧
      g' = ended (if (g.method.getD ⟨"", .none⟩).isVoid then g.pushInstr .ret else g) := by
  unfold endFunction currentMethod
  simp only [writes_requireMethod_bind, bind_assoc, writes_get_bind, writes_pure_bind]
  by_cases hp : g.prints = 0
  · simp only [hp, ne_eq, not_true_eq_false, if_false, true_and,
      writes_requireLabelsDefined_bind]
    cases (g.method.getD ⟨"", .none⟩).isVoid <;> simp [ended, push, pushInstr]
  · simp [hp]

theorem writes_endMain :
    endMain.Writes g a g' ↔ (∀ m, g.method = some m → m.name = "main") ∧
      endFunction.Writes g a g' := by
  unfold endMain
  simp only [writes_get_bind]
  cases g.method with
  | none => simp
  | some m => by_cases h : m.name = "main" <;> simp [h]

end Emit

end Jasm.Assembly

import Jasm.Proofs.Compile.Statements

/-!
# Walks over programs

A walk over a whole program that ends well has written the lines of a class: the fields of its
global variables, one method for each function, and an entry point, each with the code of its
resolved body. Labels are numbered through all methods.
-/

namespace Jasm.Compile

open Assembly Scopes Emit
open Program (Stmt)

/-- Whole lines of a class were written, and `n` labels have been handed out. -/
structure Grows (g : Generator) (lines : List Line) (n : Nat) (g' : Generator) : Prop where
  lines : g'.lines.toList.map (·.2) = g.lines.toList.map (·.2) ++ lines
  counter : g'.labels.counter = n
  stem : g'.labels.stem = g.labels.stem
  options : g'.options = g.options
  className : g'.className = g.className

namespace Grows

variable {g g₁ g₂ : Generator} {lines lines₁ lines₂ : List Line} {n n₁ n₂ : Nat}

theorem refl (hn : g.labels.counter = n) : Grows g [] n g := ⟨by simp, hn, rfl, rfl, rfl⟩

theorem trans (first : Grows g lines₁ n₁ g₁) (second : Grows g₁ lines₂ n₂ g₂) :
    Grows g (lines₁ ++ lines₂) n₂ g₂ where
  lines := by rw [second.lines, first.lines, List.append_assoc]
  counter := second.counter
  stem := second.stem.trans first.stem
  options := second.options.trans first.options
  className := second.className.trans first.className

theorem push (hn : g.labels.counter = n) {l : Line} : Grows g [l] n (g.push l) :=
  ⟨by simp [Generator.push], hn, rfl, rfl, rfl⟩

theorem of_extends {code : List Instruction} (h : g.Extends code n g₁) :
    Grows g (code.map .instr) n g₁ :=
  ⟨by rw [h.lines]; simp [Function.comp_def], h.counter, h.stem, h.options, h.className⟩

theorem started (hn : g.labels.counter = n) (h : programStart.Writes g () g₁) :
    Grows g [.openClass] n g₁ := by
  obtain ⟨-, rfl⟩ := writes_programStart.mp h
  exact ⟨by simp [Generator.push], hn, rfl, rfl, rfl⟩

theorem finished (hn : g.labels.counter = n) (h : programEnd.Writes g () g₁) :
    Grows g [.close] n g₁ := by
  obtain ⟨-, -, rfl⟩ := writes_programEnd.mp h
  exact ⟨by simp [Generator.push], hn, rfl, rfl, rfl⟩

theorem opened (hn : g.labels.counter = n) (m : MethodFrame) {header : Line} :
    Grows g [header, .maxStack g.options.maxStack, .maxLocals g.options.maxLocals, .openBody] n
      (opened g m header) :=
  ⟨by simp [Emit.opened, Generator.push], hn, rfl, rfl, rfl⟩

theorem ended (hn : g.labels.counter = n) : Grows g [.close] n (ended g) :=
  ⟨by simp [Emit.ended, Generator.push], hn, rfl, rfl, rfl⟩

theorem pushFields (hn : g.labels.counter = n) (fields : List (String × Option Int32)) :
    Grows g (fields.map fun f => .field f.1 f.2) n (Walk.pushFields g fields) := by
  induction fields generalizing g with
  | nil => exact refl hn
  | cons f rest ih => exact (push hn).trans (ih hn)

theorem method {m : MethodFrame} {header : Line} {code : List Instruction}
    (body : (Emit.opened g m header).Extends code n g₁) (h : Emit.endFunction.Writes g₁ () g₂) :
    Grows g (header :: bodyLines g.options (code ++ if m.isVoid then [.ret] else [])) n g₂ := by
  obtain ⟨-, -, -, rfl⟩ := writes_endFunction.mp h
  rw [body.method, show (Emit.opened g m header).method.getD ⟨"", .none⟩ = m from rfl]
  have first := (Grows.opened rfl m).trans (of_extends body)
  cases hv : m.isVoid with
  | false =>
    have all := first.trans (ended body.counter)
    simpa [hv, bodyLines] using all
  | true =>
    have last : g₁.Extends [.ret] n (g₁.pushInstr .ret) := .pushInstr body.counter .ret
    have all := (first.trans (of_extends last)).trans (ended last.counter)
    simpa [hv, bodyLines] using all

end Grows

namespace Walk

variable (cfg : Config) (f : Program.Function)

theorem ensures_parameters {pos : Position} {params : List (String × Kind)} :
    Ensures (parameters cfg pos params) fun c _ c' => ∃ Γ,
      c.core.scopes.parameters? cfg.maxLocals params = some Γ ∧
      c'.core = { c.core with scopes := Γ } := by
  induction params with
  | nil => exact .pure fun c => ⟨c.core.scopes, rfl, rfl⟩
  | cons param rest ih =>
    refine .bind ensures_insertLocal fun fits => .ite (fun _ => ?_) fun hn => ?_
    · refine .bind ensures_markTopAssigned fun _ => ih.mono ?_
      rintro c₂ _ c' ⟨Γ', others, core'⟩ c₁ core₁ c ⟨Γ, _, inserted, core⟩
      rw [core₁, core] at others core'
      refine ⟨Γ', ?_, core'⟩
      simp only [parameters?, inserted, others]
    · refine ih.mono ?_
      rintro c₁ _ c' _ c ⟨_, h, _⟩
      exact absurd h hn

theorem ensures_dumpScopes {title : String} :
    Ensures (dumpScopes title) fun c _ c' => c'.core = c.core :=
  .of_run (.modify (fun _ _ => rfl) (fun _ => rfl) (fun _ => rfl) fun _ => rfl) fun _ => rfl

/-- From the end of the body of a function to the end of its method. -/
def closeFunction (f : Program.Function) : Walk Unit := do
  match f.signature.result? with
  | some k =>
    if !Stmt.lastReturns f.body then
      error cfg .semaMissingReturn f.pos
        s!"function {Text.quoted f.name} must end with a return of {k.text}"
  | none => pure ()
  dumpScopes s!"fn {f.name}"
  leave cfg f.pos
  let _ ← emit cfg f.pos Emit.endFunction

/-- The last steps of every method. -/
def closeMethod (pos : Position) (title : String) (step : Emit Unit) : Walk Unit := do
  dumpScopes title
  leave cfg pos
  let _ ← emit cfg pos step

theorem ensures_closeMethod {pos : Position} {title : String} {step : Emit Unit} :
    Ensures (closeMethod cfg pos title step) fun c _ c' => ∃ g,
      step.Writes c.core.generator () g ∧
      c'.core = { c.core with scopes := c.core.scopes.leave, generator := g } := by
  refine .bind ensures_dumpScopes fun _ => .bind ensures_leave fun _ =>
    .bind ensures_emit fun _ => .pure ?_
  rintro c₃ c₂ ⟨_, g, _, writes, core₂⟩ c₁ core₁ c core
  rw [core₁, core] at writes core₂
  exact ⟨g, writes, core₂⟩

theorem ensures_closeFunction :
    Ensures (closeFunction cfg f) fun c _ c' =>
      (f.signature.result?.isSome → Stmt.lastReturns f.body) ∧
      ∃ g, endFunction.Writes c.core.generator () g ∧
        c'.core = { c.core with scopes := c.core.scopes.leave, generator := g } := by
  unfold closeFunction
  cases hr : f.signature.result? with
  | none => exact (ensures_closeMethod cfg).mono fun c _ c' h => ⟨by simp, h⟩
  | some k =>
    refine .ite (fun _ => ?_) fun returns =>
      (ensures_closeMethod cfg).mono fun c _ c' h => ⟨by simpa using returns, h⟩
    exact .bind (P := fun _ _ _ => False) ensures_error fun _ =>
      (ensures_closeMethod cfg).mono fun _ _ _ _ _ h => h.elim

def openFunction (f : Program.Function) : Walk Unit := do
  let _ ← emit cfg f.pos (Emit.beginFunction (some f.signature))
  enter true
  parameters cfg f.pos f.params

theorem functionBody_eq : functionBody cfg f = (do
      openFunction cfg f
      stmts cfg f.body
      closeFunction cfg f) := by
  unfold functionBody closeFunction
  cases f.signature.result? <;> rfl

theorem ensures_openFunction :
    Ensures (openFunction cfg f) fun c _ c' => f.signature.isStorable ∧ ∃ Γ,
      (c.core.scopes.enter true).parameters? cfg.maxLocals f.params = some Γ ∧
      c'.core = { c.core with
        scopes := Γ
        generator := opened c.core.generator ⟨f.signature.name, f.signature.ret⟩
          (.method f.signature.name f.signature.arity f.signature.result?.isSome) } := by
  refine .bind ensures_emit fun _ => .bind ensures_enter fun _ =>
    (ensures_parameters cfg).mono ?_
  rintro c₂ _ c' ⟨Γ, declared, core₂⟩ c₁ core₁ c ⟨_, g, _, writes, core⟩
  obtain ⟨-, storable, rfl⟩ := writes_beginFunction.mp writes
  rw [core₁, core] at declared core₂
  exact ⟨Signature.isStorable_iff.mpr storable, Γ, declared, core₂⟩

theorem isVoid_signature (f : Signature) :
    (⟨f.name, f.ret⟩ : MethodFrame).isVoid = !f.result?.isSome := by
  unfold MethodFrame.isVoid Signature.result?
  by_cases h : f.ret = .none <;> simp [h]

theorem ensures_functionBody :
    Ensures (functionBody cfg f) fun c _ c' => c.core.function = some f.signature → ∃ ts,
      c.core.scopes.body? cfg.maxLocals f = some ts ∧ c'.core.scopes = c.core.scopes ∧
      Grows c.core.generator
        ((method c.core.stem f.signature ts c.core.count).1.lines c.core.generator.options)
        (method c.core.stem f.signature ts c.core.count).2 c'.core.generator := by
  rw [functionBody_eq]
  refine .bind (ensures_openFunction cfg f) fun _ => .bind (ensures_stmts f.body) fun _ =>
    (ensures_closeFunction cfg f).mono ?_
  rintro c₂ _ c' ⟨returns, g, writes, core₂⟩ c₁ compiled c ⟨storable, Γ, declared, core₁⟩ function
  have inner := (declares_of_parameters? (inner_enter_ne _ true) declared).inner
  obtain ⟨Ts, Γ', resolved, run⟩ := compiled (by rw [core₁]; exact inner)
  have leaves : c₂.core.scopes.leave = c.core.scopes := by
    rw [run.scopes]
    have first := declares_of_parameters? (inner_enter_ne _ true) declared
    rw [core₁] at resolved
    exact (first.trans (declares_of_stmts? inner resolved)).leave_eq
  rw [core₁] at resolved run
  refine ⟨Ts, ?_, by rw [core₂]; exact leaves, ?_⟩
  · simp only [body?, declared]
    rw [show c.core.function = some f.signature from function] at resolved
    simp only [resolved]
    exact if_pos ⟨storable, returns⟩
  · have body : Generator.Extends _ (lowerAll c.core.stem Ts c.core.count).1
        (lowerAll c.core.stem Ts c.core.count).2 c₂.core.generator := run.writes
    have grows := Grows.method body writes
    rw [isVoid_signature] at grows
    rw [core₂]
    cases hr : f.signature.result?.isSome <;>
      simpa [method, Method.lines, hr] using grows

/-- A function was compiled: it is declared, and its method is written. -/
def FunctionCompiled (f : Program.Function) (c c' : Core) : Prop :=
  ∃ slot Γ ts, c.scopes.insert? (.function f.signature) = some (slot, Γ) ∧
    Γ.body? cfg.maxLocals f = some ts ∧ c'.scopes = Γ ∧ c'.function = none ∧
    Grows c.generator ((method c.stem f.signature ts c.count).1.lines c.generator.options)
      (method c.stem f.signature ts c.count).2 c'.generator

theorem ensures_setFunction {f : Option Signature} :
    Ensures (modify fun c => { c with function := f }) fun c _ c' =>
      c'.core = { c.core with function := f } :=
  .of_run (.modify (fun _ _ => rfl) (fun _ => rfl) (fun _ => rfl) fun _ => rfl) fun _ => rfl

theorem ensures_function :
    Ensures (function cfg f) fun c _ c' => FunctionCompiled cfg f c.core c'.core := by
  refine ensures_inSpan (.bind ensures_insert fun slot => .ite (fun _ => ?_)
    fun hn => ?_) id
  · refine .bind ensures_setFunction fun _ => .bind (ensures_functionBody cfg f) fun _ =>
      ensures_setFunction.mono ?_
    rintro c₃ _ c' core₃ c₂ body c₁ core₁ c ⟨slot', Γ, _, inserted, core⟩
    rw [core₁, core] at body
    obtain ⟨ts, resolved, scopes, grows⟩ := body rfl
    rw [core₃]
    exact ⟨slot', Γ, ts, inserted, resolved, scopes, rfl, grows⟩
  · exact .pure (by rintro c₁ c ⟨_, _, h, _⟩; simp [h] at hn)

/-- The methods are written in the order of the functions. -/
theorem ensures_functions (fs : List Program.Function) :
    Ensures (functions cfg fs) fun c _ c' => c.core.function = none → ∃ ms Γ n,
      c.core.scopes.methods? cfg.maxLocals c.core.stem c.core.count fs = some (ms, Γ, n) ∧
      c'.core.scopes = Γ ∧ c'.core.function = none ∧
      Grows c.core.generator (ms.flatMap (·.lines c.core.generator.options)) n
        c'.core.generator := by
  induction fs with
  | nil => exact .pure fun c function => ⟨[], _, _, rfl, rfl, function, .refl rfl⟩
  | cons f rest ih =>
    refine .bind (ensures_function cfg f) fun _ => ih.mono ?_
    rintro c₁ _ c' others c ⟨slot, Γ, ts, inserted, resolved, scopes, function, grows⟩ _
    obtain ⟨ms, Γ', n, resolved', scopes', function', grows'⟩ := others function
    rw [show c₁.core.stem = c.core.stem from grows.stem,
      show c₁.core.count = _ from grows.counter, scopes] at resolved'
    rw [grows.options] at grows'
    refine ⟨_ :: ms, Γ', n, ?_, scopes', function', grows.trans grows'⟩
    simp only [methods?, inserted, resolved, resolved', Option.map_some]

/-- From the end of the body of the entry point to the end of its method. -/
def closeMain (pos : Position) : Walk Unit := do
  dumpScopes "main"
  leave cfg pos
  let _ ← emit cfg pos Emit.endMain

def MainCompiled (body : List Stmt) (c c' : Core) : Prop :=
  c.function = none → ∃ Ts Γ,
    (c.scopes.enter true).stmts? cfg.maxLocals none body = some (Ts, Γ) ∧
    Grows c.generator (.entryPoint :: bodyLines c.generator.options
      ((lowerAll c.stem Ts c.count).1 ++ [.ret])) (lowerAll c.stem Ts c.count).2 c'.generator

theorem ensures_main {pos : Position} {body : List Stmt} :
    Ensures (main cfg pos body) fun c _ c' => MainCompiled cfg body c.core c'.core := by
  refine ensures_inSpan (.bind ensures_emit fun _ => .bind ensures_enter
    fun _ => .bind (ensures_stmts body) fun _ => (ensures_closeMethod cfg).mono ?_) id
  intro c₃ _ c' ⟨g', writes', core'⟩ c₂ compiled c₁ core₁ c ⟨_, g, _, writes, core⟩ function
  obtain ⟨-, rfl⟩ := writes_beginMain.mp writes
  obtain ⟨-, writes'⟩ := writes_endMain.mp writes'
  rw [core] at core₁
  obtain ⟨Ts, Γ, resolved, run⟩ := compiled (by rw [core₁]; exact inner_enter_ne _ true)
  rw [core₁] at resolved run
  rw [show c.core.function = none from function] at resolved
  have body : Generator.Extends _ (lowerAll c.core.stem Ts c.core.count).1
      (lowerAll c.core.stem Ts c.core.count).2 c₃.core.generator := run.writes
  have grows := Grows.method body writes'
  refine ⟨Ts, Γ, resolved, ?_⟩
  rw [core']
  exact grows

theorem ensures_globals (ds : List (Position × Program.Declaration)) :
    Ensures (globals cfg ds) fun c _ c' => c.core.scopes.stack.inner = [] → ∃ fields Γ,
      c.core.scopes.globals? ds = some (fields, Γ) ∧
      c'.core = { c.core with scopes := Γ, generator := pushFields c.core.generator fields } := by
  induction ds with
  | nil => exact .pure fun c _ => ⟨[], c.core.scopes, rfl, rfl⟩
  | cons d rest ih =>
    refine .bind (ensures_declare) fun _ => ih.mono fun c₁ _ c' others c declared
      top => ?_
    obtain ⟨fields, Γ, resolved, core⟩ := declared.atGlobal top
    rw [core] at others
    obtain ⟨fields', Γ', resolved', core'⟩ := others (inner_of_global? top resolved)
    refine ⟨fields ++ fields', Γ', ?_, ?_⟩
    · simp only [globals?, resolved, resolved']
    · rw [core']
      simp [pushFields]

/-- What a walk without error has written is the class that the program resolves to. -/
theorem ensures_program {p : Program} :
    Ensures (program cfg p) fun c _ c' => ∀ className o, c.Fresh className o → ∃ k,
      class? cfg.maxLocals o.withDefaults.labelStem p = some k ∧
      c'.core.generator.lines.toList.map (·.2) = k.lines o.withDefaults ∧
      c'.core.generator.className = className := by
  refine .bind ensures_emit fun _ => .bind (ensures_globals cfg p.globals) fun _ =>
    .bind (ensures_functions cfg p.functions) fun _ =>
      .bind (ensures_main cfg) fun _ => .bind ensures_emit fun _ =>
        .pure ?_
  intro c₅ c₄ ⟨_, g', _, writes', core₄⟩ c₃ compiled c₂ declared c₁ defined c
    ⟨_, g, _, writes, core⟩ className o fresh
  have scopes : c.core.scopes = ⟨{}, [0]⟩ := by
    rw [show c.core.scopes = ⟨c.stack, c.bases⟩ from rfl, fresh.stack, fresh.bases]
  have generator : c.core.generator = .new className o := fresh.generator
  have started := Grows.started rfl writes
  have options : g.options = o.withDefaults := started.options.trans (by rw [generator]; rfl)
  have stem : g.labels.stem = o.withDefaults.labelStem :=
    started.stem.trans (by rw [generator]; rfl)
  have count : g.labels.counter = 0 := started.counter.trans (by rw [generator]; rfl)
  rw [core] at defined
  obtain ⟨fields, Γ, fieldsEq, core₂⟩ := defined (by rw [scopes])
  have withFields := Grows.pushFields rfl (g := g) fields
  rw [core₂] at declared
  obtain ⟨ms, Γ', n, methodsEq, scopes₃, function₃, withMethods⟩ := declared fresh.function
  obtain ⟨Ts, Γ'', mainEq, withMain⟩ := compiled function₃
  have finished := Grows.finished withMain.counter writes'
  have all := started.trans (withFields.trans (withMethods.trans (withMain.trans finished)))
  have stem₂ : (pushFields g fields).labels.stem = o.withDefaults.labelStem :=
    withFields.stem.trans stem
  have options₂ : (pushFields g fields).options = o.withDefaults :=
    withFields.options.trans options
  have stem₃ : c₃.core.stem = o.withDefaults.labelStem := withMethods.stem.trans stem₂
  have options₃ : c₃.core.generator.options = o.withDefaults := withMethods.options.trans options₂
  refine ⟨⟨fields, ms, (lowerAll o.withDefaults.labelStem Ts n).1 ++ [.ret]⟩, ?_, ?_, ?_⟩
  · rw [scopes] at fieldsEq
    simp only [Core.stem, Core.count, stem₂, withFields.counter, count] at methodsEq
    rw [scopes₃] at mainEq
    simp only [class?, fieldsEq, methodsEq, mainEq]
  · rw [core₄, all.lines, generator]
    rw [stem₃, show c₃.core.count = n from withMethods.counter]
    simp [Class.lines, options₂, options₃, Generator.new]
  · rw [core₄, all.className, generator]
    rfl

end Walk

end Jasm.Compile

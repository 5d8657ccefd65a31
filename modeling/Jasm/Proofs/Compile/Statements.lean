import Jasm.Proofs.Compile.Passing

/-!
# Walks over statements

A walk over statements that ends well has written the code of their resolved forms, and left the
scopes as resolving leaves them. `Steps` says what is written between two points of a walk; runs of
statements are put together from it in the order in which they are walked.
-/

namespace Jasm.Compile

open Assembly Scopes TypedStmt List Option
open Program (Expr Stmt)

def Core.stem (c : Core) : String := c.generator.labels.stem

def Core.count (c : Core) : Nat := c.generator.labels.counter

/-- Between two points of a method, a walk has written `code`, which ends with a number of labels
handed out, and left the scopes `Γ`. It did not touch the first entries of the tables of branches
and loops. -/
structure Steps (ifs loops : Nat) (c : Core) (code : List Instruction × Nat) (Γ : Scopes)
    (c' : Core) : Prop where
  scopes : c'.scopes = Γ
  function : c'.function = c.function
  writes : c.generator.Extends code.1 code.2 c'.generator
  keeps : Generator.Keeps ifs loops c.generator c'.generator

namespace Steps

variable {ifs loops ifs' loops' : Nat} {c c₁ c₂ : Core} {code code₁ code₂ : List Instruction × Nat}
  {Γ Γ₁ Γ₂ : Scopes}

section

variable (h : Steps ifs loops c code Γ c₁)
include h

theorem count_eq : c₁.count = code.2 := h.writes.counter

theorem stem_eq : c₁.stem = c.stem := h.writes.stem

theorem mono (hi : ifs' ≤ ifs) (hl : loops' ≤ loops) :
    Steps ifs' loops' c code Γ c₁ :=
  ⟨h.scopes, h.function, h.writes, h.keeps.mono hi hl⟩

omit h in
theorem trans (first : Steps ifs loops c code₁ Γ₁ c₁) (second : Steps ifs loops c₁ code₂ Γ₂ c₂) :
    Steps ifs loops c (code₁.1 ++ code₂.1, code₂.2) Γ₂ c₂ :=
  ⟨second.scopes, second.function.trans first.function, first.writes.trans second.writes,
    first.keeps.trans second.keeps⟩

theorem congr (heq : code = code₁) :
    Steps ifs loops c code₁ Γ c₁ := heq ▸ h

end

theorem silent (core : c₁ = { c with scopes := Γ }) : Steps ifs loops c ([], c.count) Γ c₁ := by
  subst core
  exact ⟨rfl, rfl, .refl rfl, .refl⟩

theorem wrote {g : Generator} (core : c₁ = { c with generator := g }) (scopes : c.scopes = Γ)
    (h : c.generator.Extends code.1 code.2 g) (keeps : Generator.Keeps ifs loops c.generator g) :
    Steps ifs loops c code Γ c₁ := by
  subst core
  exact ⟨scopes, rfl, h, keeps⟩

theorem adds {g : Generator} (core : c₁ = { c with generator := g })
    (h : Emit.Adds c.generator code.1 code.2 g) : Steps ifs loops c code c.scopes c₁ :=
  .wrote core rfl h.toExtends (.of_eq h.ifs h.loops)

theorem size_le (h : Steps c.generator.ifs.size c.generator.loops.size c code Γ c₁) :
    c.generator.ifs.size ≤ c₁.generator.ifs.size ∧
      c.generator.loops.size ≤ c₁.generator.loops.size := h.keeps.size_le

end Steps

/-- What is written between two points of a method, all tables of before being kept. -/
abbrev Runs (c : Core) (code : List Instruction × Nat) (Γ : Scopes) (c' : Core) : Prop :=
  Steps c.generator.ifs.size c.generator.loops.size c code Γ c'

theorem Runs.trans {c c₁ c₂ : Core} {code₁ code₂ : List Instruction × Nat} {Γ₁ Γ₂ : Scopes}
    (first : Runs c code₁ Γ₁ c₁) (second : Runs c₁ code₂ Γ₂ c₂) :
    Runs c (code₁.1 ++ code₂.1, code₂.2) Γ₂ c₂ :=
  Steps.trans first (second.mono first.size_le.1 first.size_le.2)

namespace Walk

variable {cfg : Config} {pos : Position} {Γ : Scopes} {e : Expr} {t : Typed}
  {ss : List Stmt} {name : String} {kind : Kind} {cond : Expr} {id? : Option Nat}

/-! ## Simple statements -/

variable (cfg) in
/-- A statement was compiled: it resolves, and its code was written. -/
def Compiled (s : Stmt) (c c' : Core) : Prop :=
  c.scopes.stack.inner ≠ [] → ∃ T Γ, c.scopes.stmt? cfg.maxLocals c.function s = some (T, Γ) ∧
    Runs c (T.lower c.stem c.count) Γ c'

theorem value?_of_type? (h : Γ.type? e = some t) (writable : t.isWritable) :
    Γ.value? e = some t := by
  rw [value?, h, filter_some, if_pos writable]

theorem valueOf?_of_value? {kind : Kind} (h : Γ.value? e = some t) (hk : t.kind = kind) :
    Γ.valueOf? kind e = some t := by
  rw [valueOf?, h, filter_some, if_pos (by simpa using hk)]

theorem runs_of_wrote {c c' : State} {r : Option Unit} (h : Wrote t.emit c r c') : t.isWritable ∧
      Runs c.core (t.lower c.core.stem c.core.count) c.core.scopes c'.core := by
  obtain ⟨_, g, -, writes, core⟩ := h
  obtain ⟨writable, adds⟩ := t.spec_of_emit writes rfl rfl
  exact ⟨writable, .adds core adds⟩

theorem ensures_store :
    Ensures (store cfg pos name) fun c _ c' => ∃ l, c.core.scopes.locate? name = some l ∧
      Runs c.core ([storeCode name l], c.core.count) c.core.scopes c'.core := by
  refine ensures_ask ensures_find rfl ?_
  rintro ⟨depth, e⟩
  refine .get_bind (fun _ _ => rfl) fun s => .bind ensures_emit fun _ => .pure ?_
  rintro c₂ c₁ ⟨_, g, _, writes, core₁⟩ hs c found core
  subst hs
  rw [← core] at found ⊢
  exact ⟨_, congrArg _ found, .adds core₁ (adds_of_store writes rfl)⟩

theorem ensures_declareLocal {init : Option Typed} :
    Ensures (declareLocal cfg pos name kind init) fun c _ c' => ∃ Γ,
      c.core.scopes.insertLocal? cfg.maxLocals name kind = some Γ ∧
      match init with
      | none => c'.core = { c.core with scopes := Γ }
      | some t => t.isWritable ∧ ∃ l, Γ.locate? name = some l ∧
        Runs c.core ((TypedStmt.store t name l).lower c.core.stem c.core.count) Γ c'.core := by
  cases init with
  | none =>
    refine .bind ensures_insertLocal fun _ => .pure ?_
    exact fun c₁ c ⟨Γ, _, inserted, core⟩ => ⟨Γ, inserted, core⟩
  | some t =>
    refine .bind ensures_emit fun _ => ?_
    refine .bind ensures_insertLocal fun fits => .ite (fun _ => ?_) ?_
    · refine .bind ensures_markTopAssigned fun _ =>
        ensures_store.mono ?_
      rintro c₃ _ c' ⟨l, located, stored⟩ c₂ core₂ c₁ ⟨Γ, _, inserted, core₁⟩ c wrote
      obtain ⟨writable, first⟩ := runs_of_wrote wrote
      have second : Runs c₁.core ([], c₁.core.count) Γ c₃.core :=
        .silent (core₂.trans core₁)
      rw [first.scopes] at inserted
      rw [second.scopes] at located stored
      refine ⟨Γ, inserted, writable, l, located, (first.trans (second.trans stored)).congr ?_⟩
      simp only [lower, nil_append, second.count_eq, first.count_eq]
    · exact fun hn => .pure (by rintro c₂ c₁ ⟨Γ, hf, _⟩; simp [hf] at hn)

theorem ensures_typeInit {init : Option Expr} :
    Ensures (typeInit cfg pos name kind init) fun c r c' => c'.core = c.core ∧
      match init with
      | none => r = some none
      | some e => ∃ t, r = some (some t) ∧ c.core.scopes.type? e = some t ∧ t.kind = kind := by
  refine (ensures_of_asks asks_typeInit).mono ?_
  rintro c r c' ⟨typed, rfl, given, core⟩
  refine ⟨core, ?_⟩
  cases init with
  | none => exact given.symm
  | some e =>
    obtain ⟨t, ht, rfl⟩ := map_eq_some_iff.mp given
    obtain ⟨type, hk⟩ := filter_eq_some_iff.mp ht
    exact ⟨t, rfl, type, by simpa using hk⟩

def pushFields (g : Generator) (fields : List (String × Option Int32)) : Generator :=
  fields.foldl (fun g f => g.push (.field f.1 f.2)) g

variable (cfg) in
/-- A declaration was compiled: a local one as a statement, a global one as the fields it needs. -/
structure Declared (d : Program.Declaration) (c c' : Core) : Prop where
  inMethod : c.scopes.stack.inner ≠ [] → ∃ T Γ,
    c.scopes.declare? cfg.maxLocals d = some (T, Γ) ∧ Runs c (T.lower c.stem c.count) Γ c'
  atGlobal : c.scopes.stack.inner = [] → ∃ fields Γ, c.scopes.global? d = some (fields, Γ) ∧
    c' = { c with scopes := Γ, generator := pushFields c.generator fields }

theorem Declared.of_insert {d : Program.Declaration} {c c' : Core}
    (core : c' = { c with scopes := Γ })
    (here : c.scopes.declare? cfg.maxLocals d = some (.skip, Γ))
    (there : c.scopes.global? d = some ([], Γ)) : Declared cfg d c c' :=
  ⟨fun _ => ⟨.skip, Γ, here, (Steps.silent core).congr (by rw [lower])⟩,
    fun _ => ⟨[], Γ, there, core⟩⟩

theorem ensures_declareGlobal {init : Option Typed} :
    Ensures (declareGlobal cfg pos name kind init) fun c _ c' => ∃ slot Γ n,
      c.core.scopes.insert? (.newVariable name kind) = some (slot, Γ) ∧
      c'.core = { c.core with scopes := Γ, generator := pushFields c.core.generator [(name, n)] } ∧
      match init with
      | none => isStorable kind ∧ n = none
      | some t => isStorable t.kind ∧ t.static.intImage?.map some = some n := by
  refine .ite (fun _ => ensures_error_pure) fun _ => ?_
  refine .bind ensures_insert fun slot => .ite (fun hn => ?_) fun _ => ?_
  · exact .pure (by rintro _ _ ⟨_, _, h, _⟩; simp [h] at hn)
  · refine .bind ensures_markTopAssigned fun _ => .bind ensures_emit fun _ =>
      .pure ?_
    rintro c₃ c₂ ⟨_, g, _, writes, core₂⟩ c₁ core₁ c ⟨slot', Γ, _, inserted, core⟩
    rw [core₂, core₁, core]
    rw [core₁, core] at writes
    cases init with
    | none =>
      obtain ⟨-, storable, rfl⟩ := Emit.writes_declareGlobal.mp writes
      exact ⟨slot', Γ, none, inserted, rfl, storable, rfl⟩
    | some t =>
      obtain ⟨-, storable, n, image, rfl⟩ := Emit.writes_declareGlobalInit.mp writes
      exact ⟨slot', Γ, some n, inserted, rfl, storable, by rw [image]; rfl⟩

theorem ensures_declareVariable {init : Option Expr} :
    Ensures (declareVariable cfg pos name kind init) fun c _ c' =>
      Declared cfg (.variable name kind init) c.core c'.core := by
  refine .ite (fun _ => ensures_error_pure) fun storable => ?_
  have storable : isStorable kind := by simpa using storable
  refine .bind ensures_typeInit fun r => ?_
  cases r with
  | none => exact .pure (by rintro _ _ ⟨_, h⟩; cases init <;> simp at h)
  | some typed =>
    refine .get_bind (fun _ _ => rfl) fun s => .ite (fun top => ?_) fun inside => ?_
    · refine ensures_declareGlobal.mono ?_
      rintro c₁ _ c' ⟨slot, Γ, n, inserted, core₁, image⟩ hs c ⟨core, typing⟩
      subst hs
      rw [core] at inserted core₁
      have top : c.core.scopes.stack.inner = [] := by
        rw [← core]
        exact List.isEmpty_iff.mp top
      refine ⟨fun inner => absurd top inner, fun _ => ⟨[(name, n)], Γ, ?_, core₁⟩⟩
      have image : c.core.scopes.image? kind init = some n := by
        cases init with
        | none =>
          cases typing
          exact congrArg some image.2.symm
        | some e =>
          obtain ⟨t, ht, type, hk⟩ := typing
          cases ht
          simpa [image?, type, filter_some, hk] using image.2
      simp only [global?, image, inserted, storable, if_true]
    · refine ensures_declareLocal.mono ?_
      rintro c₁ _ c' ⟨Γ, inserted, done⟩ hs c ⟨core, typing⟩
      subst hs
      rw [core] at inserted done
      have inside : c.core.scopes.stack.inner ≠ [] := by
        rw [← core]
        exact fun h => inside (List.isEmpty_iff.mpr h)
      refine ⟨fun _ => ?_, fun top => absurd top inside⟩
      simp only [declare?, storable, if_true]
      cases init with
      | none =>
        cases typing
        refine ⟨.skip, Γ, by rw [local?, inserted]; rfl, ?_⟩
        exact (Steps.silent done).congr (by rw [lower])
      | some e =>
        obtain ⟨t, ht, type, hk⟩ := typing
        cases ht
        obtain ⟨writable, l, located, run⟩ := done
        have value := valueOf?_of_value? (value?_of_type? type writable) hk
        refine ⟨.store t name l, Γ, ?_, run⟩
        simp only [local?, value, inserted, located, map_some]

theorem ensures_declareConstant {kind : Option Kind} {init : Expr} :
    Ensures (declareConstant cfg pos name kind init) fun c _ c' =>
      Declared cfg (.constant name kind init) c.core c'.core := by
  refine ensures_ask ensures_typeExpr rfl fun t => ?_
  cases hk : kind.filter (· ≠ t.static.kind) with
  | some k => simp only [hk]; exact ensures_error
  | none =>
    simp only [hk]
    refine .ite (fun _ => ensures_error) fun known => ?_
    have known : t.static.isInit := by simpa using known
    rw [Symbol.newConstant, if_pos known]
    refine .bind ensures_insert fun _ => .pure ?_
    rintro c₂ c₁ ⟨slot, Γ, _, inserted, core₁⟩ c type core
    rw [core] at inserted core₁
    have agree : ∀ k ∈ kind, k = t.kind := by
      intro k hmem
      rw [mem_def.mp hmem] at hk
      simpa [filter_some, Typed.kind] using hk
    have declared : c.core.scopes.constant? name kind init = some Γ := by
      simp only [constant?, type, inserted]
      exact if_pos ⟨agree, known⟩
    exact .of_insert core₁ (by rw [declare?, declared]; rfl)
      (by rw [global?, declared]; rfl)

theorem ensures_declareArray {length : Nat} {values : List Value} :
    Ensures (declareArray cfg pos name kind length values) fun c _ c' =>
      Declared cfg (.array name kind length values) c.core c'.core := by
  unfold declareArray
  cases hn : ArrayVar.new name kind length with
  | error f => exact ensures_error
  | ok a =>
    refine .bind ensures_allocate fun _ => ?_
    cases hf : fillArray a 0 values with
    | error f => exact ensures_error
    | ok a =>
      refine .bind ensures_insert fun _ => .pure ?_
      rintro c₁ c₀ ⟨slot, Γ, _, inserted, core⟩ c same
      rw [same] at inserted core
      have declared : c.core.scopes.array? name kind length values = some Γ := by
        simp only [array?, hn, hf, inserted, map_some]
      exact .of_insert core (by rw [declare?, declared]; rfl)
        (by rw [global?, declared]; rfl)

theorem ensures_declare {d : Program.Declaration} :
    Ensures (declare cfg pos d) fun c _ c' => Declared cfg d c.core c'.core := by
  cases d with
  | «variable» name kind init => exact ensures_declareVariable
  | constant name kind init => exact ensures_declareConstant
  | array name kind length values => exact ensures_declareArray

theorem ensures_findTarget :
    Ensures (findTarget cfg pos name) fun c r c' => c'.core = c.core ∧ ∃ depth form id v slot,
      c.core.scopes.stack.find? name = some (depth, ⟨form, .variable id v, slot⟩) ∧
      r = some (depth, v.kind) := by
  refine (ensures_of_asks asks_findTarget).mono ?_
  rintro c r c' ⟨target, rfl, resolved, core⟩
  obtain ⟨depth, form, id, v, slot, found, rfl⟩ := target?_eq_some resolved
  exact ⟨core, depth, form, id, v, slot, found, rfl⟩

theorem ensures_assign {e : Expr} :
    Ensures (assign cfg pos name e) fun c _ c' =>
      Compiled cfg (.assign pos name e) c.core c'.core := by
  refine .bind ensures_typeExpr fun typed => ?_
  refine .bind ensures_findTarget fun target => ?_
  rcases typed with _ | t <;> rcases target with _ | ⟨depth, kind⟩
  case some.some =>
    refine .ite (fun _ => ensures_error) fun hk => ?_
    have hk : t.kind = kind := by simpa using hk
    refine .bind ensures_emit fun _ => .bind ensures_markAssigned fun _ =>
      ensures_store.mono ?_
    rintro c₄ _ c' ⟨l, located, stored⟩ c₃ core₃ c₂ wrote c₁
      ⟨core₁, depth', form, id, v, slot, found, target⟩ c ⟨_, h, type, core⟩
    cases h
    cases target
    obtain ⟨writable, run⟩ := runs_of_wrote wrote
    rw [core₁, core] at run
    rw [core] at found
    rw [core₃, run.scopes] at located stored
    rw [locate?, found] at located
    have located : c.core.scopes.location _ _ = l := Option.some.inj located
    have value := valueOf?_of_value? (value?_of_type? type writable) hk
    refine fun _ => ⟨.store t name l, c.core.scopes, ?_, (run.trans stored).congr ?_⟩
    · simp only [stmt?, assign?, found, value, map_some, located]
    · simp only [lower, run.count_eq]
  all_goals exact .pure (by rintro _ _ ⟨_, _, _, _, _, _, _, h⟩ _ ⟨_, h', _⟩; simp at h h')

theorem ensures_print {newline : Bool} {e : Expr} :
    Ensures (print cfg pos newline e) fun c _ c' =>
      Compiled cfg (.print pos newline e) c.core c'.core := by
  refine ensures_ask ensures_typeExpr rfl fun t => ?_
  refine .bind ensures_emit fun _ => .pure ?_
  rintro c₂ c₁ ⟨_, g, _, writes, core₁⟩ c type core
  rw [core] at writes core₁
  obtain ⟨_, g₁, h₁, writes⟩ := Emit.writes_bind.mp writes
  obtain ⟨_, g₂, h₂, h₃⟩ := Emit.writes_bind.mp writes
  have e₁ := Emit.adds_of_printBegin rfl h₁
  obtain ⟨writable, e₂⟩ := t.spec_of_emit h₂ e₁.counter e₁.stem
  have value := value?_of_type? type writable
  obtain ⟨what, hw, e₃⟩ := Emit.adds_of_printEnd e₂.counter h₃
  refine fun _ => ⟨.print t newline, c.core.scopes, ?_, .adds core₁ ?_⟩
  · simp [stmt?, value, filter_some, hw]
  · rw [lower, hw]
    exact e₁.trans (e₂.trans e₃)

theorem ensures_condition {e : Expr} :
    Ensures (condition cfg pos e) fun c _ c' => ∃ t, c.core.scopes.valueOf? .boolean e = some t ∧
      Runs c.core (t.lower c.core.stem c.core.count) c.core.scopes c'.core := by
  refine ensures_ask ensures_typeExpr rfl fun t => ?_
  refine .ite (fun _ => ensures_error) fun hk => .bind ensures_emit
    fun _ => .pure ?_
  rintro c₂ c₁ wrote c type core
  obtain ⟨writable, run⟩ := runs_of_wrote wrote
  rw [core] at run
  exact ⟨t, valueOf?_of_value? (value?_of_type? type writable) (by simpa using hk), run⟩

theorem ensures_ret {e : Option Expr} :
    Ensures (ret cfg pos e) fun c _ c' => Compiled cfg (.ret pos e) c.core c'.core := by
  have void (c c' : State) (hf : c.core.function.bind Signature.result? = none)
      {r : Option Unit} (wrote : Wrote Emit.returnVoid c r c') :
      Compiled cfg (.ret pos none) c.core c'.core := by
    obtain ⟨_, g, -, writes, core⟩ := wrote
    obtain ⟨-, -, rfl⟩ := Emit.writes_returnVoid.mp writes
    refine fun _ => ⟨.ret none, c.core.scopes, ?_, .adds core ?_⟩
    · simp only [stmt?, ret?, hf, map_some]
    · rw [lower]
      exact .pushInstr rfl .ret
  refine .get_bind (fun _ _ => rfl) fun s => ?_
  cases hf : s.function with
  | none =>
    refine .ite (fun _ => ensures_error) fun he => ?_
    refine .bind ensures_emit fun _ => .pure fun c₁ c wrote hs => ?_
    subst hs
    cases e with
    | none => exact void c c₁ (by rw [show c.core.function = none from hf]; rfl) wrote
    | some e => simp at he
  | some f =>
    show Ensures (returnFrom cfg pos f e) _
    unfold returnFrom
    cases hr : f.result? with
    | none =>
      cases e with
      | some e => exact ensures_error
      | none =>
        refine .bind ensures_emit fun _ => .pure fun c₁ c wrote hs => ?_
        subst hs
        exact void c c₁ (by rw [show c.core.function = some f from hf]; exact hr) wrote
    | some want =>
      cases e with
      | none => exact ensures_error
      | some e =>
        refine ensures_ask ensures_typeExpr rfl fun t => ?_
        refine .ite (fun _ => ensures_error) fun hk =>
          .bind ensures_emit fun _ => .pure ?_
        rintro c₂ c₁ ⟨_, g, _, writes, core₁⟩ c type core hs
        subst hs
        rw [core] at writes core₁
        obtain ⟨_, g₁, h₁, h₂⟩ := Emit.writes_bind.mp writes
        obtain ⟨-, -, rfl⟩ := Emit.writes_returnValue.mp h₂
        obtain ⟨writable, e₁⟩ := t.spec_of_emit h₁ rfl rfl
        have value := valueOf?_of_value? (value?_of_type? type writable)
          (show t.kind = want by simpa using hk)
        refine fun _ => ⟨.ret (some t), c.core.scopes, ?_, .adds core₁ ?_⟩
        · simp only [stmt?, ret?, value, map_some,
            show c.core.function.bind Signature.result? = some want by
              rw [show c.core.function = some f from hf]; exact hr]
        · rw [lower]
          exact e₁.trans (.pushInstr e₁.counter .retValue)

theorem ensures_call {args : List Expr} :
    Ensures (call cfg pos name args) fun c _ c' =>
      Compiled cfg (.call pos name args) c.core c'.core := by
  refine ensures_ask (ensures_of_asks asks_typeCall) rfl ?_
  rintro ⟨f, ts⟩
  refine .bind ensures_emit fun _ => .pure ?_
  rintro c₂ c₁ ⟨_, g, _, writes, core₁⟩ c passed core
  obtain ⟨function, types, kinds⟩ := passed?_eq_some passed
  rw [core] at writes core₁
  obtain ⟨_, g₁, h₁, writes⟩ := Emit.writes_bind.mp writes
  obtain ⟨_, g₂, h₂, h₃⟩ := Emit.writes_bind.mp writes
  obtain ⟨writable, e₁⟩ := spec_of_emitArgs ts h₁ rfl rfl
  have e₂ := adds_of_invoke h₂ e₁.counter
  obtain ⟨-, -, storable, -⟩ := Emit.writes_invoke.mp h₂
  have dropped : Emit.Adds g₂ (if f.result?.isSome then [.pop] else [])
      (lowerArgs c.core.stem ts c.core.count).2 g := by
    split at h₃
    · next hr =>
        obtain ⟨-, rfl⟩ := Emit.writes_pop.mp h₃
        rw [if_pos hr]
        exact .pushInstr e₂.counter .pop
    · next hr =>
        obtain ⟨-, rfl⟩ := Emit.writes_pure.mp h₃
        rw [if_neg hr]
        exact .refl e₂.counter
  refine fun _ => ⟨.call f ts, c.core.scopes, ?_, .adds core₁ ?_⟩
  · simp only [stmt?, call?, function, types]
    rw [if_pos ⟨kinds, Signature.isStorable_iff.mpr storable, writable⟩]
    rfl
  · rw [lower]
    exact e₁.trans (e₂.trans dropped)

/-! ## The parts of branches and loops

A branch or a loop is walked in parts, between which its bodies are walked. -/

section

variable (cfg) (pos)

/-- From the beginning of a branch to its first body. -/
def openThen (cond : Expr) : Walk (Option Nat) := do
  condition cfg pos cond
  let id ← emit cfg pos Emit.ifBegin
  enter false
  return id

def openElse (id : Option Nat) : Walk Unit := do
  leave cfg pos
  let _ ← emit cfg pos (Emit.otherwise id)
  enter false

def closeBranch (id : Option Nat) : Walk Unit := do
  leave cfg pos
  let _ ← emit cfg pos (Emit.ifEnd id)

def openLoop (cond : Expr) : Walk (Option Nat) := do
  let id ← emit cfg pos Emit.loopBegin
  condition cfg pos cond
  let _ ← emit cfg pos (Emit.loopTest id)
  enter false
  return id

def closeLoop (id : Option Nat) : Walk Unit := do
  leave cfg pos
  let _ ← emit cfg pos (Emit.loopEnd id)

end

def point (s : Stmt) : Walk Unit :=
  modify fun c => { c with recorder := c.recorder.point .stmt s.tag s.pos.path c.span }

theorem stmt_branch {thenBody elseBody : List Stmt} :
    stmt cfg (.branch pos cond thenBody elseBody) = (do
      point (.branch pos cond thenBody elseBody)
      let id ← openThen cfg pos cond
      stmts cfg thenBody
      if elseBody.isEmpty then closeBranch cfg pos id
      else
        openElse cfg pos id
        stmts cfg elseBody
        closeBranch cfg pos id) := by
  rw [stmt]
  cases elseBody <;> rfl

theorem stmt_loop {body : List Stmt} :
    stmt cfg (.loop pos cond body) = (do
      point (.loop pos cond body)
      let id ← openLoop cfg pos cond
      stmts cfg body
      closeLoop cfg pos id) := by
  rw [stmt]
  rfl

theorem stmt_block {body : List Stmt} :
    stmt cfg (.block pos body) = (do
      point (.block pos body)
      enter false
      stmts cfg body
      leave cfg pos) := by
  rw [stmt]
  rfl

theorem ensures_point {s : Stmt} : Ensures (point s) fun c _ c' => c'.core = c.core :=
  .of_run (.modify (fun _ _ => rfl) (fun _ => rfl) (fun _ => rfl) fun _ => rfl) fun _ => rfl

/-- From the beginning of a branch to its first body: behind the condition there is a jump to a new
label, which the entry of the branch remembers. -/
structure OpenedThen (t : Typed) (id : Nat) (Γ : Scopes) (c c' : Core) : Prop where
  new : c.generator.ifs.size ≤ id
  runs : Runs c ((t.lower c.stem c.count).1 ++
      [.branch .eq (labelOf c.stem (t.lower c.stem c.count).2)], (t.lower c.stem c.count).2 + 1)
    (Γ.enter false) c'
  entry : c'.generator.ifs[id]? =
    some { falseTarget := labelOf c.stem (t.lower c.stem c.count).2 }

/-- Between two bodies the second one is reached from the condition, and jumped over by the first
one if control comes to its end. -/
def OpenedElse (id loops : Nat) (Γ : Scopes) (c c' : Core) : Prop :=
  ∀ b, c.generator.ifs[id]? = some b →
    Steps id loops c
      (if c.generator.terminal then ([.label b.falseTarget], c.count)
        else ([.goto (labelOf c.stem c.count), .label b.falseTarget], c.count + 1))
      (Γ.enter false) c' ∧
    c'.generator.ifs[id]? = some { b with
      hasElse := true
      join := if c.generator.terminal then b.join else some (labelOf c.stem c.count) }

/-- From the last body of a branch to its end, where its label is if it still has one. -/
def ClosedBranch (id loops : Nat) (Γ : Scopes) (c c' : Core) : Prop :=
  ∀ b, c.generator.ifs[id]? = some b →
    Steps id loops c
      ((if b.hasElse then b.join else some b.falseTarget).toList.map .label, c.count) Γ c'

theorem ensures_openThen :
    Ensures (openThen cfg pos cond) fun c r c' => ∃ t id,
      c.core.scopes.valueOf? .boolean cond = some t ∧ r = some id ∧
      OpenedThen t id c.core.scopes c.core c'.core := by
  refine .bind ensures_condition fun _ => .bind ensures_emit fun id =>
    .bind ensures_enter fun _ => .pure ?_
  rintro c₃ c₂ entered c₁ ⟨id', g, hid, writes, core₁⟩ c ⟨t, value, test⟩
  obtain ⟨e, rfl, ifs, loops⟩ := Emit.extends_of_ifBegin test.count_eq writes
  have stem : c₁.core.generator.labels.stem = c.core.stem := test.stem_eq
  rw [stem] at e ifs
  have second : Runs c₁.core
      ([.branch .eq (labelOf c.core.stem (t.lower c.core.stem c.core.count).2)],
        (t.lower c.core.stem c.core.count).2 + 1) c.core.scopes c₂.core :=
    .wrote core₁ test.scopes e (.of_ifs loops (.inr ⟨rfl, ifs⟩))
  have third : Runs c₂.core ([], c₂.core.count) (c.core.scopes.enter false) c₃.core := by
    rw [← second.scopes]
    exact .silent entered
  refine ⟨t, _, value, hid, test.size_le.1, ((test.trans second).trans third).congr ?_, ?_⟩
  · simp only [append_nil, second.count_eq]
  · rw [entered, core₁]
    simp [ifs]

theorem ensures_openElse :
    Ensures (openElse cfg pos id?) fun c _ c' => ∀ id loops, id? = some id →
      OpenedElse id loops c.core.scopes.leave c.core c'.core := by
  refine .bind ensures_leave fun _ => .bind ensures_emit fun _ =>
    ensures_enter.mono ?_
  rintro c₂ _ c₃ entered c₁ ⟨_, g, _, writes, core₁⟩ c left id loops hid b hb
  subst hid
  rw [left] at writes core₁
  obtain ⟨hl, e⟩ := Emit.extends_of_otherwise rfl hb writes
  have lt : id < c.core.generator.ifs.size := (Array.getElem?_eq_some_iff.mp hb).1
  have hg : c₃.core.generator = g := by rw [entered, core₁]
  have hs : c₃.core.scopes = c.core.scopes.leave.enter false := by rw [entered, core₁]
  have hf : c₃.core.function = c.core.function := by rw [entered, core₁]
  cases ht : c.core.generator.terminal with
  | true =>
    simp only [ht, if_true] at e ⊢
    rw [hg, e.2]
    exact ⟨⟨hs, hf, hg ▸ e.1, hg ▸ .of_ifs hl (.inl e.2)⟩, by simp [lt]⟩
  | false =>
    simp only [ht, Bool.false_eq_true, if_false] at e ⊢
    rw [hg, e.2]
    exact ⟨⟨hs, hf, hg ▸ e.1, hg ▸ .of_ifs hl (.inl e.2)⟩, by simp [lt]; rfl⟩

theorem ensures_closeBranch :
    Ensures (closeBranch cfg pos id?) fun c _ c' => ∀ id loops, id? = some id →
      ClosedBranch id loops c.core.scopes.leave c.core c'.core := by
  refine .bind ensures_leave fun _ => .bind ensures_emit fun _ => .pure ?_
  rintro c₂ c₁ ⟨_, g, _, writes, core₁⟩ c left id loops hid b hb
  subst hid
  rw [left] at writes core₁
  obtain ⟨e, ifs, hl⟩ := Emit.extends_of_ifEnd rfl hb writes
  rw [core₁]
  exact ⟨rfl, rfl, e, .of_ifs hl (.inl ifs)⟩

theorem ensures_openLoop :
    Ensures (openLoop cfg pos cond) fun c r c' => ∃ t id,
      c.core.scopes.valueOf? .boolean cond = some t ∧ r = some id ∧
      c.core.generator.loops.size ≤ id ∧
      Runs c.core (.label (labelOf c.core.stem c.core.count) ::
          (t.lower c.core.stem (c.core.count + 2)).1 ++
          [.branch .eq (labelOf c.core.stem (c.core.count + 1))],
        (t.lower c.core.stem (c.core.count + 2)).2) (c.core.scopes.enter false) c'.core ∧
      ∃ l, c'.core.generator.loops[id]? = some l ∧ l.head = labelOf c.core.stem c.core.count ∧
        l.exit = labelOf c.core.stem (c.core.count + 1) := by
  refine .bind ensures_emit fun id => .bind ensures_condition fun _ => ?_
  cases id with
  | none =>
    refine .bind ensures_emit fun _ => .bind ensures_enter fun _ => .pure ?_
    rintro c₄ c₃ _ c₂ _ c₁ _ c ⟨_, _, h, _⟩
    cases h
  | some id =>
    refine .bind ensures_emit fun _ => .bind ensures_enter fun _ => .pure ?_
    rintro c₄ c₃ entered c₂ ⟨_, g', _, writes', core₂⟩ c₁ ⟨t, value, test⟩ c
      ⟨id', g, hid, writes, core⟩
    cases hid
    obtain ⟨e, rfl, loops, ifs⟩ := Emit.extends_of_loopBegin rfl writes
    have first : Runs c.core ([.label (labelOf c.core.stem c.core.count)], c.core.count + 2)
        c.core.scopes c₁.core := .wrote core rfl e (.of_loops ifs (.inr ⟨rfl, loops⟩))
    rw [first.scopes, first.stem_eq, first.count_eq] at test
    rw [first.scopes] at value
    have lt : c.core.generator.loops.size < c₁.core.generator.loops.size := by
      rw [core]
      simp [loops]
    have entry : c₂.core.generator.loops[c.core.generator.loops.size]? =
        some { head := labelOf c.core.stem c.core.count,
               exit := labelOf c.core.stem (c.core.count + 1) } := by
      rw [test.keeps.loops _ lt, core, loops, Array.getElem?_push_size]
      rfl
    obtain ⟨e', loops', ifs'⟩ := Emit.extends_of_loopTest test.count_eq entry writes'
    have third : Steps c.core.generator.ifs.size c.core.generator.loops.size c₂.core
        ([.branch .eq (labelOf c.core.stem (c.core.count + 1))],
          (t.lower c.core.stem (c.core.count + 2)).2) c.core.scopes c₃.core :=
      .wrote core₂ test.scopes e' (.of_loops ifs' (.inl loops'))
    have fourth : Steps c.core.generator.ifs.size c.core.generator.loops.size c₃.core
        ([], c₃.core.count) (c.core.scopes.enter false) c₄.core := by
      rw [← third.scopes]
      exact .silent entered
    refine ⟨t, _, value, rfl, Nat.le_refl _,
      ((Steps.trans (first.trans test) third).trans fourth).congr ?_, ?_⟩
    · simp only [append_nil, cons_append, nil_append, third.count_eq]
    · have lt' : c.core.generator.loops.size < c₂.core.generator.loops.size :=
        (Array.getElem?_eq_some_iff.mp entry).1
      rw [show c₄.core.generator = g' by rw [entered, core₂], loops',
        Array.getElem?_setIfInBounds_self_of_lt lt']
      exact ⟨_, rfl, rfl, rfl⟩

theorem ensures_closeLoop :
    Ensures (closeLoop cfg pos id?) fun c _ c' => ∀ id ifs l, id? = some id →
      c.core.generator.loops[id]? = some l →
      Steps ifs id c.core ([.goto l.head, .label l.exit], c.core.count) c.core.scopes.leave
        c'.core := by
  refine .bind ensures_leave fun _ => .bind ensures_emit fun _ => .pure ?_
  rintro c₂ c₁ ⟨_, g, _, writes, core₁⟩ c left id ifs l hid hl
  subst hid
  rw [left] at writes core₁
  obtain ⟨e, loops, hi⟩ := Emit.extends_of_loopEnd rfl hl writes
  rw [core₁]
  exact ⟨rfl, rfl, e, .of_loops hi (.inl loops)⟩

/-! ## All statements -/

variable (cfg) in
def CompiledAll (ss : List Stmt) (c c' : Core) : Prop :=
  c.scopes.stack.inner ≠ [] → ∃ Ts Γ, c.scopes.stmts? cfg.maxLocals c.function ss = some (Ts, Γ) ∧
    Runs c (lowerAll c.stem Ts c.count) Γ c'

theorem CompiledAll.in_scope {c c₁ c₂ : Core} {code : List Instruction × Nat} {ifs loops : Nat}
    (first : Steps ifs loops c code (Γ.enter false) c₁) (h : CompiledAll cfg ss c₁ c₂) :
    ∃ Ts Γ₁, (Γ.enter false).stmts? cfg.maxLocals c.function ss = some (Ts, Γ₁) ∧
      Runs c₁ (lowerAll c.stem Ts code.2) Γ₁ c₂ ∧ c₂.scopes.leave = Γ := by
  have inner : c₁.scopes.stack.inner ≠ [] := first.scopes ▸ inner_enter_ne Γ false
  obtain ⟨Ts, Γ₁, resolved, run⟩ := h inner
  have leaves : c₂.scopes.leave = Γ := by
    rw [run.scopes]
    rw [first.scopes] at resolved
    exact (declares_of_stmts? (inner_enter_ne Γ false) resolved).leave_eq
  rw [first.scopes, first.function] at resolved
  rw [first.stem_eq, first.count_eq] at run
  exact ⟨Ts, Γ₁, resolved, run, leaves⟩

section

variable {t : Typed} {first second : List TypedStmt} {c c₁ c₂ c₃ c₄ c₅ : Core}
  {Γ Γ₁ Γ₂ : Scopes} {id : Nat}

theorem runs_branch_nil (opened : OpenedThen t id Γ c c₁)
    (body : Runs c₁ (lowerAll c.stem first ((t.lower c.stem c.count).2 + 1)) Γ₁ c₂)
    (closed : ClosedBranch id c.generator.loops.size Γ c₂ c₃) :
    Runs c ((branch t first []).lower c.stem c.count) Γ c₃ := by
  obtain ⟨le, opened, entry⟩ := opened
  have lt : id < c₁.generator.ifs.size := (Array.getElem?_eq_some_iff.mp entry).1
  have last := closed _ ((body.keeps.ifs id lt).trans entry)
  refine (Steps.trans (opened.trans body) (last.mono le (Nat.le_refl _))).congr ?_
  simp [lower, body.count_eq]

theorem runs_branch_cons {s : TypedStmt} (opened : OpenedThen t id Γ c c₁)
    (body : Runs c₁ (lowerAll c.stem first ((t.lower c.stem c.count).2 + 1)) Γ₁ c₂)
    (between : OpenedElse id c.generator.loops.size Γ c₂ c₃)
    (body' : Runs c₃ (lowerAll c₃.stem (s :: second) c₃.count) Γ₂ c₄)
    (closed : ClosedBranch id c.generator.loops.size Γ c₄ c₅) :
    Runs c ((branch t first (s :: second)).lower c.stem c.count) Γ c₅ := by
  obtain ⟨le, opened, entry⟩ := opened
  have lt : id < c₁.generator.ifs.size := (Array.getElem?_eq_some_iff.mp entry).1
  obtain ⟨jump, entry₃⟩ := between _ ((body.keeps.ifs id lt).trans entry)
  have lt₃ : id < c₃.generator.ifs.size := (Array.getElem?_eq_some_iff.mp entry₃).1
  have last := closed _ ((body'.keeps.ifs id lt₃).trans entry₃)
  -- The first body is a jump away from the condition, so only its own last instruction counts.
  have terminal : c₂.generator.terminal =
      endsTerminal (lowerAll c.stem first ((t.lower c.stem c.count).2 + 1)).1 := by
    rw [body.writes.terminal, opened.writes.terminal, endsTerminal]
    simp [Instruction.isTerminal]
  have le' : c.generator.ifs.size ≤ c₃.generator.ifs.size := Nat.le_trans le (Nat.le_of_lt lt₃)
  have lel : c.generator.loops.size ≤ c₃.generator.loops.size := by
    refine Nat.le_of_not_lt fun gt => ?_
    have kept := (Steps.trans (opened.trans body) (jump.mono le (Nat.le_refl _))).keeps.loops _ gt
    simp [gt] at kept
  have all := ((Steps.trans (opened.trans body) (jump.mono le (Nat.le_refl _))).trans
    (body'.mono le' lel)).trans (last.mono le (Nat.le_refl _))
  have stem₃ : c₃.stem = c.stem := jump.stem_eq.trans (body.stem_eq.trans opened.stem_eq)
  have stem₂ : c₂.stem = c.stem := body.stem_eq.trans opened.stem_eq
  refine all.congr ?_
  rw [lower]
  cases ht : c₂.generator.terminal with
  | true =>
    have count₃ : c₃.count = c₂.count := by simpa [ht] using jump.count_eq
    simp [← terminal, ht, stem₃, count₃, body.count_eq, body'.count_eq]
  | false =>
    have count₃ : c₃.count = c₂.count + 1 := by simpa [ht] using jump.count_eq
    simp [← terminal, ht, stem₂, stem₃, count₃, body.count_eq, body'.count_eq]

end

theorem ensures_simple {s : Stmt} {m : Walk Unit}
    (h : Ensures m fun c _ c' => Compiled cfg s c.core c'.core) :
    Ensures (do point s; m) fun c _ c' => Compiled cfg s c.core c'.core :=
  .bind ensures_point fun _ => h.mono fun _ _ _ compiled _ core => core ▸ compiled

theorem stmts?_nil_iff {limit : Int} {f : Option Signature} {Γ' : Scopes} {Ts : List TypedStmt}
    (h : Γ.stmts? limit f ss = some (Ts, Γ')) :
    Ts = [] ↔ ss = [] := by
  cases ss with
  | nil =>
    simp only [stmts?] at h
    cases h
    simp
  | cons s rest =>
    obtain ⟨T, Γ₁, others, -, -, rfl⟩ := stmts?_cons h
    simp

mutual

/-- What is walked without error was compiled, one case for each form. -/
theorem ensures_stmt : (s : Stmt) →
    Ensures (stmt cfg s) fun c _ c' => Compiled cfg s c.core c'.core
  | .declare pos d => by
    rw [stmt]
    refine ensures_simple (ensures_declare.mono fun c _ c' declared inner => ?_)
    simpa only [stmt?] using declared.inMethod inner
  | .assign pos name e => by
    rw [stmt]
    exact ensures_simple ensures_assign
  | .print pos newline e => by
    rw [stmt]
    exact ensures_simple ensures_print
  | .ret pos e => by
    rw [stmt]
    exact ensures_simple ensures_ret
  | .call pos name args => by
    rw [stmt]
    exact ensures_simple ensures_call
  | .block pos body => by
    rw [stmt_block]
    refine .bind ensures_point fun _ => .bind ensures_enter fun _ =>
      .bind (ensures_stmts body) fun _ => ensures_leave.mono
        fun c₃ _ c' left c₂ compiled c₁ entered c core _ => ?_
    rw [core] at entered
    have opened : Runs c.core ([], c.core.count) (c.core.scopes.enter false) c₂.core :=
      .silent entered
    obtain ⟨Ts, Γ, resolved, run, leaves⟩ := compiled.in_scope opened
    have closed : Runs c₃.core ([], c₃.core.count) c.core.scopes c'.core :=
      leaves ▸ .silent left
    refine ⟨.block Ts, c.core.scopes, ?_, (opened.trans (run.trans closed)).congr ?_⟩
    · simp only [stmt?, resolved]
    · simp [lower, run.count_eq]
  | .loop pos cond body => by
    rw [stmt_loop]
    refine .bind ensures_point fun _ => .bind ensures_openLoop fun id =>
      .bind (ensures_stmts body) fun _ => ensures_closeLoop.mono ?_
    rintro c₃ _ c' close c₂ compiled c₁
      ⟨t, i, value, hid, le, opened, l, entry, head, exit⟩ c core _
    rw [core] at value le opened head exit
    obtain ⟨Ts, Γ, resolved, run, leaves⟩ := compiled.in_scope opened
    have lt : i < c₂.core.generator.loops.size := (Array.getElem?_eq_some_iff.mp entry).1
    have closed := close i c.core.generator.ifs.size l hid ((run.keeps.loops i lt).trans entry)
    rw [leaves, head, exit] at closed
    refine ⟨.loop t Ts, c.core.scopes, ?_,
      (Steps.trans (opened.trans run) (closed.mono (Nat.le_refl _) le)).congr ?_⟩
    · simp only [stmt?, value, resolved]
    · simp [lower, run.count_eq]
  | .branch pos cond thenBody elseBody => by
    rw [stmt_branch]
    refine .bind ensures_point fun _ => .bind ensures_openThen fun id =>
      .bind (ensures_stmts thenBody) fun _ => .ite (fun none => ?_) fun some => ?_
    · refine ensures_closeBranch.mono ?_
      rintro c₃ _ c' close c₂ compiled c₁ ⟨t, i, value, hid, opened⟩ c core _
      rw [core] at value opened
      obtain ⟨Ts, Γ, resolved, run, leaves⟩ := compiled.in_scope opened.runs
      rw [leaves] at close
      refine ⟨.branch t Ts [], c.core.scopes, ?_, runs_branch_nil opened run (close i _ hid)⟩
      rw [List.isEmpty_iff.mp none]
      simp only [stmt?, value, resolved, stmts?]
    · refine .bind ensures_openElse fun _ => .bind (ensures_stmts elseBody) fun _ =>
        ensures_closeBranch.mono ?_
      rintro c₅ _ c' close c₄ compiled' c₃ between c₂ compiled c₁
        ⟨t, i, value, hid, opened⟩ c core _
      rw [core] at value opened
      obtain ⟨Ts, Γ, resolved, run, leaves⟩ := compiled.in_scope opened.runs
      rw [leaves] at between
      have lt : i < c₂.core.generator.ifs.size := (Array.getElem?_eq_some_iff.mp opened.entry).1
      have jump := (between i c.core.generator.loops.size hid _
        ((run.keeps.ifs i lt).trans opened.entry)).1
      obtain ⟨Ts', Γ', resolved', run', leaves'⟩ := compiled'.in_scope jump
      rw [leaves'] at close
      rw [← jump.count_eq, ← jump.stem_eq] at run'
      rw [run.function, opened.runs.function] at resolved'
      refine ⟨.branch t Ts Ts', c.core.scopes, ?_, ?_⟩
      · simp only [stmt?, value, resolved, resolved']
      · cases Ts' with
        | nil => exact absurd (List.isEmpty_iff.mpr ((stmts?_nil_iff resolved').mp rfl)) some
        | cons s rest =>
          exact runs_branch_cons opened run (between i _ hid) run' (close i _ hid)

theorem ensures_stmts : (ss : List Stmt) →
    Ensures (stmts cfg ss) fun c _ c' => CompiledAll cfg ss c.core c'.core
  | [] => by
    rw [stmts]
    refine .pure fun c _ => ⟨[], c.core.scopes, by simp only [stmts?], ?_⟩
    exact (Steps.silent rfl).congr (by rw [lowerAll])
  | s :: rest => by
    rw [stmts]
    refine .bind ensures_poll fun _ => .ite (fun _ => ?_) fun hn => ?_
    · refine .bind (ensures_stmt s) fun _ => (ensures_stmts rest).mono ?_
      rintro c₂ _ c' others c₁ first c ⟨_, core⟩ inner
      rw [core] at first
      obtain ⟨T, Γ, resolved, run⟩ := first inner
      have declares := declares_of_stmt? inner resolved
      obtain ⟨Ts, Γ', resolved', run'⟩ := others (by rw [run.scopes]; exact declares.inner)
      rw [run.scopes, run.function] at resolved'
      rw [run.stem_eq, run.count_eq] at run'
      refine ⟨T :: Ts, Γ', ?_, (run.trans run').congr (by rw [lowerAll])⟩
      simp only [stmts?, resolved, resolved']
    · exact .pure fun c₁ c ⟨h, _⟩ => absurd h hn

end

end Walk

end Jasm.Compile

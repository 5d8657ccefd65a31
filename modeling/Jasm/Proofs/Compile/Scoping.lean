import Jasm.Proofs.Compile.Stages

/-!
# Scopes behind a statement

Whatever happens while a statement is walked, be it that something is wrong with it or that the walk
is cancelled inside of it, the scopes opened for its parts are closed behind it. What is left of a
statement in the scopes is one symbol at most: that of a declaration, in the innermost scope.
-/

namespace Jasm

open Program (Expr Stmt)

namespace Stack

variable {σ : Type} (st : Stack σ) (s : Scope σ)

/-- The scopes around the innermost one, from the inside out. -/
def below : List (Scope σ) :=
  match st.inner with
  | [] => []
  | _ :: rest => rest ++ [st.global]

@[simp] theorem depth_setTop : (st.setTop s).depth = st.depth := by
  unfold depth setTop
  cases st.inner <;> rfl

@[simp] theorem top_setTop : (st.setTop s).top = s := by
  unfold top setTop
  cases st.inner <;> rfl

@[simp] theorem below_setTop : (st.setTop s).below = st.below := by
  unfold below setTop
  cases st.inner <;> rfl

theorem find?_setTop {name : String} (h : s.get? name = st.top.get? name) :
    (st.setTop s).find? name = st.find? name := by
  unfold top at h
  unfold find? setTop
  cases hi : st.inner
  all_goals
    rw [hi] at h
    simp only [findIn]
    rw [h]
    rfl

end Stack

namespace Program

/-- What a statement declares behind itself. -/
def Stmt.declaration? : Stmt → Option Declaration
  | .declare _ d => some d
  | _ => none

/-- A symbol is what a statement leaves declared behind it. -/
def Stmt.Introduces (s : Stmt) (x : Symbol) : Prop := ∃ d ∈ s.declaration?, d.Introduces x

end Program

namespace Compile

variable {α β : Type} {P : Symbol → Prop} {m : Walk α}

/-- From wherever it starts, a step leaves the scopes as they are. -/
def Undisturbed (m : Walk α) : Prop := ∀ c, Leads m c fun _ c' => c'.scopes = c.scopes

/-- From wherever it starts, a step declares one symbol of a sort at most. -/
def Introducing (P : Symbol → Prop) (m : Walk α) : Prop :=
  ∀ c, Leads m c fun _ c' => c.scopes.Gains P c'.scopes

namespace Undisturbed

variable {m m' : Walk α} {k : α → Walk β}

theorem pure {a : α} : Undisturbed (pure a : Walk α) := fun _ => rfl

theorem bind (first : Undisturbed m) (second : ∀ a, Undisturbed (k a)) :
    Undisturbed (m >>= k) := fun c => (second _ _).trans (first c)

theorem get_bind {k : State → Walk β} (h : ∀ c, Undisturbed (k c)) :
    Undisturbed ((MonadState.get : Walk State) >>= k) := fun c => h c c

theorem ite {p : Prop} [Decidable p] (yes : Undisturbed m) (no : Undisturbed m') :
    Undisturbed (if p then m else m') := by
  split
  · exact yes
  · exact no

theorem of_still {limit : Int} (h : ∀ c, Leads m c fun _ => Still limit .any (fun _ => True) c) :
    Undisturbed m := fun c => (h c).mono fun _ _ still => still.scopes

theorem introducing_bind {P : Symbol → Prop} (first : Undisturbed m)
    (second : ∀ a, Introducing P (k a)) : Introducing P (m >>= k) := by
  intro c
  have gains : Scopes.Gains P _ ((k (m.run c).1).run (m.run c).2).2.scopes := second _ _
  rw [show (m.run c).2.scopes = c.scopes from first c] at gains
  exact gains

theorem introducing {P : Symbol → Prop} (h : Undisturbed m) : Introducing P m :=
  fun c => .inl (h c)

end Undisturbed

theorem Introducing.bind {k : α → Walk β} (first : Introducing P m)
    (second : ∀ a, Undisturbed (k a)) : Introducing P (m >>= k) := by
  intro c
  have same : ((k (m.run c).1).run (m.run c).2).2.scopes = (m.run c).2.scopes := second _ _
  show Scopes.Gains P _ ((k (m.run c).1).run (m.run c).2).2.scopes
  rw [same]
  exact first c

theorem Introducing.mono {P' : Symbol → Prop} (h : Introducing P m) (weaker : ∀ x, P x → P' x) :
    Introducing P' m := by
  intro c
  rcases h c with same | ⟨x, slot, hx, inserted⟩
  · exact .inl same
  · exact .inr ⟨x, slot, weaker x hx, inserted⟩

theorem Introducing.ite {p : Prop} [Decidable p] {m' : Walk α} (yes : Introducing P m)
    (no : Introducing P m') : Introducing P (if p then m else m') := by
  split
  · exact yes
  · exact no

namespace Walk

variable (cfg : Config) (pos : Position) {P : Symbol → Prop} {c : State} {Γ : Scopes}
  (name : String)

/-! ## Simple statements -/

theorem undisturbed_error (code : Code) (message : String) :
    Undisturbed (error cfg code pos message) := fun _ => rfl

theorem undisturbed_emit {step : Assembly.Emit α} : Undisturbed (emit cfg pos step) := by
  intro c
  unfold Leads
  cases hf : c.failed with
  | true => rw [run_emit_of_failed cfg pos step hf]
  | false =>
    rw [run_emit cfg pos step hf]
    rcases step.run.run c.generator with ⟨f | a, g⟩ <;> rfl

theorem undisturbed_emit_unit {step : Assembly.Emit α} :
    Undisturbed (do let _ ← emit cfg pos step) :=
  .bind (undisturbed_emit cfg pos) fun _ => .pure

theorem undisturbed_store : Undisturbed (store cfg pos name) :=
  .of_still fun _ => leads_store fun _ _ _ => .inr trivial

theorem undisturbed_assign (e : Expr) :
    Undisturbed (assign cfg pos name e) :=
  .of_still fun c => leads_assign c.livesIn_all name e

theorem undisturbed_print {newline : Bool} (e : Expr) :
    Undisturbed (print cfg pos newline e) :=
  .of_still fun c => leads_print c.livesIn_all newline e

theorem undisturbed_ret (e : Option Expr) : Undisturbed (ret cfg pos e) :=
  .of_still fun c => leads_ret c.livesIn_all e

theorem undisturbed_call {args : List Expr} :
    Undisturbed (call cfg pos name args) :=
  .of_still fun c => leads_call c.livesIn_all name args

/-! ## Declarations -/

theorem introducing_insert {x : Symbol} (hx : P x) :
    Introducing P (insert cfg pos x) := by
  intro c
  rcases leads_insert cfg pos (c := c) (A := .any) (S := fun _ => True) x with
    ⟨-, -, still⟩ | ⟨slot, -, inserted, -, -⟩
  · exact .inl still.scopes
  · exact .inr ⟨x, slot, hx, inserted⟩

theorem introducing_insertLocal {name : String} {kind : Kind} (hx : P (.newVariable name kind)) :
    Introducing P (insertLocal cfg pos name kind) := by
  refine .bind (introducing_insert cfg pos hx) fun slot => ?_
  cases slot with
  | none => exact .pure
  | some slot =>
    refine .get_bind fun _ => .ite .pure ?_
    exact .bind (undisturbed_error cfg pos _ _) fun _ => .pure

theorem introducing_declareGlobal {kind : Kind} {init : Option Typed} :
    Introducing (· = .newVariable name kind) (declareGlobal cfg pos name kind init) := by
  refine .ite (undisturbed_error cfg pos _ _).introducing ?_
  refine .bind (introducing_insert cfg pos rfl) fun _ => .ite .pure ?_
  exact .bind (fun _ => rfl) fun _ => undisturbed_emit_unit cfg pos

theorem introducing_declareLocal {kind : Kind} {init : Option Typed} :
    Introducing (· = .newVariable name kind) (declareLocal cfg pos name kind init) := by
  cases init with
  | none => exact .bind (introducing_insertLocal cfg pos rfl) fun _ => .pure
  | some t =>
    apply (undisturbed_emit cfg pos).introducing_bind
    intro _
    refine .bind (introducing_insertLocal cfg pos rfl) fun _ => .ite ?_ .pure
    exact .bind (fun _ => rfl) fun _ => undisturbed_store cfg pos name

theorem introducing_declare (d : Program.Declaration) :
    Introducing d.Introduces (declare cfg pos d) := by
  have failing (code : Code) (message : String) : Introducing d.Introduces _ :=
    (undisturbed_error cfg pos code message).introducing
  cases d with
  | «variable» name kind init =>
    refine .ite (failing _ _) ?_
    have asks : Undisturbed (typeInit cfg pos name kind init) := fun c =>
      (Leads.of_asked safe_typeInit).1.scopes
    apply asks.introducing_bind
    intro typed
    cases typed with
    | none => exact Undisturbed.pure.introducing
    | some init =>
      refine Undisturbed.introducing_bind (fun _ => rfl) fun c => .ite ?_ ?_
      · exact introducing_declareGlobal cfg pos name
      · exact introducing_declareLocal cfg pos name
  | constant name kind init =>
    exact fun c => (leads_declareConstant (A := .any)
      (S := fun _ => True)).mono fun _ _ stage => stage.scopes
  | array name kind length values =>
    exact fun c => (leads_declareArray (A := .any)
      (S := fun _ => True)).mono fun _ _ stage => stage.scopes

/-! ## Statements -/

variable {cfg pos}

theorem undisturbed_poll : Undisturbed poll := .of_still fun _ => leads_poll ⟨"", 0⟩

theorem undisturbed_point {s : Stmt} : Undisturbed (point s) := fun _ => rfl

theorem scopes_enclosed {opening : Walk α} {body : Walk Unit} {closing : α → Walk Unit}
    {Q : State → Prop} (opens : Leads opening c fun _ c₁ => c₁.scopes = Γ.enter false)
    (declares : ∀ c₁, c₁.stack.inner ≠ [] → Leads body c₁ fun _ c₂ => c₁.scopes.Declares c₂.scopes)
    (closes : ∀ a c₂, c₂.stack.inner ≠ [] → c₂.scopes.leave = Γ → Leads (closing a) c₂ fun _ => Q) :
    Leads (do let a ← opening; body; closing a) c fun _ => Q := by
  refine opens.bind fun a c₁ opened => ?_
  have inner : c₁.scopes.stack.inner ≠ [] := by
    rw [opened]
    exact Scopes.inner_enter_ne Γ false
  refine (declares c₁ inner).bind fun _ c₂ body => closes a c₂ body.inner ?_
  rw [opened] at body
  exact body.leave_enter

theorem scopes_leave (inner : c.stack.inner ≠ []) :
    Leads (leave cfg pos) c fun _ c' => c'.scopes = c.scopes.leave :=
  (leads_leave inner (A := .any) (S := fun _ => True)).mono fun _ _ stage => stage.scopes

theorem scopes_leave_emit {step : Assembly.Emit α} (inner : c.stack.inner ≠ [])
    (left : c.scopes.leave = Γ) :
    Leads (do leave cfg pos; let _ ← emit cfg pos step) c fun _ c' => c'.scopes = Γ := by
  refine (scopes_leave inner).bind fun _ c₁ closed => ?_
  exact (undisturbed_emit_unit cfg pos c₁).mono fun _ c₂ same => by rw [same, closed, left]

theorem scopes_enter (c : State) :
    Leads (enter false) c fun _ c₁ => c₁.scopes = c.scopes.enter false := rfl

theorem scopes_openThen {cond : Expr} (c : State) :
    Leads (openThen cfg pos cond) c fun _ c₁ => c₁.scopes = c.scopes.enter false :=
  (leads_openThen cfg pos c.livesIn_all cond (A := .any)).mono fun _ _ stage => stage.scopes

theorem scopes_openElse {id : Option Nat} (inner : c.stack.inner ≠ []) (left : c.scopes.leave = Γ) :
    Leads (openElse cfg pos id) c fun _ c₁ => c₁.scopes = Γ.enter false := by
  refine (scopes_leave inner).bind fun _ c₁ closed => ?_
  refine (undisturbed_emit cfg pos c₁).bind fun _ c₂ same => ?_
  show (c₂.scopes.enter false) = _
  rw [same, closed, left]

theorem scopes_openLoop {cond : Expr} (c : State) :
    Leads (openLoop cfg pos cond) c fun _ c₁ => c₁.scopes = c.scopes.enter false :=
  (leads_openLoop c.livesIn_all cond (A := .any)).mono fun _ _ stage => stage.scopes

variable (cfg)

mutual

/-- A statement declares at most what it introduces, one case for each form. -/
theorem introducing_stmt : (s : Stmt) → Introducing s.Introduces (stmt cfg s)
  | .declare pos d => by
    rw [stmt]
    refine undisturbed_point.introducing_bind fun _ => ?_
    exact (introducing_declare cfg pos d).mono fun _ introduces => ⟨d, rfl, introduces⟩
  | .assign pos name e => by
    rw [stmt]
    exact (undisturbed_point.bind fun _ =>
      undisturbed_assign cfg pos name e).introducing
  | .print pos newline e => by
    rw [stmt]
    exact (undisturbed_point.bind fun _ =>
      undisturbed_print cfg pos e).introducing
  | .ret pos e => by
    rw [stmt]
    exact (undisturbed_point.bind fun _ =>
      undisturbed_ret cfg pos e).introducing
  | .call pos name args => by
    rw [stmt]
    exact (undisturbed_point.bind fun _ =>
      undisturbed_call cfg pos name).introducing
  | .branch pos cond thenBody elseBody => by
    rw [stmt_branch]
    refine undisturbed_point.introducing_bind fun _ c => ?_
    refine (scopes_enclosed (scopes_openThen c) (declares_stmts thenBody)
      fun id c₁ inner left => ?_).mono fun _ _ => .inl
    refine .ite (fun _ => scopes_leave_emit inner left) fun _ => ?_
    -- The second body is walked in the scopes that the first one has left.
    exact scopes_enclosed (scopes_openElse inner left) (declares_stmts elseBody)
      fun _ _ inner left => scopes_leave_emit inner left
  | .loop pos cond body => by
    rw [stmt_loop]
    refine undisturbed_point.introducing_bind fun _ c => ?_
    exact (scopes_enclosed (scopes_openLoop c) (declares_stmts body)
      fun _ _ inner left => scopes_leave_emit inner left).mono fun _ _ => .inl
  | .block pos body => by
    rw [stmt_block]
    refine undisturbed_point.introducing_bind fun _ c => ?_
    refine (scopes_enclosed (scopes_enter c) (declares_stmts body)
      fun _ c₁ inner left => ?_).mono fun _ _ => .inl
    rw [← left]
    exact scopes_leave inner

/-- Whatever statements declare is in the innermost scope. -/
theorem declares_stmts : (ss : List Stmt) → (c : State) → c.stack.inner ≠ [] →
    Leads (stmts cfg ss) c fun _ c' => c.scopes.Declares c'.scopes
  | [], c, inner => by
    rw [stmts]
    exact .pure (.refl inner)
  | s :: rest, c, inner => by
    rw [stmts]
    refine (undisturbed_poll c).bind fun goesOn c₁ same => ?_
    rw [← same]
    have inner : c₁.scopes.stack.inner ≠ [] := by rw [same]; exact inner
    refine .ite (fun _ => ?_) fun _ => .pure (.refl inner)
    refine (introducing_stmt s c₁).bind fun _ c₂ gains => ?_
    have declares := gains.declares inner
    exact (declares_stmts rest c₂ declares.inner).mono fun _ _ => declares.trans

end

/-- Behind a statement there are as many open scopes as before it, and those around the innermost
one are the same. The innermost one is the same, too, or it has one entry more, which is what the
statement itself declares. Every name that the statement does not declare itself is found as
before. -/
theorem stmt_restores_scopes (s : Stmt) (c : State) :
    let c' := ((stmt cfg s).run c).2
    c'.stack.depth = c.stack.depth ∧ c'.bases = c.bases ∧ c'.stack.below = c.stack.below ∧
    (c'.stack.top = c.stack.top ∨ ∃ d x slot, s.declaration? = some d ∧ d.Introduces x ∧
      x.name = d.name ∧ c.stack.top.get? d.name = none ∧
      c'.stack.top = c.stack.top.push x.declaration slot) ∧
    ∀ name, name ∉ s.declaration?.map Program.Declaration.name →
      c'.stack.find? name = c.stack.find? name := by
  intro c'
  have gains : c.scopes.Gains s.Introduces c'.scopes := introducing_stmt cfg s c
  rcases gains with same | ⟨x, slot, ⟨d, declares, introduces⟩, inserted⟩
  · have stack : c'.stack = c.stack := congrArg Scopes.stack same
    have bases : c'.bases = c.bases := congrArg Scopes.bases same
    rw [stack, bases]
    exact ⟨rfl, rfl, rfl, .inl rfl, fun _ _ => rfl⟩
  · obtain ⟨new, -, gained⟩ := Scopes.insert?_eq_some inserted
    have stack : c'.stack = c.stack.setTop (c.stack.top.push x.declaration slot) :=
      congrArg Scopes.stack gained
    have bases : c'.bases = c.bases := congrArg Scopes.bases gained
    have name_eq : x.name = d.name := introduces.name_eq
    rw [stack, bases, Stack.depth_setTop, Stack.below_setTop, Stack.top_setTop]
    refine ⟨rfl, rfl, rfl, .inr ⟨d, x, slot, declares, introduces, name_eq, ?_, rfl⟩, ?_⟩
    · rw [← name_eq]
      exact new
    · intro name other
      apply Stack.find?_setTop
      rw [Scope.get?_push, if_neg]
      intro same
      have same : name = d.name := same.trans name_eq
      exact other (by simp [Option.mem_def.mp declares, same])

end Walk

end Compile

end Jasm

import Jasm.Proofs.Compile.Classes
import Jasm.Proofs.Compile.Stages

/-!
# Local variables along a walk

A trail is the list of the states at which a walk passes from one of its parts to the next. Between
two neighbouring states the scopes change at most once. All along the trail of a program the live
local variables have the slots from zero on without a gap, the code accesses no other slot, and the
parameters of a function come first.
-/

namespace Jasm.Compile

open Assembly Program Scopes Emit List

namespace Walk

variable {α : Type} (cfg : Config) (pos : Position) {c : State}

/-! ## Trails -/

def behind (m : Walk α) (c : State) : State := (m.run c).2

/-- A local variable with a value: the states behind the value, the declaration and the store. -/
def localTrail (name : String) (kind : Kind) (t : Typed) (c : State) : List State :=
  let c₁ := behind (emit cfg pos t.emit) c
  [c₁, behind (insertLocal cfg pos name kind) c₁,
    behind (declareLocal cfg pos name kind (some t)) c]

def declareTrail : Program.Declaration → State → List State
  | .variable name kind init, c =>
    match isStorable kind, (typeInit cfg pos name kind init).run c with
    | true, (some (some t), c₁) => c₁ :: localTrail cfg pos name kind t c₁
    | _, _ => [behind (declareVariable cfg pos name kind init) c]
  | .constant name kind init, c => [behind (declareConstant cfg pos name kind init) c]
  | .array name kind length values, c => [behind (declareArray cfg pos name kind length values) c]

def reopen (id : Option Nat) : Walk Unit := do
  let _ ← emit cfg pos (otherwise id)
  enter false

/-- A body between a part that opens its scope and one that closes it. -/
def bodyTrail (opening : Walk α) (body : Walk Unit) (inner : State → List State)
    (closing : α → Walk Unit) (c : State) : List State :=
  let c₁ := behind opening c
  c₁ :: (inner c₁ ++ [behind (closing (opening.run c).1) (behind body c₁)])

def branchTrail (cond : Expr) (thenBody elseBody : List Stmt)
    (first second : State → List State) (c : State) : List State :=
  if elseBody.isEmpty then
    bodyTrail (openThen cfg pos cond) (stmts cfg thenBody) first (closeBranch cfg pos) c
  else
    let id := ((openThen cfg pos cond).run c).1
    let c₁ := behind (do let _ ← openThen cfg pos cond; stmts cfg thenBody; leave cfg pos) c
    bodyTrail (openThen cfg pos cond) (stmts cfg thenBody) first (fun _ => leave cfg pos) c ++
      bodyTrail (reopen cfg pos id) (stmts cfg elseBody) second (fun _ => closeBranch cfg pos id) c₁

mutual

/-- The states of the walk over a statement, behind the one at its beginning. -/
def stmtTrail : Stmt → State → List State
  | .declare pos d, c =>
    let c₁ := behind (point (.declare pos d)) c
    c₁ :: declareTrail cfg pos d c₁
  | .branch pos cond thenBody elseBody, c =>
    let c₁ := behind (point (.branch pos cond thenBody elseBody)) c
    c₁ :: branchTrail cfg pos cond thenBody elseBody (stmtsTrail thenBody) (stmtsTrail elseBody) c₁
  | .loop pos cond body, c =>
    let c₁ := behind (point (.loop pos cond body)) c
    c₁ :: bodyTrail (openLoop cfg pos cond) (stmts cfg body) (stmtsTrail body)
      (closeLoop cfg pos) c₁
  | .block pos body, c =>
    let c₁ := behind (point (.block pos body)) c
    c₁ :: bodyTrail (enter false) (stmts cfg body) (stmtsTrail body) (fun _ => leave cfg pos) c₁
  | .assign pos name e, c => [behind (stmt cfg (.assign pos name e)) c]
  | .print pos newline e, c => [behind (stmt cfg (.print pos newline e)) c]
  | .ret pos e, c => [behind (stmt cfg (.ret pos e)) c]
  | .call pos name args, c => [behind (stmt cfg (.call pos name args)) c]

def stmtsTrail : List Stmt → State → List State
  | [], _ => []
  | s :: rest, c =>
    let c₁ := behind poll c
    c₁ :: if (poll.run c).1 then stmtTrail s c₁ ++ stmtsTrail rest (behind (stmt cfg s) c₁) else []

end

/-- A parameter is declared and has a value from the start. -/
def parameter (name : String) (kind : Kind) : Walk Unit := do
  if ← insertLocal cfg pos name kind then markTopAssigned name

def parametersTrail : List (String × Kind) → State → List State
  | [], _ => []
  | (name, kind) :: rest, c =>
    let c₁ := behind (parameter cfg pos name kind) c
    c₁ :: parametersTrail rest c₁

def openFrame (header : Emit Unit) : Walk Unit := do
  let _ ← emit cfg pos header
  enter true

def inside (name : String) (c : State) : State :=
  { c with
    recorder := (c.recorder.start .pass name c.span).2
    span := (c.recorder.start .pass name c.span).1.id }

def declared (f : Function) (c : State) : State :=
  { behind (insert cfg f.pos (.function f.signature)) (inside s!"fn {f.name}" c) with
    function := some f.signature }

def opened (f : Function) (c : State) : State :=
  behind (openFrame cfg f.pos (beginFunction (some f.signature))) (declared cfg f c)

/-- The state at the beginning of the body of a function, behind its parameters. -/
def bodyStart (f : Function) (c : State) : State :=
  behind (parameters cfg f.pos f.params) (opened cfg f c)

def methodTrail (f : Function) (c : State) : List State :=
  opened cfg f c :: (parametersTrail cfg f.pos f.params (opened cfg f c) ++
    stmtsTrail cfg f.body (bodyStart cfg f c) ++
    [behind (closeFunction cfg f) (behind (stmts cfg f.body) (bodyStart cfg f c))])

/-- The states of the walk over a function. There is no method for a function whose name is
taken. -/
def functionTrail (f : Function) (c : State) : List State :=
  let c₁ := inside s!"fn {f.name}" c
  let inserted := (insert cfg f.pos (.function f.signature)).run c₁
  c₁ :: inserted.2 ::
    ((if inserted.1.isSome then declared cfg f c :: methodTrail cfg f c else []) ++
    [behind (function cfg f) c])

def functionsTrail : List Function → State → List State
  | [], _ => []
  | f :: rest, c => functionTrail cfg f c ++ functionsTrail rest (behind (function cfg f) c)

def mainTrail (body : List Stmt) (c : State) : List State :=
  let c₁ := inside "main" c
  let c₂ := behind (openFrame cfg pos beginMain) c₁
  let c₃ := behind (stmts cfg body) c₂
  c₁ :: c₂ :: (stmtsTrail cfg body c₂ ++
    [behind (closeMain cfg pos) c₃, behind (main cfg pos body) c])

def globalsTrail : List (Position × Program.Declaration) → State → List State
  | [], _ => []
  | (pos, d) :: rest, c =>
    let c₁ := behind (declare cfg pos d) c
    c₁ :: globalsTrail rest c₁

/-- The states of the walk over a whole program, behind the one at its beginning. -/
def programTrail (p : Program) (c : State) : List State :=
  let c₁ := behind (emit cfg {} programStart) c
  let c₂ := behind (globals cfg p.globals) c₁
  let c₃ := behind (functions cfg p.functions) c₂
  c₁ :: (globalsTrail cfg p.globals c₁ ++ functionsTrail cfg p.functions c₂ ++
    mainTrail cfg p.mainPos p.main c₃ ++ [behind (program cfg p) c])

end Walk

/-! ## Going along a trail -/

/-- A walk goes from one state to another through the states of a list. All of them have the local
variables of `base` first. -/
inductive Passes (limit : Int) (A : Stock) (base : List (String × Nat)) :
    State → List State → State → Prop where
  | nil (c : State) : Passes limit A base c [] c
  | cons {c c₁ c₂ : State} {xs : List State} :
      Stage limit A (· < slotsIn c₁.stack.inner) Moves c c₁ →
      base <+: localsIn c₁.stack.inner →
      Passes limit A base c₁ xs c₂ → Passes limit A base c (c₁ :: xs) c₂

/-- Something was declared in the innermost scope of a method, behind what was there. -/
structure Scopes.Adds (Γ Γ' : Scopes) : Prop extends Γ.Declares Γ' where
  locals : localsIn Γ.stack.inner <+: localsIn Γ'.stack.inner

namespace Scopes.Adds

variable {Γ Γ₁ Γ₂ : Scopes}

theorem refl (inside : Γ.stack.inner ≠ []) : Adds Γ Γ := ⟨.refl inside, prefix_refl _⟩

theorem of_eq (inside : Γ.stack.inner ≠ []) (h : Γ₁ = Γ) : Adds Γ Γ₁ := by
  subst h
  exact .refl inside

theorem trans (first : Adds Γ Γ₁) (second : Adds Γ₁ Γ₂) : Adds Γ Γ₂ :=
  ⟨first.toDeclares.trans second.toDeclares, first.locals.trans second.locals⟩

theorem of_inserts (laid : Γ.Laid) (inside : Γ.stack.inner ≠ []) (h : Γ.Inserts Γ₁) :
    Adds Γ Γ₁ := by
  rcases h with rfl | ⟨x, slot, h⟩
  · exact .refl inside
  · refine ⟨declares_of_insert? inside h, ?_⟩
    obtain ⟨new, -, rfl⟩ := insert?_eq_some h
    obtain ⟨⟨_ | ⟨s, rest⟩, global⟩, bases⟩ := Γ
    · exact absurd rfl inside
    · have own := Scope.frameVars_push (d := x.declaration) slot
        (laid.inner s mem_cons_self) new (slotsIn rest)
      simp only [Stack.setTop, Stack.top, headD_cons, localsIn, own]
      rw [← append_assoc]
      exact prefix_append _ _

end Scopes.Adds

/-- The states of a walk that may declare something in the innermost scope of a method. -/
abbrev Walks (limit : Int) (A : Stock) (c : State) (xs : List State) (c₁ : State) : Prop :=
  Passes limit A (localsIn c.stack.inner) c xs c₁ ∧ c.scopes.Adds c₁.scopes

namespace Passes

variable {limit : Int} {A : Stock} {base base' : List (String × Nat)} {c c₁ c₂ : State}
  {xs ys : List State}

theorem trans (first : Passes limit A base c xs c₁) (second : Passes limit A base c₁ ys c₂) :
    Passes limit A base c (xs ++ ys) c₂ := by
  induction first with
  | nil => exact second
  | cons stage locals _ ih => exact .cons stage locals (ih second)

section

variable (h : Passes limit A base c xs c₁)
include h

theorem mono (le : base' <+: base) :
    Passes limit A base' c xs c₁ := by
  induction h with
  | nil => exact .nil _
  | cons stage locals _ ih => exact .cons stage (le.trans locals) ih

omit h in
theorem one (stage : Stage limit A (· < slotsIn c₁.stack.inner) Moves c c₁)
    (locals : base <+: localsIn c₁.stack.inner) : Passes limit A base c [c₁] c₁ :=
  .cons stage locals (.nil c₁)

theorem laid (laid : c.scopes.Laid) : c₁.scopes.Laid := by
  induction h with
  | nil => exact laid
  | cons stage _ _ ih => exact ih (laid.moves stage.scopes)

theorem laid_of_mem (laid : c.scopes.Laid) :
    ∀ x ∈ xs, x.scopes.Laid ∧ base <+: x.locals := by
  induction h with
  | nil => simp
  | cons stage locals _ ih =>
    have here := laid.moves stage.scopes
    intro x hx
    rcases mem_cons.mp hx with rfl | hx
    · exact ⟨here, here.locals_eq ▸ locals⟩
    · exact ih here x hx

theorem failed (fine : c₁.failed = false) : c.failed = false := by
  induction h with
  | nil => exact fine
  | cons stage _ _ ih => exact stage.failed (ih fine)

theorem failed_of_mem {x : State} (hx : x ∈ xs) (fine : x.failed = false) : c.failed = false := by
  induction h with
  | nil => cases hx
  | cons stage _ _ ih =>
    rcases mem_cons.mp hx with rfl | hx
    · exact stage.failed fine
    · exact stage.failed (ih hx)

theorem stocked (stocked : c.Stocked A) : c₁.Stocked A := by
  induction h with
  | nil => exact stocked
  | cons stage _ _ ih => exact ih (stage.stocked stocked)

theorem stocked_of_mem (stocked : c.Stocked A) :
    ∀ x ∈ xs, x.Stocked A := by
  induction h with
  | nil => simp
  | cons stage _ _ ih =>
    have here := stage.stocked stocked
    exact forall_mem_cons.mpr ⟨here, ih here⟩

end

theorem of_still (h : Still limit A (· < slotsIn c.stack.inner) c c₁)
    (locals : base <+: localsIn c.stack.inner) : Passes limit A base c [c₁] c₁ := by
  have stack := h.stack_eq
  exact .one (h.mono (fun n hn => stack ▸ hn) (h.scopes ▸ .same)) (stack ▸ locals)

theorem of_inserts (laid : c.scopes.Laid) (inside : c.stack.inner ≠ [])
    (h : Stage limit A (· < slotsIn c₁.stack.inner) Inserts c c₁) :
    Walks limit A c [c₁] c₁ := by
  have adds := Scopes.Adds.of_inserts laid inside h.scopes
  exact ⟨.one (h.mono (fun _ => id) h.scopes.moves) adds.locals, adds⟩

theorem enclosed {c₃ : State} {method : Bool} (laid : c.scopes.Laid)
    (outside : method = true ↔ c.stack.inner = [])
    (opened : Opens limit A (· < slotsIn c.stack.inner) method c c₁)
    (body : c₁.scopes.Laid → c₁.stack.inner ≠ [] → Walks limit A c₁ xs c₂)
    (closed : c₂.stack.inner ≠ [] → Closes limit A (· < slotsIn c₃.stack.inner) c₂ c₃) :
    Passes limit A (localsIn c.stack.inner) c (c₁ :: (xs ++ [c₃])) c₃ ∧ c₃.scopes = c.scopes := by
  have moves : c.scopes.Moves c₁.scopes :=
    opened.scopes ▸ .enter method outside
  have stack : c₁.stack.inner = {} :: c.stack.inner :=
    congrArg (fun Γ => Γ.stack.inner) opened.scopes
  have slots : slotsIn c₁.stack.inner = slotsIn c.stack.inner := by
    rw [stack, slotsIn]
    exact Nat.zero_add _
  have locals : localsIn c₁.stack.inner = localsIn c.stack.inner := by
    rw [stack, localsIn]
    exact append_nil _
  obtain ⟨passes, adds⟩ := body (laid.moves moves) (by simp [stack])
  rw [locals] at passes
  have closing := closed adds.inner
  have restored : c₃.scopes = c.scopes := by
    have left := adds.leave_eq
    rw [← closing.scopes, opened.scopes] at left
    exact left
  have last : Passes limit A (localsIn c.stack.inner) c₂ [c₃] c₃ := by
    have back : c₃.stack = c.stack := congrArg Scopes.stack restored
    exact .one (closing.mono (fun _ => id) (closing.scopes ▸ .leave adds.inner))
      (back ▸ prefix_refl _)
  exact ⟨.cons (opened.mono (fun n hn => slots ▸ hn) moves) (locals ▸ prefix_refl _)
    (passes.trans last), restored⟩

end Passes

namespace Walk

open Passes

variable {α : Type} (cfg : Config) (pos : Position) {A : Stock} {S : Nat → Prop} {c : State}
  {c₁ : State} {kind : Kind} {name : String} {init : Option Expr} {s : Stmt}
  {m : Walk Unit} (f : Function)

/-! ## Statements -/

/-- The scopes stay as they are, and only slots in use are accessed. -/
abbrev Stays (A : Stock) (c c' : State) : Prop :=
  Still cfg.maxLocals A (· < slotsIn c.stack.inner) c c'

theorem walks_of_stays (inside : c.stack.inner ≠ []) (h : Stays cfg A c c₁) :
    Walks cfg.maxLocals A c [c₁] c₁ :=
  ⟨.of_still h (prefix_refl _), .of_eq inside h.scopes⟩

theorem run_declareVariable_of_none (storable : isStorable kind = true)
    (typed : (typeInit cfg pos name kind init).run c = (none, c₁)) :
    (declareVariable cfg pos name kind init).run c = ((), c₁) := by
  unfold declareVariable
  rw [storable, if_neg (by simp), StateT.run_bind, typed]
  rfl

theorem run_declareVariable_of_some {value : Option Typed} (storable : isStorable kind = true)
    (typed : (typeInit cfg pos name kind init).run c = (some value, c₁))
    (inside : c₁.stack.inner ≠ []) :
    (declareVariable cfg pos name kind init).run c =
      (declareLocal cfg pos name kind value).run c₁ := by
  have notGlobal : ¬ c₁.stack.atGlobal = true := by simpa [Stack.atGlobal] using inside
  unfold declareVariable
  rw [storable, if_neg (by simp), StateT.run_bind, typed]
  show (if c₁.stack.atGlobal then declareGlobal cfg pos name kind value
    else declareLocal cfg pos name kind value : Walk Unit).run c₁ = _
  rw [if_neg notGlobal]

section

variable (laid : c.scopes.Laid) (inside : c.stack.inner ≠ [])
include laid inside

theorem passes_local (storable : isStorable kind) {t : Typed} (fits : t.Fits c.Locates) :
    Walks cfg.maxLocals A c (localTrail cfg pos name kind t c)
      (behind (declareLocal cfg pos name kind (some t)) c) := by
  have written : Stays cfg A c (behind (emit cfg pos t.emit) c) :=
    leads_emit (accesses_of_fits laid.livesIn fits)
  have laid₁ := written.scopes ▸ laid
  have inside₁ : (behind (emit cfg pos t.emit) c).stack.inner ≠ [] := written.stack_eq ▸ inside
  have inserted := leads_insertLocal cfg pos laid₁ inside₁ name (fun _ => storable) (A := A)
    (S := (· < slotsIn (behind (insertLocal cfg pos name kind)
      (behind (emit cfg pos t.emit) c)).stack.inner))
  obtain ⟨passes, adds⟩ := of_inserts laid₁ inside₁ inserted.1
  have stored : Stays cfg A _ (behind (declareLocal cfg pos name kind (some t)) c) :=
    leads_storeNew (laid₁.moves inserted.1.scopes.moves).livesIn inserted.2.1
  have same : localsIn c.stack.inner = localsIn (behind (emit cfg pos t.emit) c).stack.inner := by
    rw [written.stack_eq]
  refine ⟨(of_still written (prefix_refl _)).trans (same ▸ passes.trans ?_), ?_⟩
  · exact of_still stored adds.locals
  · rw [stored.scopes]
    exact written.scopes ▸ adds

theorem passes_variable :
    Walks cfg.maxLocals A c (declareTrail cfg pos (.variable name kind init) c)
      (behind (declare cfg pos (.variable name kind init)) c) := by
  have end_eq : behind (declare cfg pos (.variable name kind init)) c =
      behind (declareVariable cfg pos name kind init) c := rfl
  rw [end_eq, declareTrail]
  cases storable : isStorable kind with
  | false =>
    apply walks_of_stays cfg inside
    unfold behind declareVariable
    rw [storable, if_pos (by simp)]
    exact leads_error
  | true =>
    have asked : Leads (typeInit cfg pos name kind init) c _ := .of_asked safe_typeInit
    rcases typed : (typeInit cfg pos name kind init).run c with ⟨_ | _ | t, c₁⟩
    all_goals
      unfold Leads at asked
      rw [typed] at asked
      have still : Stays cfg A c c₁ := Still.of_same asked.1
      have inside₁ : c₁.stack.inner ≠ [] := still.stack_eq ▸ inside
      have locals : localsIn c₁.stack.inner = localsIn c.stack.inner := by rw [still.stack_eq]
    · rw [behind, run_declareVariable_of_none cfg pos storable typed]
      exact walks_of_stays cfg inside still
    · rw [behind, run_declareVariable_of_some cfg pos storable typed inside₁]
      have inserted := leads_insertLocal cfg pos (still.scopes ▸ laid) inside₁ name
        (fun _ => storable) (A := A)
        (S := (· < slotsIn (behind (insertLocal cfg pos name kind) c₁).stack.inner))
      exact of_inserts laid inside (.after_still (.of_same asked.1) inserted.1)
    · rw [behind, run_declareVariable_of_some cfg pos storable typed inside₁]
      have fits : t.Fits c₁.Locates := by
        rw [asked.1.locates]
        exact asked.2 (some t) rfl t rfl
      obtain ⟨passes, adds⟩ := passes_local cfg pos (still.scopes ▸ laid) inside₁
        storable fits
      exact ⟨.trans (.of_still still (prefix_refl _)) (locals ▸ passes), still.scopes ▸ adds⟩

theorem passes_declare (d : Program.Declaration) :
    Walks cfg.maxLocals A c (declareTrail cfg pos d c) (behind (declare cfg pos d) c) := by
  cases d with
  | «variable» name kind init => exact passes_variable cfg pos laid inside
  | constant name kind init =>
    exact of_inserts laid inside (Stage.inserts leads_declareConstant)
  | array name kind length values =>
    exact of_inserts laid inside (Stage.inserts leads_declareArray)

/-- Along some statements the local variables before them stay where they are. -/
def Along (A : Stock) (ss : List Stmt) : Prop :=
  ∀ c : State, c.scopes.Laid → c.stack.inner ≠ [] →
    Passes cfg.maxLocals A (localsIn c.stack.inner) c (stmtsTrail cfg ss c)
        (behind (stmts cfg ss) c) ∧
      c.scopes.Adds (behind (stmts cfg ss) c).scopes

/-- What stands between the opening and the closing of a scope: the scopes are as before. -/
theorem passes_body {body : List Stmt} (along : Along cfg A body) {opening : Walk α}
    {closing : α → Walk Unit}
    (opened : Leads opening c fun _ => Opens cfg.maxLocals A (· < slotsIn c.stack.inner) false c)
    (closed : ∀ (a : α) {S : Nat → Prop} {c₁ : State}, c₁.stack.inner ≠ [] →
      Leads (closing a) c₁ fun _ => Closes cfg.maxLocals A S c₁) :
    Passes cfg.maxLocals A (localsIn c.stack.inner) c
        (bodyTrail opening (stmts cfg body) (stmtsTrail cfg body) closing c)
        (behind (do let a ← opening; stmts cfg body; closing a) c) ∧
      (behind (do let a ← opening; stmts cfg body; closing a) c).scopes = c.scopes :=
  enclosed laid (by simpa using inside) opened (along _) (closed _)

theorem passes_branch {cond : Expr} {thenBody elseBody : List Stmt}
    (first : Along cfg A thenBody) (second : Along cfg A elseBody) {branch : Walk Unit}
    (eq : branch = (do
      let id ← openThen cfg pos cond
      stmts cfg thenBody
      if elseBody.isEmpty then closeBranch cfg pos id
      else
        openElse cfg pos id
        stmts cfg elseBody
        closeBranch cfg pos id)) :
    Passes cfg.maxLocals A (localsIn c.stack.inner) c
        (branchTrail cfg pos cond thenBody elseBody (stmtsTrail cfg thenBody)
          (stmtsTrail cfg elseBody) c) (behind branch c) ∧
      (behind branch c).scopes = c.scopes := by
  have opened := leads_openThen cfg pos laid.livesIn cond (A := A)
  have closed (id : Option Nat) {S : Nat → Prop} {c₁ : State} (h : c₁.stack.inner ≠ []) :
      Leads (closeBranch cfg pos id) c₁ fun _ => Closes cfg.maxLocals A S c₁ :=
    leads_leave_emit h (.of_inner fun _ => inner_ifEnd)
  unfold branchTrail
  rw [eq]
  by_cases noElse : elseBody.isEmpty
  · simp only [if_pos noElse]
    exact passes_body cfg laid inside first opened closed
  · simp only [if_neg noElse]
    let id := ((openThen cfg pos cond).run c).1
    obtain ⟨passes₁, same₁⟩ := passes_body cfg laid inside first opened
      (fun _ _ _ h => leads_leave h)
    have inner := congrArg (fun Γ => Γ.stack.inner) same₁
    obtain ⟨passes₂, same₂⟩ := passes_body cfg (same₁ ▸ laid) (inner ▸ inside) second
      (leads_emit_enter false (.of_inner fun _ => inner_otherwise))
      fun _ _ _ h => closed id h
    exact ⟨passes₁.trans (congrArg localsIn inner ▸ passes₂), same₂.trans same₁⟩

theorem passes_noted {trail : State → List State} (eq : stmt cfg s = (do point s; m))
    (rest : ∀ c₁ : State, c₁.scopes.Laid → c₁.stack.inner ≠ [] →
      Walks cfg.maxLocals A c₁ (trail c₁) (behind m c₁)) :
    Walks cfg.maxLocals A c (behind (point s) c :: trail (behind (point s) c))
      (behind (stmt cfg s) c) := by
  have noted : Stays cfg A c (behind (point s) c) := .of_eq rfl rfl rfl rfl
  obtain ⟨passes, adds⟩ := rest (behind (point s) c) laid inside
  rw [eq]
  exact ⟨.trans (.of_still noted (prefix_refl _)) passes, adds⟩

theorem passes_simple (eq : stmt cfg s = (do point s; m))
    (h : ∀ c₁ : State, c₁.scopes.Laid → Leads m c₁ fun _ => Stays cfg A c₁) :
    Walks cfg.maxLocals A c [behind (stmt cfg s) c] (behind (stmt cfg s) c) := by
  have noted : Stays cfg A c (behind (point s) c) := .of_eq rfl rfl rfl rfl
  have walked : Stays cfg A (behind (point s) c) (behind m (behind (point s) c)) :=
    h (behind (point s) c) laid
  rw [eq]
  exact walks_of_stays cfg inside (noted.trans walked)

end

mutual

/-- The step for a statement: along its trail the local variables before it stay. -/
theorem passes_stmt : (s : Stmt) → (c : State) → c.scopes.Laid → c.stack.inner ≠ [] →
    Walks cfg.maxLocals A c (stmtTrail cfg s c) (behind (stmt cfg s) c)
  | .declare pos d, c, laid, inside => by
    simp only [stmtTrail]
    exact passes_noted cfg laid inside (by rw [stmt]; rfl) fun _ laid₁ inside₁ =>
      passes_declare cfg pos laid₁ inside₁ d
  | .branch pos cond thenBody elseBody, c, laid, inside => by
    simp only [stmtTrail]
    refine passes_noted cfg laid inside stmt_branch ?_
    intro c₁ laid₁ inside₁
    obtain ⟨passes, same⟩ := passes_branch cfg pos laid₁ inside₁ (passes_stmts thenBody)
      (passes_stmts elseBody) rfl
    exact ⟨passes, .of_eq inside₁ same⟩
  | .loop pos cond body, c, laid, inside => by
    simp only [stmtTrail]
    refine passes_noted cfg laid inside stmt_loop fun c₁ laid₁ inside₁ => ?_
    obtain ⟨passes, same⟩ := passes_body cfg laid₁ inside₁ (passes_stmts body)
      (leads_openLoop laid₁.livesIn cond) fun id _ _ h =>
        leads_leave_emit h (.of_inner fun _ => inner_loopEnd)
    exact ⟨passes, .of_eq inside₁ same⟩
  | .block pos body, c, laid, inside => by
    simp only [stmtTrail]
    refine passes_noted cfg laid inside stmt_block fun c₁ laid₁ inside₁ => ?_
    obtain ⟨passes, same⟩ := passes_body cfg laid₁ inside₁ (passes_stmts body)
      (leads_enter cfg false) fun _ _ _ h => leads_leave h
    exact ⟨passes, .of_eq inside₁ same⟩
  | .assign pos name e, c, laid, inside => by
    rw [stmtTrail]
    exact passes_simple cfg laid inside (by rw [stmt]; rfl) fun _ laid₁ =>
      leads_assign laid₁.livesIn name e
  | .print pos newline e, c, laid, inside => by
    rw [stmtTrail]
    exact passes_simple cfg laid inside (by rw [stmt]; rfl) fun _ laid₁ =>
      leads_print laid₁.livesIn newline e
  | .ret pos e, c, laid, inside => by
    rw [stmtTrail]
    exact passes_simple cfg laid inside (by rw [stmt]; rfl) fun _ laid₁ =>
      leads_ret laid₁.livesIn e
  | .call pos name args, c, laid, inside => by
    rw [stmtTrail]
    exact passes_simple cfg laid inside (by rw [stmt]; rfl) fun _ laid₁ =>
      leads_call laid₁.livesIn name args

/-- The run over a list of statements. -/
theorem passes_stmts : (ss : List Stmt) → Along cfg A ss
  | [], c, laid, inside => by
    rw [stmtsTrail, stmts]
    exact ⟨.nil c, .refl inside⟩
  | s :: rest, c, laid, inside => by
    have polled : Stays cfg A c (behind poll c) := leads_poll cfg
    have walked : behind (stmts cfg (s :: rest)) c =
        if (poll.run c).1 then behind (stmts cfg rest) (behind (stmt cfg s) (behind poll c))
        else behind poll c := by
      rw [stmts]
      show ((if (poll.run c).1 then do stmt cfg s; stmts cfg rest else pure () : Walk Unit).run
        (behind poll c)).2 = _
      cases (poll.run c).1 <;> rfl
    simp only [stmtsTrail]
    rw [walked]
    generalize behind poll c = c₁ at polled
    cases (poll.run c).1 with
    | false => exact walks_of_stays cfg inside polled
    | true =>
      have laid₁ : c₁.scopes.Laid := polled.scopes ▸ laid
      have inside₁ : c₁.stack.inner ≠ [] := polled.stack_eq ▸ inside
      obtain ⟨passes₁, adds₁⟩ := passes_stmt s c₁ laid₁ inside₁
      obtain ⟨passes₂, adds₂⟩ := passes_stmts rest _ (passes₁.laid laid₁) adds₁.inner
      rw [polled.stack_eq] at passes₁
      rw [polled.scopes] at adds₁
      exact ⟨.trans (.of_still polled (prefix_refl _))
        (passes₁.trans (passes₂.mono adds₁.locals)), adds₁.trans adds₂⟩

end

/-! ## Methods -/

theorem length_localsIn {inner : List (Scope Symbol)} (tidy : ∀ s ∈ inner, s.Tidy) :
    (localsIn inner).length = slotsIn inner := by
  have slots := congrArg List.length (map_localsIn tidy)
  simpa using slots

theorem leads_parameter (laid : c.scopes.Laid) (inside : c.stack.inner ≠ []) (name : String)
    (storable : c.failed = false → isStorable kind) :
    Leads (parameter cfg pos name kind) c fun _ c' => Stage cfg.maxLocals A S Inserts c c' ∧
      (c'.failed = false → localsIn c'.stack.inner =
        localsIn c.stack.inner ++ [(name, slotsIn c.stack.inner)]) := by
  refine .bind (leads_insertLocal cfg pos laid inside name storable (A := A) (S := S)) ?_
  intro r c₁ inserted
  refine .ite (fun _ => ?_) fun _ => .pure ⟨inserted.1, inserted.2.2⟩
  refine (leads_markTopAssigned cfg name (A := A) (S := S)).mono fun _ c₂ marked => ?_
  refine ⟨inserted.1.then_still marked, fun h => ?_⟩
  rw [marked.stack_eq]
  exact inserted.2.2 (marked.failed h)

theorem parameters_cons (name : String) (kind : Kind) (rest : List (String × Kind)) :
    parameters cfg pos ((name, kind) :: rest) = (do
      parameter cfg pos name kind
      parameters cfg pos rest) := by
  rw [parameters, parameter, bind_assoc]
  congr 1
  funext declared
  cases declared <;> rfl

theorem passes_parameters (params : List (String × Kind)) (c : State) (laid : c.scopes.Laid)
    (inside : c.stack.inner ≠ [])
    (storable : c.failed = false → ∀ k ∈ params.map Prod.snd, isStorable k) :
    Passes cfg.maxLocals A (localsIn c.stack.inner) c (parametersTrail cfg pos params c)
        (behind (parameters cfg pos params) c) ∧
      c.scopes.Adds (behind (parameters cfg pos params) c).scopes ∧
      ((behind (parameters cfg pos params) c).failed = false →
        localsIn (behind (parameters cfg pos params) c).stack.inner = localsIn c.stack.inner ++
          (params.map Prod.fst).zipIdx (slotsIn c.stack.inner)) := by
  induction params generalizing c with
  | nil => exact ⟨.nil c, .refl inside, fun _ => (append_nil _).symm⟩
  | cons param rest ih =>
    obtain ⟨name, kind⟩ := param
    have first := leads_parameter cfg pos laid inside name
      (fun fine => storable fine kind (by simp)) (A := A)
      (S := (· < slotsIn (behind (parameter cfg pos name kind) c).stack.inner))
    have walked : behind (parameters cfg pos ((name, kind) :: rest)) c =
        behind (parameters cfg pos rest) (behind (parameter cfg pos name kind) c) := by
      rw [parameters_cons]
      rfl
    have stage : Stage _ _ _ _ c (behind (parameter cfg pos name kind) c) := first.1
    have last : (behind (parameter cfg pos name kind) c).failed = false →
        localsIn (behind (parameter cfg pos name kind) c).stack.inner =
          localsIn c.stack.inner ++ [(name, slotsIn c.stack.inner)] := first.2
    rw [walked, parametersTrail]
    generalize behind (parameter cfg pos name kind) c = c₁ at stage last
    obtain ⟨passes₁, adds₁⟩ := of_inserts laid inside stage
    have laid₁ := passes₁.laid laid
    obtain ⟨passes₂, adds₂, others⟩ := ih c₁ laid₁ adds₁.inner
      fun fine k hk => storable (stage.failed fine) k (mem_cons_of_mem _ hk)
    refine ⟨passes₁.trans (passes₂.mono adds₁.locals), adds₁.trans adds₂, fun h => ?_⟩
    have locals := last (passes₂.failed h)
    have slots : slotsIn c₁.stack.inner = slotsIn c.stack.inner + 1 := by
      have length₁ : (localsIn c₁.stack.inner).length = slotsIn c₁.stack.inner :=
        length_localsIn laid₁.inner
      have length : (localsIn c.stack.inner).length = slotsIn c.stack.inner :=
        length_localsIn laid.inner
      rw [← length₁, ← length, locals, length_append, length_singleton]
    rw [others h, locals, slots, append_assoc, map_cons, zipIdx_cons]
    rfl

theorem leads_closeMethod (inside : c.stack.inner ≠ []) (title : String) {step : Emit Unit}
    (h : Accesses S step) :
    Leads (closeMethod cfg pos title step) c fun _ => Closes cfg.maxLocals A S c := by
  refine .bind (Q := fun _ => Still cfg.maxLocals A S c) (.of_eq rfl rfl rfl rfl) ?_
  intro _ c₁ still
  exact (leads_leave_emit (still.stack_eq ▸ inside) h).mono fun _ _ => .after_still still

theorem leads_closeFunction (inside : c.stack.inner ≠ []) (f : Function) :
    Leads (closeFunction cfg f) c fun _ => Closes cfg.maxLocals A S c := by
  have rest {c₁ : State} (still : Still cfg.maxLocals A S c c₁) :=
    (leads_closeMethod cfg f.pos (still.stack_eq ▸ inside) s!"fn {f.name}"
      atomic_endFunction.accesses).mono fun _ _ => Stage.after_still still
  unfold closeFunction
  cases f.signature.result? with
  | none => exact rest (.refl c)
  | some k =>
    refine .ite (fun _ => ?_) fun _ => rest (.refl c)
    exact .bind leads_error fun _ _ still => rest still

theorem still_inSpan (name : String) (m : Walk Unit) :
    Still cfg.maxLocals A S (behind m (inside name c)) (behind (inSpan name m) c) :=
  .of_eq rfl rfl rfl rfl

theorem still_function {r : Option (Option Nat)}
    (inserted : (insert cfg f.pos (.function f.signature)).run (inside s!"fn {f.name}" c) =
      (r, c₁)) :
    Still cfg.maxLocals A S (if r.isSome then
      behind (functionBody cfg f) { c₁ with function := some f.signature } else c₁)
      (behind (function cfg f) c) := by
  refine Still.trans ?_ (still_inSpan cfg s!"fn {f.name}" _)
  unfold behind
  rw [StateT.run_bind, inserted]
  cases r <;> exact .of_eq rfl rfl rfl rfl

theorem isStorable_of_beginFunction {f : Signature}
    (fine : (behind (emit cfg pos (beginFunction (some f))) c).failed = false) :
    f.isStorable := by
  have before : c.failed = false :=
    (leads_emit atomic_beginFunction.accesses (A := .any)
      (S := fun _ => True)).failed fine
  unfold behind at fine
  rcases writes_or_refused (beginFunction (some f)) c.generator with ⟨a, w⟩ | ⟨_, refused⟩
  · exact Signature.isStorable_iff.mpr (writes_beginFunction.mp w).2.1
  · rw [run_emit_of_refused cfg before refused] at fine
    cases fine

/-- A method starts a frame of its own and leaves none behind. -/
theorem passes_method (laid : (declared cfg f c).scopes.Laid)
    (outside : (declared cfg f c).stack.inner = []) :
    Passes cfg.maxLocals A [] (declared cfg f c) (methodTrail cfg f c)
        (behind (functionBody cfg f) (declared cfg f c)) ∧
      (behind (functionBody cfg f) (declared cfg f c)).scopes = (declared cfg f c).scopes ∧
      (bodyStart cfg f c).scopes.Laid ∧
      Passes cfg.maxLocals A (localsIn (bodyStart cfg f c).stack.inner) (bodyStart cfg f c)
        (stmtsTrail cfg f.body (bodyStart cfg f c))
        (behind (stmts cfg f.body) (bodyStart cfg f c)) ∧
      (∀ x ∈ methodTrail cfg f c, x.failed = false → f.signature.isStorable) ∧
      ((behind (functionBody cfg f) (declared cfg f c)).failed = false → f.signature.isStorable ∧
        localsIn (bodyStart cfg f c).stack.inner = (f.params.map Prod.fst).zipIdx) := by
  have walked : behind (functionBody cfg f) (declared cfg f c) =
      behind (closeFunction cfg f) (behind (stmts cfg f.body) (bodyStart cfg f c)) := by
    rw [functionBody_eq]
    rfl
  have entered : Opens cfg.maxLocals A (· < slotsIn (declared cfg f c).stack.inner) true
      (declared cfg f c) (opened cfg f c) :=
    leads_emit_enter true atomic_beginFunction.accesses
  have looked (fine : (opened cfg f c).failed = false) : f.signature.isStorable :=
    isStorable_of_beginFunction cfg f.pos (c := declared cfg f c) fine
  rw [walked]
  unfold methodTrail bodyStart
  generalize opened cfg f c = c₁ at entered looked
  generalize declared cfg f c = c₀ at laid outside entered
  have inner : c₁.stack.inner = [{}] := by
    have inner := congrArg (fun Γ => Γ.stack.inner) entered.scopes
    simpa [Scopes.enter, Stack.enter, State.scopes, outside] using inner
  have first : true = true ↔ c₀.stack.inner = [] := by simp [outside]
  have laid₁ : c₁.scopes.Laid := laid.moves (entered.scopes ▸ .enter true first)
  obtain ⟨passes₁, adds₁, locals⟩ :=
    passes_parameters cfg f.pos f.params c₁ laid₁ (by simp [inner])
      fun fine => (Signature.isStorable_iff.mp (looked fine)).1
  generalize behind (parameters cfg f.pos f.params) c₁ = c₂ at passes₁ adds₁ locals
  obtain ⟨passes₂, adds₂⟩ := passes_stmts cfg f.body c₂ (passes₁.laid laid₁) adds₁.inner
  generalize behind (stmts cfg f.body) c₂ = c₃ at passes₂ adds₂
  have closed {S : Nat → Prop} : Closes cfg.maxLocals A S c₃ (behind (closeFunction cfg f) c₃) :=
    leads_closeFunction cfg adds₂.inner f
  obtain ⟨passes, same⟩ := enclosed laid first entered
    (fun _ _ => ⟨passes₁.trans (passes₂.mono adds₁.locals), adds₁.trans adds₂⟩) fun _ => closed
  rw [outside] at passes
  refine ⟨passes, same, passes₁.laid laid₁, passes₂, fun x hx fine => looked ?_, fun fine => ?_⟩
  · cases passes with
    | cons _ _ rest =>
      rcases mem_cons.mp hx with rfl | hx
      · exact fine
      · exact rest.failed_of_mem hx fine
  have fine₂ := passes₂.failed (closed.failed (S := fun _ => True) fine)
  refine ⟨looked (passes₁.failed fine₂), ?_⟩
  rw [locals fine₂, inner]
  rfl

/-! ## Programs -/

theorem inner_of_inserts {Γ Γ' : Scopes} (h : Γ.Inserts Γ') (outside : Γ.stack.inner = []) :
    Γ'.stack.inner = [] := by
  rcases h with rfl | ⟨s, slot, h⟩
  · exact outside
  · exact inner_of_insert? outside h

theorem passes_outside (h : ∀ S : Nat → Prop, Stage cfg.maxLocals A S Inserts c c₁)
    (outside : c.stack.inner = []) :
    Passes cfg.maxLocals A [] c [c₁] c₁ ∧ c₁.stack.inner = [] :=
  ⟨.one ((h _).mono (fun _ => id) (h fun _ => True).scopes.moves) nil_prefix,
    inner_of_inserts (h fun _ => True).scopes outside⟩

/-- The body of a function starts with the parameters in the first slots, and they stay there. -/
structure Framed (f : Function) (c : State) : Prop where
  walked : stmtsTrail cfg f.body (bodyStart cfg f c) <:+: functionTrail cfg f c
  start : (bodyStart cfg f c).locals = (f.params.map Prod.fst).zipIdx
  body : ∀ x ∈ stmtsTrail cfg f.body (bodyStart cfg f c),
    (f.params.map Prod.fst).zipIdx <+: x.locals

/-- The walk over a function passes through its trail and ends outside of methods. -/
theorem passes_function (sort : A.sort (.function f.signature)) (c : State) (laid : c.scopes.Laid)
    (outside : c.stack.inner = []) :
    Passes cfg.maxLocals A [] c (functionTrail cfg f c) (behind (function cfg f) c) ∧
      (behind (function cfg f) c).stack.inner = [] ∧
      (∀ x ∈ functionTrail cfg f c, x.failed = false →
        f.signature.isStorable ∨ x.stack.inner = []) ∧
      ((behind (function cfg f) c).failed = false → f.signature.isStorable ∧ Framed cfg f c) := by
  have spanned (S : Nat → Prop) : Stage cfg.maxLocals A S Inserts c
      (inside s!"fn {f.name}" c) := Still.inserts (.of_eq rfl rfl rfl rfl)
  obtain ⟨passes₁, outside₁⟩ := passes_outside cfg spanned outside
  rcases run : (insert cfg f.pos (.function f.signature)).run
    (inside s!"fn {f.name}" c) with ⟨r, c₂⟩
  have inserted (S : Nat → Prop) : Stage cfg.maxLocals A S Inserts
      (inside s!"fn {f.name}" c) c₂ := by
    have stage := leads_insert_other cfg f.pos (c := inside s!"fn {f.name}" c) (S := S)
      (P := fun _ => True) (x := .function f.signature) trivial sort (.inr (by simp [Symbol.form]))
    unfold Leads at stage
    rw [run] at stage
    exact stage.inserts
  obtain ⟨passes₂, outside₂⟩ := passes_outside cfg inserted outside₁
  have ended (S : Nat → Prop) := still_function cfg f (A := A) (S := S) run
  have start : declared cfg f c = { c₂ with function := some f.signature } := by
    unfold declared behind
    rw [run]
  have upTo := passes₁.trans passes₂
  have laid₂ : c₂.scopes.Laid := upTo.laid laid
  cases r with
  | none =>
    have refused := leads_insert cfg f.pos (c := inside s!"fn {f.name}" c) (A := A)
      (S := fun _ => True) (.function f.signature)
    unfold Leads at refused
    rw [run] at refused
    have failed : c₂.failed = true := by
      rcases refused with ⟨-, failed, -⟩ | ⟨slot, some, -⟩
      · exact failed
      · cases some
    obtain ⟨passes₃, outside₃⟩ := passes_outside cfg (fun S => Still.inserts (ended S)) outside₂
    refine ⟨?_, outside₃, fun x hx _ => ?_, fun fine => ?_⟩
    · simpa [functionTrail, run] using upTo.trans passes₃
    · simp only [functionTrail, run, mem_cons, mem_append, Option.isSome_none,
        Bool.false_eq_true, if_false, not_mem_nil, or_false, false_or] at hx
      rcases hx with rfl | rfl | rfl
      · exact .inr outside
      · exact .inr outside₂
      · exact .inr outside₃
    · have := (ended fun _ => True).failed fine
      simp [failed] at this
  | some slot =>
    have named (S : Nat → Prop) : Stage cfg.maxLocals A S Inserts c₂ (declared cfg f c) :=
      start ▸ Still.inserts (.of_eq rfl rfl rfl rfl)
    obtain ⟨passes₃, outside₃⟩ := passes_outside cfg named outside₂
    obtain ⟨passes₄, same, laidBody, body, looked, locals⟩ :=
      passes_method cfg f (passes₃.laid laid₂) outside₃
    simp only [Option.isSome_some, if_true, ← start] at ended
    have outside₄ : (behind (functionBody cfg f) (declared cfg f c)).stack.inner = [] :=
      (congrArg (fun Γ => Γ.stack.inner) same).trans outside₃
    obtain ⟨passes₅, outside₅⟩ := passes_outside cfg (fun S => Still.inserts (ended S)) outside₄
    have whole := upTo.trans (passes₃.trans (passes₄.trans passes₅))
    refine ⟨?_, outside₅, fun x hx fine => ?_, fun fine => ?_⟩
    · simpa [functionTrail, run] using whole
    · simp only [functionTrail, run, mem_cons, mem_append, Option.isSome_some, if_true,
        not_mem_nil, or_false] at hx
      rcases hx with rfl | rfl | (rfl | hx) | rfl
      · exact .inr outside
      · exact .inr outside₂
      · exact .inr outside₃
      · exact .inl (looked x hx fine)
      · exact .inr outside₅
    · obtain ⟨storable, start⟩ := locals ((ended fun _ => True).failed fine)
      rw [← laidBody.locals_eq] at start
      refine ⟨storable, ⟨inside s!"fn {f.name}" c :: c₂ :: declared cfg f c :: opened cfg f c ::
        parametersTrail cfg f.pos f.params (opened cfg f c),
        [behind (closeFunction cfg f) (behind (stmts cfg f.body) (bodyStart cfg f c)),
          behind (function cfg f) c], ?_⟩, start, fun x hx => ?_⟩
      · simp only [functionTrail, run, methodTrail, Option.isSome_some, if_true, cons_append,
          append_assoc, nil_append]
      · rw [← start, laidBody.locals_eq]
        exact (body.laid_of_mem laidBody x hx).2

/-- So do the walks over several functions, by induction on their list. -/
theorem passes_functions (fs : List Function) (c : State) (laid : c.scopes.Laid)
    (outside : c.stack.inner = []) :
    Passes cfg.maxLocals .any [] c (functionsTrail cfg fs c) (behind (functions cfg fs) c) ∧
      (behind (functions cfg fs) c).stack.inner = [] ∧
      ((behind (functions cfg fs) c).failed = false →
        ∀ f ∈ fs, ∃ c₁, functionTrail cfg f c₁ <:+: functionsTrail cfg fs c ∧ Framed cfg f c₁) := by
  induction fs generalizing c with
  | nil => exact ⟨.nil c, outside, by simp⟩
  | cons f rest ih =>
    obtain ⟨passes₁, outside₁, -, framed⟩ :=
      passes_function cfg f (A := .any) trivial c laid outside
    obtain ⟨passes₂, outside₂, others⟩ := ih _ (passes₁.laid laid) outside₁
    have walked : behind (functions cfg (f :: rest)) c =
        behind (functions cfg rest) (behind (function cfg f) c) := rfl
    rw [walked, functionsTrail]
    refine ⟨passes₁.trans passes₂, outside₂, fun fine g hg => ?_⟩
    rcases mem_cons.mp hg with rfl | hg
    · exact ⟨c, infix_append' [] _ _, (framed (passes₂.failed fine)).2⟩
    · obtain ⟨c₁, found, framed⟩ := others fine g hg
      exact ⟨c₁, found.trans (suffix_append _ _).isInfix, framed⟩

theorem passes_main (body : List Stmt) (c : State) (laid : c.scopes.Laid)
    (outside : c.stack.inner = []) :
    Passes cfg.maxLocals A [] c (mainTrail cfg pos body c) (behind (main cfg pos body) c) := by
  have spanned : Still cfg.maxLocals A (· < slotsIn c.stack.inner) c (inside "main" c) :=
    .of_eq rfl rfl rfl rfl
  have entered : Leads (openFrame cfg pos beginMain) (inside "main" c) fun _ =>
      Opens cfg.maxLocals A (· < slotsIn (inside "main" c).stack.inner) true (inside "main" c) :=
    leads_emit_enter true atomic_beginMain.accesses
  obtain ⟨passes, same⟩ := enclosed (c := inside "main" c) laid
    ⟨fun _ => outside, fun _ => rfl⟩ entered (passes_stmts cfg body _) fun h =>
      leads_closeMethod cfg pos h "main" atomic_endMain.accesses
  have ended (S : Nat → Prop) : Still cfg.maxLocals A S
      (behind (closeMain cfg pos) (behind (stmts cfg body)
        (behind (openFrame cfg pos beginMain) (inside "main" c))))
      (behind (main cfg pos body) c) := .of_eq rfl rfl rfl rfl
  have whole := (of_still spanned nil_prefix).trans
    ((passes.mono nil_prefix).trans (.of_still (ended _) nil_prefix))
  simp only [cons_append, append_assoc, nil_append] at whole
  exact whole

theorem leads_global (outside : c.stack.inner = []) (d : Program.Declaration) :
    Leads (declare cfg pos d) c fun _ => Stage cfg.maxLocals A S Inserts c := by
  cases d with
  | constant name kind init => exact Stage.inserts leads_declareConstant
  | array name kind length values =>
    exact Stage.inserts leads_declareArray
  | «variable» name kind init =>
    refine .ite (fun _ => leads_error.mono fun _ _ => Still.inserts) ?_
    intro storable
    refine .ask safe_typeInit
      (fun _ same => .pure (Still.inserts (.of_same same))) fun init c₁ same _ => ?_
    have outside₁ : c₁.stack.inner = [] := same.stack ▸ outside
    refine .get_bind (.ite (fun _ => ?_) fun inside => ?_)
    · exact (leads_declareGlobal outside₁ name (by simpa using storable) init).mono
        fun _ _ stage => .after_still (.of_same same) stage.inserts
    · simp [Stack.atGlobal, outside₁] at inside

theorem passes_globals (ds : List (Position × Program.Declaration)) (c : State)
    (outside : c.stack.inner = []) :
    Passes cfg.maxLocals A [] c (globalsTrail cfg ds c) (behind (globals cfg ds) c) ∧
      (behind (globals cfg ds) c).stack.inner = [] := by
  induction ds generalizing c with
  | nil => exact ⟨.nil c, outside⟩
  | cons d rest ih =>
    obtain ⟨pos, d⟩ := d
    obtain ⟨passes₁, outside₁⟩ :=
      passes_outside cfg (fun S => leads_global cfg pos outside d (S := S)) outside
    obtain ⟨passes₂, outside₂⟩ := ih _ outside₁
    exact ⟨passes₁.trans passes₂, outside₂⟩

/-- The run over a whole program. Where nothing fails, every function has its frame. -/
theorem passes_program (p : Program) (laid : c.scopes.Laid) (outside : c.stack.inner = []) :
    Passes cfg.maxLocals .any [] c (programTrail cfg p c) (behind (program cfg p) c) ∧
      ((behind (program cfg p) c).failed = false →
        ∀ f ∈ p.functions, ∃ c₁, functionTrail cfg f c₁ <:+: programTrail cfg p c ∧
          Framed cfg f c₁) := by
  have started : Still cfg.maxLocals .any (· < slotsIn c.stack.inner) c
      (behind (emit cfg {} programStart) c) :=
    leads_emit atomic_programStart.accesses
  have walked : behind (program cfg p) c = behind (emit cfg p.mainPos programEnd)
      (behind (main cfg p.mainPos p.main) (behind (functions cfg p.functions)
        (behind (globals cfg p.globals) (behind (emit cfg {} programStart) c)))) := rfl
  simp only [programTrail, walked]
  generalize behind (emit cfg {} programStart) c = c₁ at started
  obtain ⟨passes₁, outside₁⟩ := passes_globals cfg p.globals c₁ (A := .any)
    (started.stack_eq ▸ outside)
  have laid₁ := passes₁.laid (started.scopes ▸ laid)
  generalize behind (globals cfg p.globals) c₁ = c₂ at passes₁ outside₁ laid₁
  obtain ⟨passes₂, outside₂, framed⟩ := passes_functions cfg p.functions c₂ laid₁ outside₁
  have laid₂ := passes₂.laid laid₁
  generalize behind (functions cfg p.functions) c₂ = c₃ at passes₂ outside₂ framed laid₂
  have passes₃ := passes_main cfg p.mainPos p.main c₃ laid₂ outside₂ (A := .any)
  generalize behind (main cfg p.mainPos p.main) c₃ = c₄ at passes₃
  have ended : Still cfg.maxLocals .any (· < slotsIn c₄.stack.inner) c₄
      (behind (emit cfg p.mainPos programEnd) c₄) :=
    leads_emit atomic_programEnd.accesses
  have last := of_still ended nil_prefix
  refine ⟨.trans (.of_still started nil_prefix)
    (((passes₁.trans passes₂).trans passes₃).trans last), fun fine f hf => ?_⟩
  obtain ⟨c', found, framed⟩ := framed (passes₃.failed (ended.failed fine)) f hf
  refine ⟨c', found.trans ⟨c₁ :: globalsTrail cfg p.globals c₁,
    mainTrail cfg p.mainPos p.main c₃ ++ [behind (emit cfg p.mainPos programEnd) c₄], ?_⟩,
    framed⟩
  simp only [cons_append, append_assoc]

/-! ## Storable kinds -/

end Walk

/-- Where expressions stand: in a method, or before all functions. -/
def State.AtCode (c : State) : Prop :=
  c.stack.inner ≠ [] ∨ ∀ name, c.scopes.function? name = none

namespace Walk

variable (cfg : Config) {A : Stock} {c : State} {base : List (String × Nat)} {xs : List State}
  {c₁ : State}

theorem storable_functionTrail (f : Function) (laid : c.scopes.Laid)
    (outside : c.stack.inner = []) (storable : c.Stocked .strict) :
    (∀ x ∈ functionTrail cfg f c, x.AtCode → x.Stocked .strict) ∧
      (behind (function cfg f) c).Stocked .strict := by
  obtain ⟨passes, -, looked, ended⟩ :=
    passes_function cfg f (A := .pending f.signature) (.inr rfl) c laid outside
  have start : c.Stocked (.pending f.signature) := fun fine => (storable fine).mono fun _ => .inl
  have settled {Γ : Scopes} (known : f.signature.isStorable)
    (h : Γ.Stocked (.pending f.signature)) :
      Γ.Storable := h.mono fun x hx => by
    rcases hx with hx | rfl
    · exact hx
    · exact known
  refine ⟨fun x hx code fine => ?_, fun fine => settled (ended fine).1 (passes.stocked start fine)⟩
  have pending := passes.stocked_of_mem start x hx fine
  rcases looked x hx fine with known | outside
  · exact settled known pending
  · intro s hs name e he
    rcases pending s hs name e he with storable | function
    · exact storable
    · have unseen := code.resolve_left (absurd outside) name
      simp only [State.scopes, outside, mem_singleton] at hs
      subst hs
      have found : x.stack.find? name = some (0, e) := by
        simp only [Stack.find?, outside, Stack.findIn, he]
        rfl
      simp [function?, State.scopes, found, function] at unseen

theorem storable_functionsTrail (fs : List Function) (c : State) (laid : c.scopes.Laid)
    (outside : c.stack.inner = []) (storable : c.Stocked .strict) :
    (∀ x ∈ functionsTrail cfg fs c, x.AtCode → x.Stocked .strict) ∧
      (behind (functions cfg fs) c).Stocked .strict := by
  induction fs generalizing c with
  | nil => exact ⟨by simp [functionsTrail], storable⟩
  | cons f rest ih =>
    obtain ⟨here, ended⟩ := storable_functionTrail cfg f laid outside storable
    obtain ⟨passes, outside₁, -⟩ := passes_function cfg f (A := .any) trivial c laid outside
    obtain ⟨others, last⟩ := ih _ (passes.laid laid) outside₁ ended
    refine ⟨fun x hx => ?_, last⟩
    exact (mem_append.mp hx).elim (here x) (others x)

theorem storable_of_programTrail (p : Program) {className : String} {o : Assembly.Options}
    (fresh : c.Fresh className o) :
    ∀ x ∈ c :: programTrail cfg p c, x.AtCode → x.Stocked .strict := by
  have scopes : c.scopes = ⟨{}, [0]⟩ := by rw [State.scopes, fresh.stack, fresh.bases]
  have storable : c.Stocked .strict := fun _ => scopes ▸ .empty _
  have outside : c.stack.inner = [] := by rw [fresh.stack]
  have started : Still cfg.maxLocals .strict (fun _ => True) c
      (behind (emit cfg {} programStart) c) :=
    leads_emit atomic_programStart.accesses
  have storable₁ := started.stocked storable
  obtain ⟨passes₁, outside₁⟩ := passes_globals cfg p.globals (A := .strict) _
    (started.stack_eq ▸ outside)
  have laid₁ := passes₁.laid (started.scopes ▸ scopes ▸ .empty)
  have storable₂ := passes₁.stocked storable₁
  obtain ⟨functions, storable₃⟩ :=
    storable_functionsTrail cfg p.functions _ laid₁ outside₁ storable₂
  obtain ⟨passes₂, outside₂, -⟩ := passes_functions cfg p.functions _ laid₁ outside₁
  have passes₃ := passes_main cfg p.mainPos p.main _ (passes₂.laid laid₁) outside₂ (A := .strict)
  have ended : Still cfg.maxLocals .strict (fun _ => True) _ (behind (program cfg p) c) :=
    leads_emit atomic_programEnd.accesses
  intro x hx code
  simp only [programTrail, mem_cons, mem_append, not_mem_nil, or_false] at hx
  rcases hx with rfl | rfl | ((hx | hx) | hx) | rfl
  · exact storable
  · exact storable₁
  · exact passes₁.stocked_of_mem storable₁ x hx
  · exact functions x hx code
  · exact passes₃.stocked_of_mem storable₃ x hx
  · exact ended.stocked (passes₃.stocked storable₃)

/-! ## Clashes -/

/-- The live local variables have the slots from zero on, each its own, and a name that is found in
a method stands for the slot of its innermost declaration. -/
structure NoClash (c : State) : Prop where
  slots : c.locals.map Prod.snd = List.range c.locals.length
  location : ∀ name depth e, c.stack.find? name = some (depth, e) → depth ≠ 0 →
    e.form = .variable →
    ∃ n : Nat, c.location depth e = .frame n ∧ c.locals.reverse.lookup name = some n

theorem noClash_of_laid (laid : c.scopes.Laid) : NoClash c where
  slots := by
    have slots := laid.map_locals
    have length := congrArg List.length slots
    rw [length_map, length_range] at length
    rw [slots, length]
  location _ _ _ := laid.location_eq

/-- The new lines access only slots of live local variables below the limit. -/
def WritesLocals (c c' : State) : Prop :=
  Generator.Grown (fun n => n ∈ c'.locals.map Prod.snd ∧ (n : Int) < cfg.maxLocals)
    c.generator c'.generator

theorem chain_of_passes (h : Passes cfg.maxLocals A base c xs c₁) (laid : c.scopes.Laid)
    (room : c.Room cfg.maxLocals) (fine : c₁.failed = false) :
    (c :: xs).IsChain (WritesLocals cfg) := by
  induction h with
  | nil c => exact .singleton c
  | @cons c c₁ c₂ xs stage _ rest ih =>
    have laid₁ := laid.moves stage.scopes
    have room₁ := stage.room room
    have fine₁ := rest.failed fine
    refine .cons_cons ((stage.grown fine₁).mono fun n hn => ⟨?_, room₁ fine₁ n hn⟩)
      (ih laid₁ room₁ fine)
    rw [laid₁.map_locals]
    exact mem_range.mpr hn

theorem moves_of_passes (h : Passes cfg.maxLocals A base c xs c₁) :
    (c :: xs).IsChain (fun x y => x.scopes.Moves y.scopes) ∧
      (c :: xs).getLast? = some c₁ := by
  induction h with
  | nil c => exact ⟨.singleton c, rfl⟩
  | cons stage _ _ ih =>
    exact ⟨.cons_cons stage.scopes ih.1, by rw [getLast?_cons_cons]; exact ih.2⟩

/-- The walk over a program goes from its first state to its last in steps that change the scopes
once at most, and at none of them do the slots of local variables clash. If no error is reported,
only slots of live local variables below the limit are accessed, and the parameters of each function
have the first slots in order all along its body. -/
theorem frames_sound (p : Program) {className : String} {o : Assembly.Options}
    (fresh : c.Fresh className o) :
    (c :: programTrail cfg p c).getLast? = some (behind (program cfg p) c) ∧
      (c :: programTrail cfg p c).IsChain (fun x y => x.scopes.Moves y.scopes) ∧
      (∀ x ∈ programTrail cfg p c, NoClash x) ∧
      ((behind (program cfg p) c).failed = false →
        (c :: programTrail cfg p c).IsChain (WritesLocals cfg) ∧
        ∀ f ∈ p.functions, ∃ c₁, functionTrail cfg f c₁ <:+: programTrail cfg p c ∧
          Framed cfg f c₁) := by
  have scopes : c.scopes = ⟨{}, [0]⟩ := by rw [State.scopes, fresh.stack, fresh.bases]
  have laid : c.scopes.Laid := scopes ▸ .empty
  have outside : c.stack.inner = [] := by rw [fresh.stack]
  have room : c.Room cfg.maxLocals := by
    intro _ n hn
    rw [outside] at hn
    cases hn
  obtain ⟨passes, framed⟩ := passes_program cfg p laid outside
  obtain ⟨chain, last⟩ := moves_of_passes cfg passes
  exact ⟨last, chain, fun x hx => noClash_of_laid (passes.laid_of_mem laid x hx).1, fun fine =>
    ⟨chain_of_passes cfg passes laid room fine, framed fine⟩⟩

/-- A program with a function that shadows its first parameter. -/
def shadowing : Program where
  name := "shadowing"
  globals := []
  functions := [{
    pos := {}
    name := "f"
    params := [("a", .integer), ("b", .integer)]
    ret := .none
    body := [.block {} [.declare {} (.variable "a" .integer (some (.ref "b"))),
      .assign {} "b" (.ref "a")]] }]
  main := [.call {} "f" [.literal (.int 1), .literal (.int 2)]]
  mainPos := {}

/-- With three slots to a frame no error is reported, and in the block all of them are in use. -/
theorem frames_sound_shadowing :
    let cfg : Config := ⟨"", 3⟩
    let c : State := { generator := .new "shadowing" {}, reporter := .collecting 10 }
    c.Fresh "shadowing" {} ∧
      ((programTrail cfg shadowing c).any fun x => x.locals = [("a", 0), ("b", 1), ("a", 2)]) ∧
      (∀ x ∈ programTrail cfg shadowing c, NoClash x) ∧
      (behind (program cfg shadowing) c).failed = false ∧
      (c :: programTrail cfg shadowing c).IsChain (WritesLocals cfg) ∧
      ∀ f ∈ shadowing.functions, ∃ c₁, functionTrail cfg f c₁ <:+: programTrail cfg shadowing c ∧
        Framed cfg f c₁ := by
  intro cfg c
  have fresh : c.Fresh "shadowing" {} := ⟨rfl, rfl, rfl, rfl, rfl, rfl⟩
  obtain ⟨-, -, noClash, accesses⟩ := frames_sound cfg shadowing fresh
  have fine : (behind (program cfg shadowing) c).failed = false := by decide +kernel
  exact ⟨fresh, by decide +kernel, noClash, fine, accesses fine⟩

end Walk

end Jasm.Compile

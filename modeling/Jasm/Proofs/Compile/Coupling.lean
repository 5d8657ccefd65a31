import Jasm.Proofs.Assembly.Sequences
import Jasm.Proofs.Compile.Classes

/-!
# Two walks over one program

Two walks over the same statements do the same to the scopes as long as whatever differs between
them, such as the files they report for or what they write, has no influence on the scopes.
`Coupling` says what a relation between the states of two walks has to satisfy for this: the related
states have the same scopes, and the single steps of a walk lead from related states to related
states. From this it follows for each part of a walk that it gives the same from related states and
leads to related states again. There is one lemma for each part, and they follow the recursion of
the walk.
-/

namespace Jasm

open Program (Expr Stmt)

/-! ## The lengths of arrays -/

namespace Program

def Declaration.lengths : Declaration → List Nat
  | .array _ _ length _ => [length]
  | _ => []

mutual

def Stmt.lengths : Stmt → List Nat
  | .declare _ d => d.lengths
  | .branch _ _ thenBody elseBody => lengthsOf thenBody ++ lengthsOf elseBody
  | .loop _ _ body | .block _ body => lengthsOf body
  | _ => []

def lengthsOf : List Stmt → List Nat
  | [] => []
  | s :: rest => s.lengths ++ lengthsOf rest

end

def lengths (p : Program) : List Nat :=
  p.globals.flatMap (·.2.lengths) ++ p.functions.flatMap (lengthsOf ·.body) ++ lengthsOf p.main

end Program

open Program (lengthsOf)

namespace Compile

open Assembly (Emit)

variable {α β : Type} {R : State → State → Prop} {V : α → β → Prop}

/-- Steps that lead from related states to related states, and give related values. -/
def Couples (R : State → State → Prop) (V : α → β → Prop) (m : Walk α) (m' : Walk β) : Prop :=
  ∀ c c', R c c' → V (m.run c).1 (m'.run c').1 ∧ R (m.run c).2 (m'.run c').2

/-- Steps that lead from related states to related states, and give the same value. -/
def Agrees (R : State → State → Prop) (m m' : Walk α) : Prop :=
  Couples R (fun a a' => a' = a) m m'

theorem Couples.pure {a : α} {b : β} (h : V a b) :
    Couples R V (pure a) (pure b) := fun _ _ related => ⟨h, related⟩

theorem Couples.bind {γ δ : Type} {W : γ → δ → Prop} {m : Walk α} {m' : Walk β} {k : α → Walk γ}
    {k' : β → Walk δ} (first : Couples R V m m')
    (second : ∀ a a', V a a' → Couples R W (k a) (k' a')) :
    Couples R W (m >>= k) (m' >>= k') := by
  intro c c' related
  obtain ⟨values, related₁⟩ := first c c' related
  exact second _ _ values _ _ related₁

namespace Agrees

variable {R : State → State → Prop}

theorem pure {a : α} : Agrees R (pure a) (pure a) := fun _ _ related => ⟨rfl, related⟩

theorem «then» {γ δ : Type} {W : γ → δ → Prop} {m m' : Walk α} {k : α → Walk γ} {k' : α → Walk δ}
    (first : Agrees R m m') (second : ∀ a, Couples R W (k a) (k' a)) :
    Couples R W (m >>= k) (m' >>= k') := by
  refine Couples.bind first fun a a' same => ?_
  rw [same]
  exact second a

theorem bind {m m' : Walk α} {k k' : α → Walk β} (first : Agrees R m m')
    (second : ∀ a, Agrees R (k a) (k' a)) : Agrees R (m >>= k) (m' >>= k') := first.then second

theorem ifSome {m m' : Walk (Option α)} {k k' : Option α → Walk β} {b : β} (first : Agrees R m m')
    (second : ∀ a, Agrees R (k (some a)) (k' (some a))) (stop : k none = Pure.pure b := by rfl)
    (stop' : k' none = Pure.pure b := by rfl) : Agrees R (m >>= k) (m' >>= k') := by
  refine first.bind fun a => ?_
  cases a with
  | none =>
    rw [stop, stop']
    exact .pure
  | some a => exact second a

theorem modify {f f' : State → State} (h : ∀ c c', R c c' → R (f c) (f' c')) :
    Agrees R (modify f : Walk PUnit) (modify f') := fun c c' related => ⟨rfl, h c c' related⟩

theorem set {s s' : State} (h : R s s') :
    Agrees R (MonadStateOf.set s : Walk PUnit) (MonadStateOf.set s') := fun _ _ _ => ⟨rfl, h⟩

theorem get_bind {k k' : State → Walk β} (h : ∀ c c', R c c' → Agrees R (k c) (k' c')) :
    Agrees R ((MonadState.get : Walk State) >>= k) ((MonadState.get : Walk State) >>= k') :=
  fun c c' related => h c c' related c c' related

theorem ite {p : Prop} [Decidable p] {m m' n n' : Walk α} (yes : Agrees R m m')
    (no : Agrees R n n') : Agrees R (if p then m else n) (if p then m' else n') := by
  split
  · exact yes
  · exact no

end Agrees

/-! ## Parts of a program

The parts that a walk writes are sequences of calls. -/

mutual

theorem Typed.sequence_emit : (t : Typed) → Emit.Sequence t.emit
  | .constant v => by
    rw [Typed.emit]
    exact .of_done (c := .loadConst v) rfl
  | .variable name _ location => by
    rw [Typed.emit]
    exact .of_done (c := .load name location) rfl
  | .unary op _ e => by
    rw [Typed.emit]
    exact .bind e.sequence_emit fun _ => .of_done (c := .operation op) rfl
  | .binary op _ l r => by
    rw [Typed.emit]
    refine .bind l.sequence_emit fun _ => .bind r.sequence_emit fun _ => .ite ?_ ?_
    · exact .of_done (c := .relation op) rfl
    · exact .of_done (c := .operation op) rfl
  | .call f args => by
    rw [Typed.emit]
    refine .bind (sequence_emitArgs args) fun _ => ?_
    exact .of_done (c := .invoke (some f) args.length) rfl

theorem sequence_emitArgs : (args : List Typed) → Emit.Sequence (emitArgs args)
  | [] => by
    rw [emitArgs]
    exact .pure
  | t :: rest => by
    rw [emitArgs]
    exact .bind t.sequence_emit fun _ => sequence_emitArgs rest

end

/-! ## Couplings -/

/-- What relates the states of two walks that do the same to the scopes. What writing a part gives
is related by `I`, and is used for writing only. Arrays have lengths for which `Fit` holds. -/
structure Coupling (cfg cfg' : Config) (R : State → State → Prop)
    (I : ∀ α : Type, Option α → Option α → Prop) (Fit : Nat → Prop) : Prop where
  limit : cfg'.maxLocals = cfg.maxLocals
  stack : ∀ {c c'}, R c c' → c'.stack = c.stack
  bases : ∀ {c c'}, R c c' → c'.bases = c.bases
  assigned : ∀ {c c'}, R c c' → c'.assigned = c.assigned
  function : ∀ {c c'}, R c c' → c'.function = c.function
  scopes : ∀ {c c' stack stack' bases bases' assigned assigned'}, R c c' →
    stack' = stack → bases' = bases → assigned' = assigned →
    R { c with stack := stack, bases := bases, assigned := assigned }
      { c' with stack := stack', bases := bases', assigned := assigned' }
  point : ∀ s, Agrees R (Walk.point s) (Walk.point s)
  poll : Agrees R Walk.poll Walk.poll
  allocate : ∀ length, Fit length → Agrees R (Walk.allocate length) (Walk.allocate length)
  error : ∀ pos code message,
    Agrees R (Walk.error cfg code pos message) (Walk.error cfg' code pos message)
  warning : ∀ pos code message,
    Agrees R (Walk.warning cfg code pos message) (Walk.warning cfg' code pos message)
  given : ∀ {α : Type} (a : Option α), I α a a
  emit : ∀ {α β : Type} pos (step : Option β → Emit α) {id id' : Option β},
    (∀ id, (step id).Sequence) → I β id id' →
    Couples R (I α) (Walk.emit cfg pos (step id)) (Walk.emit cfg' pos (step id'))

namespace Walk

variable {cfg cfg' : Config} {R : State → State → Prop} {I : ∀ α : Type, Option α → Option α → Prop}
  {Fit : Nat → Prop} (K : Coupling cfg cfg' R I Fit) {pos : Position} {step : Emit α}
    {id id' : Option Nat} {name : String}
  {kind : Kind}

include K

/-! ## Findings and writing -/

theorem couples_error_pure {code : Code} {message : String} {a : α} :
    Agrees R (do error cfg code pos message; return a) (do error cfg' code pos message; return a) :=
  .bind (K.error pos code message) fun _ => .pure

variable (pos) in
theorem couples_emit (h : step.Sequence) :
    Couples R (I α) (emit cfg pos step) (emit cfg' pos step) :=
  K.emit pos (fun _ : Option Unit => step) (fun _ => h) (K.given none)

theorem couples_emit_unit (h : step.Sequence) :
    Agrees R (do let _ ← emit cfg pos step) (do let _ ← emit cfg' pos step) :=
  (couples_emit K pos h).bind fun _ _ _ => Agrees.pure

/-! ## Scopes -/

theorem couples_enter {method : Bool} : Agrees R (enter method) (enter method) := by
  refine .modify fun c c' related => ?_
  apply K.scopes related
  · rw [K.stack related]
  · rw [K.stack related, K.bases related]
  · exact K.assigned related

theorem couples_leave : Agrees R (leave cfg pos) (leave cfg' pos) := by
  refine .get_bind fun c c' related => ?_
  rw [K.stack related]
  cases c.stack.leave with
  | error f => exact K.error pos _ _
  | ok stack =>
    refine .set (K.scopes related rfl ?_ ?_)
    · rw [K.bases related]
    · rw [K.assigned related, State.topDepth, State.topDepth, K.stack related]

theorem couples_insert {s : Symbol} :
    Agrees R (insert cfg pos s) (insert cfg' pos s) := by
  refine .get_bind fun c c' related => ?_
  rw [K.stack related]
  cases c.stack.insert (some s.declaration) with
  | error f => exact couples_error_pure K
  | ok result =>
    refine .bind (.set (K.scopes related rfl ?_ ?_)) fun _ => .pure
    · exact K.bases related
    · exact K.assigned related

theorem couples_insertLocal :
    Agrees R (insertLocal cfg pos name kind)
      (insertLocal cfg' pos name kind) := by
  refine .ifSome (couples_insert K) fun slot => ?_
  refine .get_bind fun c c' related => ?_
  rw [K.bases related, K.limit]
  exact .ite .pure (couples_error_pure K)

theorem couples_markAssigned {depth : Nat} {name : String} :
    Agrees R (markAssigned depth name) (markAssigned depth name) := by
  refine .modify fun _ _ related => K.scopes related (K.stack related) (K.bases related) ?_
  rw [K.assigned related]

theorem couples_markTopAssigned :
    Agrees R (markTopAssigned name) (markTopAssigned name) := by
  refine .get_bind fun c c' related => ?_
  rw [State.topDepth, State.topDepth, K.stack related]
  exact couples_markAssigned K

theorem couples_find :
    Agrees R (find cfg pos name) (find cfg' pos name) := by
  refine .get_bind fun c c' related => ?_
  rw [K.stack related]
  cases c.stack.find name with
  | error f => exact couples_error_pure K
  | ok found => exact .pure

theorem location_eq {c c' : State} (related : R c c') (depth : Nat) (e : Entry Symbol) :
    c'.location depth e = c.location depth e := by
  unfold State.location State.base
  rw [K.bases related]

/-! ## Expressions -/

theorem couples_valueError {f : Value.Fault} :
    Agrees R (valueError cfg pos f) (valueError cfg' pos f) :=
  .ite (K.error pos _ _) (K.error pos _ _)

theorem couples_typeRef :
    Agrees R (typeRef cfg pos name) (typeRef cfg' pos name) := by
  refine .ifSome (couples_find K) ?_
  rintro ⟨depth, e⟩
  dsimp only
  cases e.item with
  | constant _ v => exact .pure
  | «variable» _ v =>
    refine .get_bind fun c c' related => ?_
    rw [K.assigned related, location_eq K related]
    refine .ite ?_ .pure
    exact .bind (K.warning pos _ _) fun _ => .pure
  | _ => exact couples_error_pure K

variable (pos name) in
theorem couples_findFunction :
    Agrees R (findFunction cfg pos name) (findFunction cfg' pos name) := by
  refine .ifSome (couples_find K) ?_
  rintro ⟨depth, e⟩
  dsimp only
  cases e.item with
  | function f => exact .pure
  | _ => exact couples_error_pure K

theorem couples_checkArguments {f : Signature} {args : List Typed} :
    Agrees R (checkArguments cfg pos f args)
      (checkArguments cfg' pos f args) := by
  refine .ite (couples_error_pure K) ?_
  cases f.checkKinds (args.map Typed.kind) with
  | ok _ => exact .pure
  | error fault => exact couples_error_pure K

omit K in
mutual

theorem couples_typeExpr (K : Coupling cfg cfg' R I Fit) (pos : Position) (e : Expr) :
    Agrees R (typeExpr cfg pos e) (typeExpr cfg' pos e) := by
  cases e with
  | literal v => exact .pure
  | ref name => exact couples_typeRef K
  | unary op e =>
    rw [typeExpr, typeExpr]
    refine .ifSome (couples_typeExpr K pos e) fun t => ?_
    dsimp only
    cases Value.unary op t.static with
    | ok v => exact .pure
    | error f => exact .bind (couples_valueError K) fun _ => .pure
  | binary op l r =>
    rw [typeExpr, typeExpr]
    refine .ifSome (couples_typeExpr K pos l) fun tl => ?_
    refine .ifSome (couples_typeExpr K pos r) fun tr => ?_
    dsimp only
    cases Value.binary op tl.static tr.static with
    | ok v => exact .pure
    | error f => exact .bind (couples_valueError K) fun _ => .pure
  | call name args =>
    rw [typeExpr, typeExpr]
    refine .ifSome (couples_findFunction K pos name) fun f => ?_
    refine .ifSome (couples_typeArgs K pos args) fun typed => ?_
    refine .bind (couples_checkArguments K) fun fits => ?_
    exact .ite .pure (.ite (couples_error_pure K) .pure)

theorem couples_typeArgs (K : Coupling cfg cfg' R I Fit) (pos : Position) (args : List Expr) :
    Agrees R (typeArgs cfg pos args) (typeArgs cfg' pos args) := by
  cases args with
  | nil => exact .pure
  | cons e rest =>
    rw [typeArgs, typeArgs]
    refine .bind (couples_typeExpr K pos e) fun _ => ?_
    exact .bind (couples_typeArgs K pos rest) fun _ => .pure

end

theorem couples_typeCall {args : List Expr} :
    Agrees R (typeCall cfg pos name args) (typeCall cfg' pos name args) := by
  refine .ifSome (couples_findFunction K pos name) fun f => ?_
  refine .ifSome (couples_typeArgs K pos args) fun typed => ?_
  exact .bind (couples_checkArguments K) fun _ => .pure

/-! ## Declarations -/

theorem couples_declareGlobal {init : Option Typed} :
    Agrees R (declareGlobal cfg pos name kind init)
      (declareGlobal cfg' pos name kind init) := by
  refine .ite (couples_error_pure K) ?_
  refine .bind (couples_insert K) fun slot => ?_
  refine .ite .pure ?_
  refine .bind (couples_markTopAssigned K) fun _ => ?_
  refine couples_emit_unit K ?_
  cases init with
  | none => exact .of_done (c := .declareGlobal name kind) rfl
  | some t => exact .of_done (c := .declareGlobalInit name t.static) rfl

theorem couples_store :
    Agrees R (store cfg pos name) (store cfg' pos name) := by
  refine .ifSome (couples_find K) ?_
  rintro ⟨depth, e⟩
  refine .get_bind fun c c' related => ?_
  rw [location_eq K related]
  exact couples_emit_unit K (.of_done (c := .store name _) rfl)

theorem couples_declareLocal {init : Option Typed} :
    Agrees R (declareLocal cfg pos name kind init)
      (declareLocal cfg' pos name kind init) := by
  cases init with
  | none => exact .bind (couples_insertLocal K) fun _ => .pure
  | some t =>
    refine (couples_emit K pos t.sequence_emit).bind fun _ _ _ => ?_
    refine Agrees.bind (couples_insertLocal K) fun _ => ?_
    exact .ite (.bind (couples_markTopAssigned K) fun _ => couples_store K)
      .pure

theorem couples_typeInit {init : Option Expr} :
    Agrees R (typeInit cfg pos name kind init)
      (typeInit cfg' pos name kind init) := by
  cases init with
  | none => exact .pure
  | some e =>
    refine .ifSome (couples_typeExpr K pos e) fun t => ?_
    exact .ite .pure (couples_error_pure K)

theorem couples_declareVariable {init : Option Expr} :
    Agrees R (declareVariable cfg pos name kind init)
      (declareVariable cfg' pos name kind init) := by
  refine .ite (couples_error_pure K) ?_
  refine .ifSome (couples_typeInit K) fun init => ?_
  refine .get_bind fun c c' related => ?_
  rw [K.stack related]
  exact .ite (couples_declareGlobal K)
    (couples_declareLocal K)

theorem couples_declareConstant {kind : Option Kind} {init : Expr} :
    Agrees R (declareConstant cfg pos name kind init)
      (declareConstant cfg' pos name kind init) := by
  refine .ifSome (couples_typeExpr K pos init) fun t => ?_
  dsimp only
  cases kind.filter (· ≠ t.static.kind) with
  | some k => exact K.error pos _ _
  | none =>
    refine .ite (K.error pos _ _) ?_
    cases Symbol.newConstant name t.static with
    | error f => exact K.error pos _ _
    | ok s => exact .bind (couples_insert K) fun _ => .pure

theorem couples_declareArray {length : Nat} {values : List Value} (fit : Fit length) :
    Agrees R (declareArray cfg pos name kind length values)
      (declareArray cfg' pos name kind length values) := by
  unfold declareArray
  cases ArrayVar.new name kind length with
  | error f => exact K.error pos _ _
  | ok a =>
    refine .bind (K.allocate length fit) fun _ => ?_
    cases fillArray a 0 values with
    | error fault => exact K.error pos _ _
    | ok a => exact .bind (couples_insert K) fun _ => .pure

theorem couples_declare {d : Program.Declaration} (fit : ∀ n ∈ d.lengths, Fit n) :
    Agrees R (declare cfg pos d) (declare cfg' pos d) := by
  cases d with
  | «variable» name kind init => exact couples_declareVariable K
  | constant name kind init => exact couples_declareConstant K
  | array name kind length values =>
    exact couples_declareArray K (fit length (by simp [Program.Declaration.lengths]))

/-! ## Simple statements -/

theorem couples_findTarget :
    Agrees R (findTarget cfg pos name) (findTarget cfg' pos name) := by
  refine .ifSome (couples_find K) ?_
  rintro ⟨depth, e⟩
  dsimp only
  cases e.item with
  | «variable» _ v => exact .pure
  | _ => exact couples_error_pure K

theorem couples_assign (e : Expr) :
    Agrees R (assign cfg pos name e) (assign cfg' pos name e) := by
  refine .bind (couples_typeExpr K pos e) fun typed => ?_
  refine .bind (couples_findTarget K) fun target => ?_
  rcases typed with _ | t
  · exact .pure
  · rcases target with _ | ⟨depth, kind⟩
    · exact .pure
    · refine .ite (K.error pos _ _) ?_
      refine (couples_emit K pos t.sequence_emit).bind fun _ _ _ => ?_
      exact Agrees.bind (couples_markAssigned K) fun _ => couples_store K

theorem couples_print {newline : Bool} (e : Expr) :
    Agrees R (print cfg pos newline e) (print cfg' pos newline e) := by
  refine .ifSome (couples_typeExpr K pos e) fun t => ?_
  apply couples_emit_unit K
  refine .bind (.of_done (c := .printBegin) rfl) fun _ => .bind t.sequence_emit fun _ => ?_
  exact .of_done (c := .printEnd t.kind newline) rfl

theorem couples_condition {e : Expr} :
    Agrees R (condition cfg pos e) (condition cfg' pos e) := by
  refine .ifSome (couples_typeExpr K pos e) fun t => ?_
  exact .ite (K.error pos _ _) (couples_emit_unit K t.sequence_emit)

theorem couples_returnFrom (f : Signature) (e : Option Expr) :
    Agrees R (returnFrom cfg pos f e) (returnFrom cfg' pos f e) := by
  unfold returnFrom
  cases f.result? with
  | none =>
    cases e with
    | none => exact couples_emit_unit K (.of_done (c := .returnVoid) rfl)
    | some e => exact K.error pos _ _
  | some want =>
    cases e with
    | none => exact K.error pos _ _
    | some e =>
      refine .ifSome (couples_typeExpr K pos e) fun t => ?_
      refine .ite (K.error pos _ _) (couples_emit_unit K ?_)
      exact .bind t.sequence_emit fun _ => .of_done (c := .returnValue) rfl

theorem couples_ret (e : Option Expr) :
    Agrees R (ret cfg pos e) (ret cfg' pos e) := by
  refine .get_bind fun c c' related => ?_
  rw [K.function related]
  cases c.function with
  | none =>
    exact .ite (K.error pos _ _)
      (couples_emit_unit K (.of_done (c := .returnVoid) rfl))
  | some f => exact couples_returnFrom K f e

theorem couples_call {args : List Expr} :
    Agrees R (call cfg pos name args) (call cfg' pos name args) := by
  refine .ifSome (couples_typeCall K) ?_
  rintro ⟨f, typed⟩
  apply couples_emit_unit K
  refine .bind (sequence_emitArgs typed) fun _ => ?_
  refine .bind (.of_done (c := .invoke (some f) typed.length) rfl) fun _ => .ite ?_ .pure
  exact .of_done (c := .pop) rfl

/-! ## The parts of branches and loops -/

variable (pos) in
theorem couples_openThen (cond : Expr) :
    Couples R (I Nat) (openThen cfg pos cond) (openThen cfg' pos cond) := by
  refine (couples_condition K).then fun _ => ?_
  refine (couples_emit K pos (.of_block (c := .ifBegin) rfl)).bind fun id id' begun => ?_
  exact (couples_enter K).then fun _ => .pure begun

variable (pos) in
theorem couples_openElse (begun : I Nat id id') :
    Agrees R (openElse cfg pos id) (openElse cfg' pos id') := by
  refine .bind (couples_leave K) fun _ => ?_
  refine (K.emit pos Emit.otherwise (fun id => .of_done (c := .otherwise id) rfl) begun).bind ?_
  exact fun _ _ _ => couples_enter K

theorem couples_closeBranch (begun : I Nat id id') :
    Agrees R (closeBranch cfg pos id) (closeBranch cfg' pos id') := by
  refine .bind (couples_leave K) fun _ => ?_
  refine (K.emit pos Emit.ifEnd (fun id => .of_done (c := .ifEnd id) rfl) begun).bind ?_
  exact fun _ _ _ => Agrees.pure

variable (pos) in
theorem couples_openLoop (cond : Expr) :
    Couples R (I Nat) (openLoop cfg pos cond) (openLoop cfg' pos cond) := by
  refine (couples_emit K pos (.of_block (c := .loopBegin) rfl)).bind fun id id' begun => ?_
  refine (couples_condition K).then fun _ => ?_
  refine (K.emit pos Emit.loopTest (fun id => .of_done (c := .loopTest id) rfl) begun).bind ?_
  exact fun _ _ _ => (couples_enter K).then fun _ => .pure begun

theorem couples_closeLoop (begun : I Nat id id') :
    Agrees R (closeLoop cfg pos id) (closeLoop cfg' pos id') := by
  refine .bind (couples_leave K) fun _ => ?_
  refine (K.emit pos Emit.loopEnd (fun id => .of_done (c := .loopEnd id) rfl) begun).bind ?_
  exact fun _ _ _ => Agrees.pure

/-! ## Statements -/

mutual

/-- The step for a statement, one case for each form. -/
theorem couples_stmt (s : Stmt) (fit : ∀ n ∈ s.lengths, Fit n) :
    Agrees R (stmt cfg s) (stmt cfg' s) := by
  cases s with
  | declare pos d =>
    rw [stmt, stmt]
    exact .bind (K.point (.declare pos d)) fun _ =>
      couples_declare K (by simpa only [Stmt.lengths] using fit)
  | assign pos name e =>
    rw [stmt, stmt]
    exact .bind (K.point (.assign pos name e)) fun _ => couples_assign K e
  | print pos newline e =>
    rw [stmt, stmt]
    exact .bind (K.point (.print pos newline e)) fun _ => couples_print K e
  | branch pos cond thenBody elseBody =>
    rw [Stmt.lengths, List.forall_mem_append] at fit
    rw [stmt_branch, stmt_branch]
    refine .bind (K.point _) fun _ => (couples_openThen K pos cond).bind fun id id' begun => ?_
    refine Agrees.bind (couples_stmts thenBody fit.1) fun _ => .ite (couples_closeBranch K begun) ?_
    refine .bind (couples_openElse K pos begun) fun _ => ?_
    exact .bind (couples_stmts elseBody fit.2) fun _ => couples_closeBranch K begun
  | loop pos cond body =>
    rw [Stmt.lengths] at fit
    rw [stmt_loop, stmt_loop]
    refine .bind (K.point _) fun _ => (couples_openLoop K pos cond).bind fun id id' begun => ?_
    exact Agrees.bind (couples_stmts body fit) fun _ => couples_closeLoop K begun
  | ret pos e =>
    rw [stmt, stmt]
    exact .bind (K.point (.ret pos e)) fun _ => couples_ret K e
  | call pos name args =>
    rw [stmt, stmt]
    exact .bind (K.point (.call pos name args)) fun _ => couples_call K
  | block pos body =>
    rw [Stmt.lengths] at fit
    rw [stmt_block, stmt_block]
    refine .bind (K.point _) fun _ => .bind (couples_enter K) fun _ => ?_
    exact .bind (couples_stmts body fit) fun _ => couples_leave K

theorem couples_stmts (ss : List Stmt) (fit : ∀ n ∈ lengthsOf ss, Fit n) :
    Agrees R (stmts cfg ss) (stmts cfg' ss) := by
  cases ss with
  | nil => exact .pure
  | cons s rest =>
    rw [lengthsOf, List.forall_mem_append] at fit
    rw [stmts, stmts]
    refine .bind K.poll fun goesOn => .ite ?_ .pure
    exact .bind (couples_stmt s fit.1) fun _ => couples_stmts rest fit.2

end

end Walk

/-! ## Programs -/

/-- A coupling that also holds of the parts of a program around its statements. -/
structure Coupling.Whole (cfg cfg' : Config) (R : State → State → Prop) (Fit : Nat → Prop) : Prop
    extends Coupling cfg cfg' R (fun _ a a' => a' = a) Fit where
  within : ∀ {c c'} f, R c c' → R { c with function := f } { c' with function := f }
  dump : ∀ title, Agrees R (Walk.dumpScopes title) (Walk.dumpScopes title)
  span : ∀ {name body body'}, Agrees R body body' →
    Agrees R (Walk.inSpan name body) (Walk.inSpan name body')
  write : ∀ {α : Type} pos (step : Emit α),
    Agrees R (Walk.emit cfg pos step) (Walk.emit cfg' pos step)

namespace Walk

variable {cfg cfg' : Config} {R : State → State → Prop} {Fit : Nat → Prop}
  (K : Coupling.Whole cfg cfg' R Fit) {pos : Position}
include K

theorem couples_parameters {params : List (String × Kind)} :
    Agrees R (parameters cfg pos params) (parameters cfg' pos params) := by
  induction params with
  | nil => exact .pure
  | cons p rest ih =>
    refine .bind (couples_insertLocal K.toCoupling) fun _ => ?_
    exact .ite (.bind (couples_markTopAssigned K.toCoupling) fun _ => ih) ih

theorem couples_closeMethod {title : String} {step : Emit Unit} :
    Agrees R (closeMethod cfg pos title step) (closeMethod cfg' pos title step) := by
  refine .bind (K.dump title) fun _ => .bind (couples_leave K.toCoupling) fun _ => ?_
  exact .bind (K.write _ _) fun _ => .pure

theorem couples_functionBody (f : Program.Function) (fit : ∀ n ∈ lengthsOf f.body, Fit n) :
    Agrees R (functionBody cfg f) (functionBody cfg' f) := by
  refine .bind (K.write _ _) fun _ => .bind (couples_enter K.toCoupling) fun _ => ?_
  refine .bind (couples_parameters K) fun _ => ?_
  refine .bind (couples_stmts K.toCoupling f.body fit) fun _ => ?_
  cases f.signature.result? with
  | none => exact couples_closeMethod K
  | some k =>
    exact .ite (.bind (K.error _ _ _) fun _ => couples_closeMethod K) (couples_closeMethod K)

theorem couples_function (f : Program.Function) (fit : ∀ n ∈ lengthsOf f.body, Fit n) :
    Agrees R (function cfg f) (function cfg' f) := by
  refine K.span (.bind (couples_insert K.toCoupling) fun slot => .ite ?_ .pure)
  refine .bind (.modify fun _ _ => K.within _) fun _ => ?_
  exact .bind (couples_functionBody K f fit) fun _ => .modify fun _ _ => K.within _

theorem couples_main {body : List Stmt} (fit : ∀ n ∈ lengthsOf body, Fit n) :
    Agrees R (main cfg pos body) (main cfg' pos body) := by
  refine K.span (.bind (K.write _ _) fun _ => .bind (couples_enter K.toCoupling) fun _ => ?_)
  exact .bind (couples_stmts K.toCoupling body fit) fun _ => couples_closeMethod K

theorem couples_globals {ds : List (Position × Program.Declaration)}
    (fit : ∀ d ∈ ds, ∀ n ∈ d.2.lengths, Fit n) :
    Agrees R (globals cfg ds) (globals cfg' ds) := by
  induction ds with
  | nil => exact .pure
  | cons d rest ih =>
    rw [List.forall_mem_cons] at fit
    exact .bind (couples_declare K.toCoupling fit.1) fun _ => ih fit.2

theorem couples_functions {fs : List Program.Function}
    (fit : ∀ f ∈ fs, ∀ n ∈ lengthsOf f.body, Fit n) :
    Agrees R (functions cfg fs) (functions cfg' fs) := by
  induction fs with
  | nil => exact .pure
  | cons f rest ih =>
    rw [List.forall_mem_cons] at fit
    exact .bind (couples_function K f fit.1) fun _ => ih fit.2

/-- The run over a whole program. -/
theorem couples_program (p : Program) (fit : ∀ n ∈ p.lengths, Fit n) :
    Agrees R (program cfg p) (program cfg' p) := by
  simp only [Program.lengths, List.forall_mem_append, List.forall_mem_flatMap] at fit
  obtain ⟨⟨globals, functions⟩, main⟩ := fit
  refine .bind (K.write _ _) fun _ => .bind (couples_globals K globals) fun _ => ?_
  refine .bind (couples_functions K functions) fun _ => .bind (couples_main K main) fun _ => ?_
  exact .bind (K.write _ _) fun _ => .pure

end Walk

end Compile

end Jasm

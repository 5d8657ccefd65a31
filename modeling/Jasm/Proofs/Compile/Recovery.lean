import Jasm.Proofs.Compile.Coupling
import Jasm.Proofs.Compile.Trails

/-!
# Going on behind an error

Behind an error nothing more is written, but the walk goes on to find what else is wrong. What it
finds from then on does not depend on the error: a statement is walked with the same effect on the
scopes, the same known values and the same findings as if there had been no error before it. Only a
walk without an error can find, once, that a part of the assembly program is refused.
-/

namespace Jasm

open List
open Program (Expr Stmt)

namespace Compile

open Assembly (Emit Generator Fault isStorable)

variable {α β : Type}

namespace Walk

variable (cfg : Config) (pos : Position)

/-! ## Known values -/

/-- What a step finds is used only if there is something. -/
def ifSome (m : Walk (Option α)) (next : State → List β) (c : State) : List β :=
  match m.run c with
  | (some _, c₁) => next c₁
  | (none, _) => []

/-- What is known of an expression, unless something is wrong with it. -/
def known (e : Expr) (c : State) : List (Expr × Value) :=
  ((typeExpr cfg pos e).run c).1.toList.map fun t => (e, t.static)

mutual

/-- What typing an expression comes to know of it and of its parts, in this order. -/
def exprNotes : Expr → State → List (Expr × Value)
  | .literal v, c => known cfg pos (.literal v) c
  | .ref name, c => known cfg pos (.ref name) c
  | .unary op e, c => exprNotes e c ++ known cfg pos (.unary op e) c
  | .binary op l r, c =>
    exprNotes l c ++ ifSome (typeExpr cfg pos l) (exprNotes r) c ++ known cfg pos (.binary op l r) c
  | .call name args, c =>
    ifSome (findFunction cfg pos name) (argsNotes args) c ++ known cfg pos (.call name args) c

def argsNotes : List Expr → State → List (Expr × Value)
  | [], _ => []
  | e :: rest, c => exprNotes e c ++ argsNotes rest (behind (typeExpr cfg pos e) c)

end

/-- A variable without storage is refused before its value is looked at. -/
def declarationNotes : Program.Declaration → State → List (Expr × Value)
  | .variable _ kind (some e), c => if isStorable kind then exprNotes cfg pos e c else []
  | .variable _ _ none, _ => []
  | .constant _ _ e, c => exprNotes cfg pos e c
  | .array .., _ => []

/-- A value is looked at where one is to be returned. -/
def returnNotes (e : Option Expr) (c : State) : List (Expr × Value) :=
  match c.function.bind Signature.result?, e with
  | some _, some e => exprNotes cfg pos e c
  | _, _ => []

mutual

/-- What walking a statement comes to know of the expressions in it, in this order. -/
def stmtNotes : Stmt → State → List (Expr × Value)
  | .declare pos d, c => declarationNotes cfg pos d (behind (point (.declare pos d)) c)
  | .assign pos name e, c => exprNotes cfg pos e (behind (point (.assign pos name e)) c)
  | .print pos newline e, c => exprNotes cfg pos e (behind (point (.print pos newline e)) c)
  | .branch pos cond thenBody elseBody, c =>
    let c₁ := behind (point (.branch pos cond thenBody elseBody)) c
    exprNotes cfg pos cond c₁ ++ stmtsNotes thenBody (behind (openThen cfg pos cond) c₁) ++
      stmtsNotes elseBody (behind (do
        let id ← openThen cfg pos cond
        stmts cfg thenBody
        openElse cfg pos id) c₁)
  | .loop pos cond body, c =>
    let c₁ := behind (point (.loop pos cond body)) c
    exprNotes cfg pos cond (behind (emit cfg pos Emit.loopBegin) c₁) ++
      stmtsNotes body (behind (openLoop cfg pos cond) c₁)
  | .ret pos e, c => returnNotes cfg pos e (behind (point (.ret pos e)) c)
  | .call pos name args, c =>
    ifSome (findFunction cfg pos name) (argsNotes cfg pos args)
      (behind (point (.call pos name args)) c)
  | .block pos body, c =>
    stmtsNotes body (behind (do point (.block pos body); enter false) c)

def stmtsNotes : List Stmt → State → List (Expr × Value)
  | [], _ => []
  | s :: rest, c =>
    let c₁ := behind poll c
    if (poll.run c).1 then stmtNotes s c₁ ++ stmtsNotes rest (behind (stmt cfg s) c₁) else []

end

end Walk

/-- The same is read off related states. -/
def Reads (R : State → State → Prop) (f f' : State → β) : Prop := ∀ c c', R c c' → f' c' = f c

namespace Reads

variable {R : State → State → Prop}

theorem after {γ δ : Type} {V : γ → δ → Prop} {m : Walk γ} {m' : Walk δ} {f f' : State → β}
    (first : Couples R V m m') (second : Reads R f f') :
    Reads R (fun c => f (Walk.behind m c)) (fun c => f' (Walk.behind m' c)) :=
  fun c c' related => second _ _ (first c c' related).2

theorem append {f f' g g' : State → List β} (first : Reads R f f') (second : Reads R g g') :
    Reads R (fun c => f c ++ g c) (fun c => f' c ++ g' c) := fun c c' related =>
  congr (congrArg _ (first c c' related)) (second c c' related)

theorem ifSome {m m' : Walk (Option α)} {f f' : State → List β} (first : Agrees R m m')
    (second : Reads R f f') : Reads R (Walk.ifSome m f) (Walk.ifSome m' f') := by
  intro c c' related
  obtain ⟨value, related₁⟩ := first c c' related
  unfold Walk.ifSome
  rcases hm : m.run c with ⟨r, c₁⟩
  rcases hm' : m'.run c' with ⟨r', c₁'⟩
  rw [hm, hm'] at value related₁
  cases value
  cases r with
  | none => rfl
  | some a => exact second _ _ related₁

end Reads

namespace Walk

variable {cfg cfg' : Config} {R : State → State → Prop}
  {I : ∀ α : Type, Option α → Option α → Prop} (K : Coupling cfg cfg' R I fun _ => True)
  (pos : Position)

include K

theorem reads_known {e : Expr} : Reads R (known cfg pos e) (known cfg' pos e) := by
  intro c c' related
  unfold known
  rw [(couples_typeExpr K pos e c c' related).1]

mutual

theorem reads_exprNotes (e : Expr) :
    Reads R (exprNotes cfg pos e) (exprNotes cfg' pos e) := by
  intro c c' related
  cases e with
  | literal _ | ref _ =>
    rw [exprNotes, exprNotes]
    exact reads_known K pos c c' related
  | unary op e =>
    rw [exprNotes, exprNotes]
    exact (reads_exprNotes e).append (reads_known K pos) c c' related
  | binary op l r =>
    rw [exprNotes, exprNotes]
    have parts := (reads_exprNotes l).append
      (.ifSome (couples_typeExpr K pos l) (reads_exprNotes r))
    exact parts.append (reads_known K pos) c c' related
  | call name args =>
    rw [exprNotes, exprNotes]
    have parts := Reads.ifSome (couples_findFunction K pos name) (reads_argsNotes args)
    exact parts.append (reads_known K pos) c c' related

theorem reads_argsNotes (args : List Expr) :
    Reads R (argsNotes cfg pos args) (argsNotes cfg' pos args) := by
  intro c c' related
  cases args with
  | nil =>
    rw [argsNotes, argsNotes]
  | cons e rest =>
    rw [argsNotes, argsNotes]
    have others := (reads_argsNotes rest).after (couples_typeExpr K pos e)
    exact (reads_exprNotes e).append others c c' related

end

theorem reads_declarationNotes (d : Program.Declaration) :
    Reads R (declarationNotes cfg pos d) (declarationNotes cfg' pos d) := by
  intro c c' related
  cases d with
  | «variable» name kind init =>
    cases init with
    | none => rfl
    | some e =>
      simp only [declarationNotes, reads_exprNotes K pos e c c' related]
  | constant name kind e => exact reads_exprNotes K pos e c c' related
  | array name kind length values => rfl

theorem reads_returnNotes (e : Option Expr) :
    Reads R (returnNotes cfg pos e) (returnNotes cfg' pos e) := by
  intro c c' related
  unfold returnNotes
  rw [K.function related]
  cases c.function.bind Signature.result? with
  | none => rfl
  | some kind =>
    cases e with
    | none => rfl
    | some e => exact reads_exprNotes K pos e c c' related

mutual

theorem reads_stmtNotes (s : Stmt) : Reads R (stmtNotes cfg s) (stmtNotes cfg' s) := by
  intro c c' related
  cases s with
  | declare pos d =>
    rw [stmtNotes, stmtNotes]
    exact (reads_declarationNotes K pos d).after (K.point _) c c' related
  | assign pos _ e | print pos _ e =>
    rw [stmtNotes, stmtNotes]
    exact (reads_exprNotes K pos e).after (K.point _) c c' related
  | branch pos cond thenBody elseBody =>
    rw [stmtNotes, stmtNotes]
    have first := (reads_stmtsNotes thenBody).after (couples_openThen K pos cond)
    have between : Compile.Agrees R
        (do let id ← openThen cfg pos cond; stmts cfg thenBody; openElse cfg pos id)
        (do let id ← openThen cfg' pos cond; stmts cfg' thenBody; openElse cfg' pos id) :=
      (couples_openThen K pos cond).bind fun _ _ begun =>
        Compile.Agrees.bind (couples_stmts K thenBody fun _ _ => trivial) fun _ =>
          couples_openElse K pos begun
    have second := (reads_stmtsNotes elseBody).after between
    have all := ((reads_exprNotes K pos cond).append first).append second
    exact all.after (K.point _) c c' related
  | loop pos cond body =>
    rw [stmtNotes, stmtNotes]
    have begun := couples_emit K pos (.of_block (c := .loopBegin) rfl)
    have all := ((reads_exprNotes K pos cond).after begun).append
      ((reads_stmtsNotes body).after (couples_openLoop K pos cond))
    exact all.after (K.point _) c c' related
  | ret pos e =>
    rw [stmtNotes, stmtNotes]
    exact (reads_returnNotes K pos e).after (K.point _) c c' related
  | call pos name args =>
    rw [stmtNotes, stmtNotes]
    have args := Reads.ifSome (couples_findFunction K pos name) (reads_argsNotes K pos args)
    exact args.after (K.point _) c c' related
  | block pos body =>
    rw [stmtNotes, stmtNotes]
    have opening : Compile.Agrees R (do point (.block pos body); enter false)
        (do point (.block pos body); enter false) :=
      .bind (K.point _) fun _ => couples_enter K
    exact (reads_stmtsNotes body).after opening c c' related

theorem reads_stmtsNotes (ss : List Stmt) :
    Reads R (stmtsNotes cfg ss) (stmtsNotes cfg' ss) := by
  intro c c' related
  cases ss with
  | nil => rw [stmtsNotes, stmtsNotes]
  | cons s rest =>
    rw [stmtsNotes, stmtsNotes, (K.poll c c' related).1]
    split
    · have all := (reads_stmtNotes s).append
        ((reads_stmtsNotes rest).after (couples_stmt K s fun _ _ => trivial))
      exact all.after K.poll c c' related
    · rfl

end

end Walk

/-! ## A walk behind an error and one without -/

/-- What a walk finds besides when no error was reported before it: at most that, behind some calls
that are carried out, one is refused. This is found before any other error. -/
def Surplus (cfg : Config) (g : Generator) (before refused : List Diagnostic) : Prop :=
  refused = [] ∨ (∀ d ∈ before, d.severity.isError = false) ∧ ∃ cs f, ∃ pos : Position,
    g.Refuses cs f ∧ refused = [.error f.diagnosticCode (pos.place cfg.path) f.message]

/-- States of a walk behind an error and of one that starts without an error, from `g` and with
findings going to `r`. -/
structure Recovers (cfg : Config) (r : Reporter) (g : Generator) (b a : State) : Prop where
  stack : a.stack = b.stack
  bases : a.bases = b.bases
  assigned : a.assigned = b.assigned
  function : a.function = b.function
  polls : a.polls = b.polls
  failed : b.failed = true
  found : ∃ before refused after, b.reporter = r.reportAll (before ++ after) ∧
    a.reporter = r.reportAll (before ++ refused ++ after) ∧ Surplus cfg g before refused ∧
    (a.failed = false → refused = [] ∧ after = [] ∧ (∀ d ∈ before, d.severity.isError = false) ∧
      ∃ cs, g.Carries cs a.generator)

namespace Recovers

variable {cfg : Config} {r : Reporter} {g : Generator} {b a : State}

theorem start (cfg : Config) (c : State) : Recovers cfg c.reporter c.generator
    { c with failed := true } { c with failed := false } :=
  ⟨rfl, rfl, rfl, rfl, rfl, rfl, [], [], [], rfl, rfl, .inl rfl, fun _ =>
    ⟨rfl, rfl, by simp, [], .nil _⟩⟩

theorem report (h : Recovers cfg r g b a) (d : Diagnostic) (failed : Bool)
    (fine : failed = false → a.failed = false ∧ d.severity.isError = false) :
    Recovers cfg r g { b with reporter := b.reporter.report d }
      { a with reporter := a.reporter.report d, failed := failed } := by
  obtain ⟨before, refused, after, hb, ha, surplus, clean⟩ := h.found
  refine { h with found := ?_ }
  cases failed with
  | true =>
    refine ⟨before, refused, after ++ [d], ?_, ?_, surplus, fun h => by cases h⟩
    · rw [← append_assoc, Reporter.reportAll_append, ← hb]
      rfl
    · rw [← append_assoc, Reporter.reportAll_append, ← ha]
      rfl
  | false =>
    obtain ⟨free, mild⟩ := fine rfl
    obtain ⟨rfl, rfl, none, carried⟩ := clean free
    rw [append_nil] at hb
    rw [append_nil, append_nil] at ha
    refine ⟨before ++ [d], [], [], ?_, ?_, .inl rfl, fun _ => ⟨rfl, rfl, ?_, carried⟩⟩
    · rw [append_nil, Reporter.reportAll_append, ← hb]
      rfl
    · rw [append_nil, append_nil, Reporter.reportAll_append, ← ha]
      rfl
    · rw [forall_mem_append, forall_mem_singleton]
      exact ⟨none, mild⟩

theorem carry (h : Recovers cfg r g b a) {g' : Generator} (fine : a.failed = false)
    (carries : ∃ cs, a.generator.Carries cs g') :
    Recovers cfg r g b { a with generator := g' } := by
  obtain ⟨before, refused, after, hb, ha, surplus, clean⟩ := h.found
  obtain ⟨hr, hafter, none, cs, carried⟩ := clean fine
  obtain ⟨ds, more⟩ := carries
  exact { h with found := ⟨before, refused, after, hb, ha, surplus, fun _ =>
    ⟨hr, hafter, none, cs ++ ds, carried.trans more⟩⟩ }

theorem refuse (h : Recovers cfg r g b a) {g' : Generator} {f : Fault} {pos : Position}
    (fine : a.failed = false) (refuses : ∃ cs, a.generator.Refuses cs f) :
    Recovers cfg r g b
      { a with
        generator := g'
        failed := true
        reporter :=
          a.reporter.report (.error f.diagnosticCode (pos.place cfg.path) f.message) } := by
  obtain ⟨before, refused, after, hb, ha, -, clean⟩ := h.found
  obtain ⟨rfl, rfl, none, cs, carried⟩ := clean fine
  obtain ⟨ds, more⟩ := refuses
  refine { h with found := ⟨before, [_], [], hb, ?_, .inr ⟨none, cs ++ ds, f, pos, ?_, rfl⟩, ?_⟩ }
  · rw [append_nil, append_nil] at ha
    rw [append_nil, Reporter.reportAll_append, ← ha]
    rfl
  · exact carried.refuses more
  · exact fun h => by cases h

end Recovers

namespace Walk

variable (cfg : Config) (r : Reporter) (g : Generator)

theorem recovers_emit {pos : Position} {step step' : Emit α} (h : step'.Sequence) :
    Couples (Recovers cfg r g) (fun _ _ => True) (emit cfg pos step) (emit cfg pos step') := by
  intro b a recovers
  refine ⟨trivial, ?_⟩
  rw [run_emit_of_failed cfg pos step recovers.failed]
  cases fine : a.failed with
  | true =>
    rw [run_emit_of_failed cfg pos step' fine]
    exact recovers
  | false =>
    rcases Emit.writes_or_refused step' a.generator with ⟨v, w⟩ | ⟨f, refused⟩
    · rw [run_emit_of_writes cfg fine w]
      exact recovers.carry fine (h.carries w)
    · rw [run_emit_of_refused cfg fine refused]
      exact recovers.refuse fine (h.refuses refused)

theorem recovers_poll : Compile.Agrees (Recovers cfg r g) poll poll := by
  intro b a recovers
  rw [run_poll, run_poll, recovers.polls]
  rcases b.polls with _ | _ | n
  · exact ⟨rfl, recovers⟩
  · exact ⟨rfl, recovers⟩
  · exact ⟨rfl, { recovers with polls := rfl }⟩

theorem coupling_of_recovers :
    Coupling cfg cfg (Recovers cfg r g) (fun _ _ _ => True) fun _ => True where
  limit := rfl
  stack := Recovers.stack
  bases := Recovers.bases
  assigned := Recovers.assigned
  function := Recovers.function
  scopes recovers stack bases assigned :=
    { recovers with stack := stack, bases := bases, assigned := assigned }
  point _ := .modify fun _ _ recovers => { recovers with }
  poll := recovers_poll cfg r g
  allocate _ _ := .modify fun _ _ recovers => { recovers with }
  error pos code message := .modify fun b a recovers => by
    have next := recovers.report (.error code (pos.place cfg.path) message) true
      (fun h => by cases h)
    exact { next with failed := rfl }
  warning pos code message := .modify fun b a recovers =>
    recovers.report (.warning code (pos.place cfg.path) message) _ fun h => ⟨h, rfl⟩
  given _ := trivial
  emit _ _ _ _ h _ := recovers_emit cfg r g (h _)

/-- A statement is walked behind an error and without one, and does the same to the scopes, knows
the same of its expressions and finds the same, except for a part of the program that is refused
where there was no error. So findings with a code that is not one of refused parts are the same. -/
theorem stmt_finds_same_behind_error (s : Stmt) (c : State) :
    ∃ before refused after broken cleared,
      Finds (stmt cfg s) { c with failed := true } (before ++ after) () broken ∧
      Finds (stmt cfg s) { c with failed := false } (before ++ refused ++ after) () cleared ∧
      Surplus cfg c.generator before refused ∧ broken.generator = c.generator ∧
      cleared.stack = broken.stack ∧ cleared.bases = broken.bases ∧
      cleared.assigned = broken.assigned ∧
      stmtNotes cfg s { c with failed := false } = stmtNotes cfg s { c with failed := true } ∧
      ∀ code, (∀ f : Fault, f.diagnosticCode ≠ code) →
        (before ++ refused ++ after).filter (·.code = code) =
          (before ++ after).filter (·.code = code) := by
  obtain ⟨ds, ⟨⟩, broken, acts⟩ := (ensures_stmt s).honest { c with failed := true }
  obtain ⟨ds', ⟨⟩, cleared, acts'⟩ := (ensures_stmt s).honest { c with failed := false }
  -- A receiver with room for all findings tells what was found.
  let r : Reporter := .bag { limit := ds.length + ds'.length + 1 }
  have start : Recovers cfg r c.generator ({ c with failed := true }.withReporter r)
      ({ c with failed := false }.withReporter r) := .start cfg (c.withReporter r)
  have done :=
    (couples_stmt (coupling_of_recovers cfg r c.generator) s (fun _ _ => trivial) _ _ start).2
  rw [acts.run r, acts'.run r] at done
  obtain ⟨before, refused, after, hb, ha, surplus, -⟩ := done.found
  have found : ds = before ++ after := Reporter.eq_of_reportAll_bag (by omega) hb
  have found' : ds' = before ++ refused ++ after := Reporter.eq_of_reportAll_bag (by omega) ha
  refine ⟨before, refused, after, broken, cleared, found ▸ acts.toFinds, found' ▸ acts'.toFinds,
    surplus, acts.frozen rfl, done.stack, done.bases, done.assigned, ?_, ?_⟩
  · exact reads_stmtNotes (coupling_of_recovers cfg _ _) s _ _ (.start cfg c)
  · intro code other
    have none : refused.filter (·.code = code) = [] := by
      rcases surplus with rfl | ⟨-, cs, f, pos, -, rfl⟩
      · rfl
      · simpa [Diagnostic.error] using other f
    rw [List.filter_append, List.filter_append, none, List.append_nil, ← List.filter_append]

end Walk

end Compile

end Jasm

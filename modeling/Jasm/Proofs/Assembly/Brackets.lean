import Jasm.Proofs.Assembly.Indentation
import Jasm.Proofs.Assembly.Phases

/-!
# Brackets

The calls that write something come in an order with brackets: a class is begun and ended, methods
are begun and ended in it, and in them prints. `Role` says what a call is in this order, and `Whole`
is the grammar of finished programs. Whatever a client calls, in whatever order, the calls that
wrote lines are the beginning of a word of this grammar. `Generated` says how much of such a word
there is in each phase.
-/

namespace Jasm.Assembly

open List

/-! ## The grammar -/

/-- The body of a method: every print that is begun is ended, and the other way round. -/
inductive Balanced : List Role → Prop where
  | nil : Balanced []
  | plain {w : List Role} : Balanced w → Balanced (.plain :: w)
  | print {v w : List Role} :
      Balanced v → Balanced w → Balanced (.printBegin :: (v ++ .printEnd :: w))

/-- The fields and methods of a class, in any order. -/
inductive Members : List Role → Prop where
  | nil : Members []
  | field {w : List Role} : Members w → Members (.field :: w)
  | method {v w : List Role} :
      Balanced v → Members w → Members (.methodBegin :: (v ++ .methodEnd :: w))

/-- A finished program. -/
def Whole (w : List Role) : Prop := ∃ v, Members v ∧ w = .programBegin :: (v ++ [.programEnd])

/-- A body in which `n` prints are begun and not ended yet. -/
inductive Begun : Nat → List Role → Prop where
  | balanced {w : List Role} : Balanced w → Begun 0 w
  | print {n : Nat} {v w : List Role} : Begun n v → Balanced w →
      Begun (n + 1) (v ++ .printBegin :: w)

theorem Balanced.append {v w : List Role} (first : Balanced v) (second : Balanced w) :
    Balanced (v ++ w) := by
  induction first with
  | nil => exact second
  | plain _ ih => exact .plain ih
  | @print v w' inner _ _ ih =>
    rw [cons_append, append_assoc, cons_append]
    exact .print inner ih

theorem Members.append {v w : List Role} (first : Members v) (second : Members w) :
    Members (v ++ w) := by
  induction first with
  | nil => exact second
  | field _ ih => exact .field ih
  | @method v w' body _ ih =>
    rw [cons_append, append_assoc, cons_append]
    exact .method body ih

namespace Begun

variable {n : Nat} {v w : List Role}

theorem append (first : Begun n v) (second : Balanced w) : Begun n (v ++ w) := by
  cases first with
  | balanced whole => exact .balanced (whole.append second)
  | print before inner =>
    rw [append_assoc, cons_append]
    exact .print before (inner.append second)

theorem printEnd (h : Begun (n + 1) w) : Begun n (w ++ [.printEnd]) := by
  cases h with
  | @print _ v w before inner =>
    have print : Balanced (.printBegin :: (w ++ .printEnd :: [])) := .print inner .nil
    rw [append_assoc, cons_append]
    exact before.append print

theorem finish (h : Begun n w) : ∃ rest, Balanced (w ++ rest) := by
  induction n generalizing w with
  | zero =>
    cases h with
    | balanced whole => exact ⟨[], by rwa [append_nil]⟩
  | succ n ih =>
    obtain ⟨rest, whole⟩ := ih h.printEnd
    exact ⟨.printEnd :: rest, by rwa [append_assoc] at whole⟩

end Begun

/-! ## What is written in a phase -/

/-- The calls that have written lines of a program, by the phase it is in. -/
def Generator.Generated (g : Generator) (w : List Role) : Prop :=
  match g.phase with
  | .idle => w = []
  | .program => ∃ v, Members v ∧ w = .programBegin :: v
  | .method => ∃ v u, Members v ∧ Begun g.prints u ∧ w = .programBegin :: (v ++ .methodBegin :: u)
  | .done => Whole w
  | .closed => ∃ rest, Whole (w ++ rest)

namespace Generator

variable {g g' : Generator} {w : List Role}

theorem generated_idle (phase : g.phase = .idle) : g.Generated w ↔ w = [] := by
  rw [Generated, phase]

theorem generated_program (phase : g.phase = .program) :
    g.Generated w ↔ ∃ v, Members v ∧ w = .programBegin :: v := by
  rw [Generated, phase]

theorem generated_method (phase : g.phase = .method) : g.Generated w ↔
    ∃ v u, Members v ∧ Begun g.prints u ∧ w = .programBegin :: (v ++ .methodBegin :: u) := by
  rw [Generated, phase]

theorem generated_done (phase : g.phase = .done) : g.Generated w ↔ Whole w := by
  rw [Generated, phase]

theorem generated_closed (phase : g.phase = .closed) :
    g.Generated w ↔ ∃ rest, Whole (w ++ rest) := by
  rw [Generated, phase]

namespace Generated

theorem congr (h : g.Generated w) (phase : g'.phase = g.phase) (prints : g'.prints = g.prints) :
    g'.Generated w := by
  unfold Generated at h ⊢
  rw [phase, prints]
  exact h

theorem can_finish (h : g.Generated w) : ∃ rest, Whole (w ++ rest) := by
  cases phase : g.phase with
  | idle =>
    rw [(generated_idle phase).mp h]
    exact ⟨_, [], .nil, rfl⟩
  | program =>
    obtain ⟨v, members, rfl⟩ := (generated_program phase).mp h
    exact ⟨[.programEnd], v, members, rfl⟩
  | method =>
    obtain ⟨v, u, members, begun, rfl⟩ := (generated_method phase).mp h
    obtain ⟨rest, whole⟩ := begun.finish
    refine ⟨rest ++ [.methodEnd, .programEnd], v ++
      .methodBegin :: ((u ++ rest) ++ .methodEnd :: []),
      members.append (.method whole .nil), by simp⟩
  | done => exact ⟨[], by rw [append_nil]; exact (generated_done phase).mp h⟩
  | closed => exact (generated_closed phase).mp h

end Generated

end Generator

/-! ## Calls that move a program on -/

namespace Generator

variable {g g' : Generator} {w : List Role}

/-- What a call with a role of its own does if it is carried out. -/
inductive Moves (g g' : Generator) : Role → Prop where
  | programBegin : g.phase = .idle → g'.phase = .program → g'.prints = g.prints →
      Moves g g' .programBegin
  | programEnd : g.phase = .program → g'.phase = .done → Moves g g' .programEnd
  | field : g.phase = .program → g'.phase = .program → g'.prints = g.prints → Moves g g' .field
  | methodBegin : g.phase = .program → g'.phase = .method → g'.prints = g.prints →
      Moves g g' .methodBegin
  | methodEnd : g.phase = .method → g.prints = 0 → g'.phase = .program → Moves g g' .methodEnd
  | printBegin : g.phase = .method → g'.phase = .method → g'.prints = g.prints + 1 →
      Moves g g' .printBegin
  | printEnd : g.phase = .method → g'.phase = .method → g.prints = g'.prints + 1 →
      Moves g g' .printEnd

theorem moves_of_atomic {c : Call} {m : Emit Unit} (perform : c.perform = m *> pure .done)
    (atomic : Emit.Atomic (fun _ => True) m)
    (carried : ∀ g', m.Writes g () g' → g.lineCount < g'.lineCount ∧ Moves g g' c.role) :
    g.act (.call c) = g ∨
      g.lineCount < (g.act (.call c)).lineCount ∧ Moves g (g.act (.call c)) c.role := by
  have after : g.act (.call c) = ((m *> pure Reply.done).run.run g).2 := by
    rw [← perform]
    rfl
  rw [after]
  rcases Emit.writes_or_refused m g with ⟨_, done⟩ | ⟨f, refused⟩
  · rw [show (m *> pure Reply.done).run.run g = _ from done.seqRight _]
    exact .inr (carried _ done)
  · rw [seqRight_eq_bind, Emit.run_bind_of_refused refused]
    exact .inl (atomic.refused g f _ refused)

theorem lineCount_opened (g : Generator) (m : MethodFrame) (header : Line) :
    (Emit.opened g m header).lineCount = g.lineCount + 4 := by
  simp [Emit.opened, lineCount, push]

theorem lineCount_ended (g : Generator) : (Emit.ended g).lineCount = g.lineCount + 1 := by
  simp [Emit.ended, lineCount, push]

theorem moves_endFunction (done : Emit.endFunction.Writes g () g') :
    g.lineCount < g'.lineCount ∧ Moves g g' .methodEnd := by
  obtain ⟨phase, prints, -, rfl⟩ := Emit.writes_endFunction.mp done
  refine ⟨?_, .methodEnd phase prints rfl⟩
  rw [lineCount_ended]
  split
  · rw [lineCount_pushInstr]
    omega
  · omega

open Emit in
theorem call_moves {g : Generator} {c : Call} : c.role = .plain ∨ g.act (.call c) = g ∨
    g.lineCount < (g.act (.call c)).lineCount ∧ Moves g (g.act (.call c)) c.role := by
  cases c with
  | programStart =>
    refine .inr (moves_of_atomic rfl atomic_programStart fun g' done => ?_)
    obtain ⟨phase, rfl⟩ := writes_programStart.mp done
    exact ⟨by simp [lineCount, push], .programBegin phase rfl rfl⟩
  | programEnd =>
    refine .inr (moves_of_atomic rfl atomic_programEnd fun g' done => ?_)
    obtain ⟨phase, -, rfl⟩ := writes_programEnd.mp done
    exact ⟨by simp [lineCount, push], .programEnd phase rfl⟩
  | declareGlobal id kind =>
    refine .inr (moves_of_atomic rfl (atomic_declareGlobal id kind) fun g' done => ?_)
    obtain ⟨phase, -, rfl⟩ := writes_declareGlobal.mp done
    exact ⟨by simp, .field phase phase rfl⟩
  | declareGlobalInit id v =>
    refine .inr (moves_of_atomic rfl (atomic_declareGlobalInit id v) fun g' done => ?_)
    obtain ⟨phase, -, n, -, rfl⟩ := writes_declareGlobalInit.mp done
    exact ⟨by simp, .field phase phase rfl⟩
  | printBegin =>
    refine .inr (moves_of_atomic rfl atomic_printBegin fun g' done => ?_)
    obtain ⟨phase, rfl⟩ := writes_printBegin.mp done
    exact ⟨by simp [lineCount, pushInstr, push], .printBegin phase phase rfl⟩
  | printEnd kind newline =>
    refine .inr (moves_of_atomic rfl (atomic_printEnd kind newline) fun g' done => ?_)
    obtain ⟨phase, some, what, -, rfl⟩ := writes_printEnd.mp done
    exact ⟨by simp [lineCount, pushInstr, push], .printEnd phase phase
      (Nat.succ_pred_eq_of_ne_zero some).symm⟩
  | beginFunction f =>
    refine .inr (moves_of_atomic rfl atomic_beginFunction fun g' done => ?_)
    cases f with
    | none => exact absurd done not_writes_throw
    | some f =>
      obtain ⟨phase, -, rfl⟩ := writes_beginFunction.mp done
      exact ⟨by rw [lineCount_opened]; omega, .methodBegin phase rfl rfl⟩
  | beginMain =>
    refine .inr (moves_of_atomic rfl atomic_beginMain fun g' done => ?_)
    obtain ⟨phase, rfl⟩ := writes_beginMain.mp done
    exact ⟨by rw [lineCount_opened]; omega, .methodBegin phase rfl rfl⟩
  | endFunction => exact .inr (moves_of_atomic rfl atomic_endFunction fun _ => moves_endFunction)
  | endMain =>
    exact .inr (moves_of_atomic rfl atomic_endMain fun _ done =>
      moves_endFunction (writes_endMain.mp done).2)
  | _ => exact .inl rfl

theorem not_closed_call (h : g.phase ≠ .closed) (c : Call) : (g.act (.call c)).phase ≠ .closed := by
  rcases call_moves with plain | same | ⟨-, moves⟩
  · rw [show (g.act (.call c)).phase = g.phase from (c.inner plain g).inside.phase]
    exact h
  · rwa [same]
  · generalize c.role = role at moves
    cases moves <;> simp_all

theorem closed_iff {cls : String} (o : Options) {as : List Action} :
    (as.foldl act (.new cls o)).phase = .closed ↔ ∃ broken, .close broken ∈ as := by
  induction as using List.reverseRecOn with
  | nil => simp [Generator.new]
  | append_singleton as a ih =>
    rw [foldl_append, foldl_cons, foldl_nil]
    cases a with
    | close broken =>
      exact iff_of_true (phase_close _ broken) ⟨broken, by simp⟩
    | call c =>
      have calls (broken : Option String) : .close broken ∈ as ++ [.call c] ↔
          .close broken ∈ as := by simp
      simp only [calls, ← ih]
      constructor
      · intro closed
        by_contra isOpen
        exact not_closed_call isOpen c closed
      · intro closed
        exact (closed_run closed [.call c]).1

/-! ## Runs -/

/-- The calls among some actions that write lines, whether they are carried out or refused. -/
def writing (g : Generator) : List Action → List Call
  | [] => []
  | .call c :: as =>
    if (g.act (.call c)).lineCount = g.lineCount then (g.act (.call c)).writing as
    else c :: (g.act (.call c)).writing as
  | .close broken :: as => (g.act (.close broken)).writing as

/-- What a call adds to the calls that write lines. -/
def wrote (g : Generator) (c : Call) : List Role :=
  if (g.act (.call c)).lineCount = g.lineCount then [] else [c.role]

theorem roles_writing (g : Generator) (c : Call) (as : List Action) :
    (g.writing (.call c :: as)).map Call.role =
      g.wrote c ++ ((g.act (.call c)).writing as).map Call.role := by
  rw [writing, wrote]
  split <;> rfl

namespace Generated

section

variable (h : g.Generated w)
include h

theorem plain {c : Call} (role : c.role = .plain) :
    (g.act (.call c)).Generated (w ++ g.wrote c) := by
  have inner := (c.inner role g).inside
  have same : (g.act (.call c)).Generated w := h.congr inner.phase inner.prints
  unfold wrote
  split
  · rwa [append_nil]
  · next more =>
      have phase : g.phase = .method :=
        inner.lines.resolve_left fun lines => more (congrArg Array.size lines)
      have phase' : (g.act (.call c)).phase = .method := inner.phase.trans phase
      obtain ⟨v, u, members, begun, rfl⟩ := (generated_method phase').mp same
      refine (generated_method phase').mpr ⟨v, u ++ [.plain], members,
        begun.append (.plain .nil), ?_⟩
      simp [role]

theorem moves {role : Role} (shaped : g.Shaped) (moves : Moves g g' role) :
    g'.Generated (w ++ [role]) := by
  cases moves with
  | programBegin phase phase' _ =>
    obtain rfl := (generated_idle phase).mp h
    exact (generated_program phase').mpr ⟨[], .nil, rfl⟩
  | programEnd phase phase' =>
    obtain ⟨v, members, rfl⟩ := (generated_program phase).mp h
    exact (generated_done phase').mpr ⟨v, members, rfl⟩
  | field phase phase' _ =>
    obtain ⟨v, members, rfl⟩ := (generated_program phase).mp h
    exact (generated_program phase').mpr ⟨v ++ [.field], members.append (.field .nil), rfl⟩
  | methodBegin phase phase' prints =>
    obtain ⟨v, members, rfl⟩ := (generated_program phase).mp h
    have none : g'.prints = 0 := prints.trans (shaped.prints (by simp [phase]) (by simp [phase]))
    refine (generated_method phase').mpr ⟨v, [], members, ?_, rfl⟩
    rw [none]
    exact .balanced .nil
  | methodEnd phase none phase' =>
    obtain ⟨v, u, members, begun, rfl⟩ := (generated_method phase).mp h
    rw [none] at begun
    cases begun with
    | balanced body =>
      refine (generated_program phase').mpr ⟨_, members.append (.method body .nil), ?_⟩
      simp
  | printBegin phase phase' prints =>
    obtain ⟨v, u, members, begun, rfl⟩ := (generated_method phase).mp h
    refine (generated_method phase').mpr ⟨v, u ++ [.printBegin], members, ?_, by simp⟩
    rw [prints]
    exact begun.print .nil
  | printEnd phase phase' prints =>
    obtain ⟨v, u, members, begun, rfl⟩ := (generated_method phase).mp h
    rw [prints] at begun
    exact (generated_method phase').mpr ⟨v, u ++ [.printEnd], members, begun.printEnd, by simp⟩

theorem call (shaped : g.Shaped) (c : Call) :
    (g.act (.call c)).Generated (w ++ g.wrote c) := by
  rcases call_moves with role | same | ⟨more, moves⟩
  · exact h.plain role
  · rw [wrote, same, if_pos rfl, append_nil]
    exact h
  · rw [wrote, if_neg (Nat.ne_of_gt more)]
    exact h.moves shaped moves

theorem run (shaped : g.Shaped) (as : List Action) :
    (as.foldl act g).Generated (w ++ (g.writing as).map Call.role) := by
  induction as generalizing g w with
  | nil => simpa [writing] using h
  | cons a as ih =>
    obtain ⟨es, history⟩ := history_act g a
    have shaped' := shaped.history history
    cases a with
    | call c =>
      rw [roles_writing, ← append_assoc]
      exact ih (h.call shaped c) shaped'
    | close broken =>
      refine ih ?_ shaped'
      exact (generated_closed (phase_close g broken)).mpr h.can_finish

end

end Generated

/-! ## The theorem -/

/-- Whatever a client does with a program, in whatever order, and whether it is carried out or
refused:

* The program is closed exactly if the client has closed it. Until then a method is open exactly in
  the phase of methods, prints are begun only there, and the depth is the one of the phase.
* Each line stands as far to the right as braces are open around it. Its text begins with that many
  tabs if lines are indented and with none otherwise; a line that defines a label may show more of
  them, which the stem of labels begins with.
* Had the client chosen otherwise about indentation, the answers would be the same, and so would the
  lines but for the tabs at their beginnings.
* The calls that wrote lines are the beginning of a finished program, in which prints are balanced,
  and all of one if the class is ended.
* Once the program is closed nothing changes its text or hands out a label, and closing it again is
  refused. -/
theorem phases_and_brackets (cls : String) (o : Options) (as : List Action) :
    let g := as.foldl act (.new cls o)
    (g.phase = .closed ↔ ∃ broken, .close broken ∈ as) ∧
    (g.phase ≠ .closed → (g.method.isSome ↔ g.phase = .method) ∧
      (g.phase ≠ .method → g.prints = 0) ∧ g.depth = g.phase.depth) ∧
    Nested g.lines.toList g.depth ∧
    g.text = String.join g.textLines ∧
    (∀ x ∈ g.lines.toList, leadingTabs (lineText g.options.indent g.className x.1 x.2) =
      (if o.indent then x.1 else 0) +
        if x.2.definesLabel then leadingTabs o.withDefaults.labelStem else 0) ∧
    (∀ indent : Bool, let g₀ : Generator := .new cls { o with indent := indent }
      g₀.answers as = (Generator.new cls o).answers as ∧
      (as.foldl act g₀).lineCount = g.lineCount ∧ (as.foldl act g₀).labelCount = g.labelCount ∧
      (as.foldl act g₀).textLines.map behindTabs = g.textLines.map behindTabs) ∧
    (∃ rest, Whole (((Generator.new cls o).writing as).map Call.role ++ rest)) ∧
    (g.phase = .done → Whole (((Generator.new cls o).writing as).map Call.role)) ∧
    ∀ (broken : Option String) (later : List Action), let g₁ := later.foldl act (g.close broken).2
      g₁.text = g.text ∧ g₁.lineCount = g.lineCount ∧ g₁.labelCount = g.labelCount ∧
        ∀ again, (g₁.close again).1 = [.closed] := by
  intro g
  have shaped : g.Shaped := shaped_run
  have generated : g.Generated (((Generator.new cls o).writing as).map Call.role) :=
    Generated.run ((generated_idle rfl).mpr rfl) shaped_new as
  refine ⟨closed_iff o, fun isOpen => ⟨shaped.method isOpen, shaped.prints isOpen,
    shaped.depth isOpen⟩, shaped.nested, g.text_eq_join, leadingTabs_run o, fun indent => ?_,
    generated.can_finish, fun phase => (generated_done phase).mp generated, fun broken later => ?_⟩
  · obtain ⟨answers, last⟩ := answers_withIndent (.new cls o) indent as
    have last' : as.foldl act (.new cls { o with indent := indent }) = g.withIndent indent := last
    dsimp only
    rw [last']
    exact ⟨answers, rfl, rfl, g.behindTabs_withIndent⟩
  · obtain ⟨closed, same⟩ := closed_run (phase_close g broken) later
    have all := (sameText_close g broken).trans same
    exact ⟨all.text_eq, all.lineCount_eq, all.labelCount_eq, fun again =>
      congrArg Prod.fst (close_of_closed closed again)⟩

theorem phases_and_brackets_printing :
    let as : List Action := [.call .programStart, .call (.goto "L0"), .call .beginMain,
      .call .printBegin, .call (.loadInt 7), .call (.printEnd .integer true), .call .endMain,
      .call .programEnd]
    let g := as.foldl act (.new "P" .standard)
    g.phase = .done ∧ g.depth = 0 ∧
      Whole (((Generator.new "P" .standard).writing as).map Call.role) := by
  intro as g
  obtain ⟨-, shape, -, -, -, -, -, whole, -⟩ := phases_and_brackets "P" .standard as
  have phase : g.phase = .done := by decide +kernel
  have isOpen : g.phase ≠ .closed := by
    rw [phase]
    decide
  have depth : g.depth = g.phase.depth := (shape isOpen).2.2
  exact ⟨phase, by rw [depth, phase]; rfl, whole phase⟩

end Generator

end Jasm.Assembly

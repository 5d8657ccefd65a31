import Jasm.Compile.Job
import Jasm.Proofs.Compile.Classes

/-!
# When a program is published

A job withholds its program only if an error is among the findings that were kept. Findings are kept
up to a limit, so an error that comes when the limit is reached is lost, and with it the reason to
withhold the program. The main result tells these cases apart: a job in which an error was found
withholds its program exactly if an error is among the first findings that differ, as many as there
is room for.
-/

namespace Jasm.Compile

open Next List
open Assembly (Emit)

/-! ## The end of a walk -/

namespace Walk

variable (cfg : Config)

/-- What closing the program reports of the faults that are left. -/
def reportUnfinished (pos : Position) (failed : Bool) (faults : List Assembly.Fault) : Walk Unit :=
  match faults with
  | [] => return
  | f :: _ => do
    if !failed then error cfg f.diagnosticCode pos (Assembly.Fault.messages faults)

theorem run_close {p : Program} {c : State} {faults : List Assembly.Fault} {g : Assembly.Generator}
    (h : c.generator.close none = (faults, g)) :
    (close cfg p).run c =
      (reportUnfinished cfg p.mainPos c.failed faults).run { c with generator := g } := by
  show (do
    set { c with generator := (c.generator.close none).2 }
    reportUnfinished cfg p.mainPos c.failed (c.generator.close none).1 : Walk Unit).run c = _
  rw [h]
  rfl

theorem finds_reportUnfinished {pos : Position} {faults : List Assembly.Fault} (c : State) :
    ∃ ds c', Finds (reportUnfinished cfg pos c.failed faults) c ds () c' ∧
      c'.generator = c.generator := by
  cases faults with
  | nil => exact ⟨[], c, ⟨fun _ => rfl, by simp⟩, rfl⟩
  | cons f faults =>
    cases hf : c.failed with
    | true => exact ⟨[], c, ⟨fun _ => rfl, by simp⟩, rfl⟩
    | false =>
      exact ⟨[.error f.diagnosticCode (pos.place cfg.path) (Assembly.Fault.messages (f :: faults))],
        { c with failed := true },
        ⟨fun _ => rfl, by simp [Severity.isError, Severity.rank]⟩, rfl⟩

theorem finds_close (p : Program) {c : State} :
    ∃ ds c', Finds (close cfg p) c ds () c' ∧ c'.generator = (c.generator.close none).2 := by
  rcases h : c.generator.close none with ⟨faults, g⟩
  obtain ⟨ds, c', finds, generator⟩ :=
    finds_reportUnfinished cfg { c with generator := g }
  refine ⟨ds, c', ⟨fun r => ?_, finds.failed⟩, generator⟩
  exact (run_close cfg (c := c.withReporter r) h).trans (finds.run r)

theorem text_close {g : Assembly.Generator} : (g.close none).2.text = g.text := by
  unfold Assembly.Generator.close
  split <;> rfl

theorem phase_program {p : Program} {c c' : State} (run : (program cfg p).run c = ((), c'))
    (ok : c'.failed = false) : c'.generator.phase = .done := by
  let body : Walk Unit := do
    let _ ← emit cfg {} Emit.programStart
    globals cfg p.globals
    functions cfg p.functions
    main cfg p.mainPos p.main
  have hlast : ((emit cfg p.mainPos Emit.programEnd).run (body.run c).2).2 = c' :=
    congrArg Prod.snd run
  rw [← hlast] at ok
  obtain ⟨a, g, -, writes, last⟩ := writes_of_emit cfg ok
  obtain ⟨-, -, rfl⟩ := Emit.writes_programEnd.mp writes
  rw [← hlast, last]

theorem finds_program_close (p : Program) (c : State) :
    ∃ ds c', Finds (do program cfg p; close cfg p) c ds () c' ∧
      (c.failed = false → ds.any (·.severity.isError) = false →
        ∃ c₁, (program cfg p).run c = ((), c₁) ∧ c₁.failed = false ∧
          c₁.generator.phase = .done ∧ c'.generator.text = c₁.generator.text) := by
  obtain ⟨ds₁, _, c₁, acts⟩ := (ensures_program cfg).honest c
  obtain ⟨ds₂, c₂, finds, generator⟩ := finds_close cfg p
  refine ⟨ds₁ ++ ds₂, c₂, acts.toFinds.bind finds, fun start none => ?_⟩
  rw [any_append, Bool.or_eq_false_iff] at none
  have ok : c₁.failed = false := by rw [acts.failed, start, none.1]; rfl
  refine ⟨_, acts.run_eq, ok, phase_program cfg acts.run_eq ok, ?_⟩
  rw [generator]
  exact text_close

end Walk

namespace World

theorem startPhase_eq (w : World) (name : String) :
    (w.startPhase name).2 = { w with timer := (w.startPhase name).2.timer } := by
  unfold startPhase
  cases w.timer <;> rfl

theorem finishPhase_eq (w : World) (i : Option Nat) (note : String) :
    w.finishPhase i note = { w with timer := (w.finishPhase i note).timer } := by
  unfold finishPhase
  cases w.timer <;> cases i <;> rfl

theorem poll_eq (w : World) : w.poll.2 = { w with polls := w.poll.2.polls } := by
  unfold poll
  rcases w.polls with _ | _ | n <;> rfl

end World

def Next.rank : Next → Nat
  | .load => 7
  | .check _ => 6
  | .walk .. => 5
  | .keep .. => 4
  | .claim .. => 3
  | .write .. => 2
  | .finish _ => 1
  | .over _ => 0

def Next.text? : Next → Option (List UInt8)
  | .keep _ text | .claim _ text | .write _ text _ => some text
  | _ => none

namespace Job

variable {o : Options} {d : Draft} {w w₀ : World} {j : Job} {P : List UInt8 → Prop}

/-! ## Steps -/

theorem steps_succ (n : Nat) (j : Job) (w : World) :
    j.steps o (n + 1) w = (j.step o w).1.steps o n (j.step o w).2 := rfl

theorem steps_add (m n : Nat) (j : Job) (w : World) :
    j.steps o (m + n) w = (j.steps o m w).1.steps o n (j.steps o m w).2 := by
  induction m generalizing j w with
  | zero => rw [Nat.zero_add]; rfl
  | succ m ih => rw [Nat.succ_add, steps_succ, ih, steps_succ]

theorem run_eq (j : Job) (w : World) :
    (j.run o w).1.1 = (j.steps o maxSteps w).1.settled ∧
      (j.run o w).2.files = (j.steps o maxSteps w).2.files := by
  unfold run
  rcases j.steps o maxSteps w with ⟨j', w'⟩
  exact ⟨rfl, rfl⟩

/-- Whether an error is among the first findings that differ, as many as are kept. -/
def keepsError (o : Options) (ds : List Diagnostic) : Bool :=
  ((distinct [] ds).take (Bag.new o.limit).limit).any (·.severity.isError)

/-- The findings so far are `ds`. -/
def collected (o : Options) (ds : List Diagnostic) : Reporter :=
  (Reporter.collecting o.limit).reportAll ds

theorem hasErrors_collected (o : Options) (ds : List Diagnostic) :
    (collected o ds).contents.hasErrors = keepsError o ds := by
  rw [collected, Reporter.contents_reportAll_collecting]
  simp [Bag.hasErrors, keepsError]

theorem keepsError_append {ds : List Diagnostic} (found : ds.any (·.severity.isError))
    (lost : keepsError o ds = false) {more : List Diagnostic} :
    keepsError o (ds ++ more) = false := by
  obtain ⟨rest, hrest⟩ := distinct_append [] ds more
  have full : (Bag.new o.limit).limit ≤ (distinct [] ds).length := by
    refine Nat.le_of_not_lt fun room => ?_
    rw [keepsError, take_of_length_le (by omega), any_isError_distinct, found] at lost
    cases lost
  rw [keepsError, ← hrest, take_append_of_le_length full]
  exact lost

/-- The files are as they were, but for the saving of the trace. -/
def Untouched (w₀ w : World) : Prop := w.files = w₀.files ∨ w.files = w₀.saveTrace.files

/-- What holds of a job behind its walk, if `ds` was found up to there and the walk wrote a text
with the property `P`. -/
structure Late (o : Options) (w₀ : World) (ds : List Diagnostic) (P : List UInt8 → Prop) (j : Job)
    (w : World) : Prop where
  rank : j.next.rank ≤ 4
  text : ∀ text, j.next.text? = some text → P text
  restored : j.restored = none
  reporter : ∃ more, j.reporter = collected o (ds ++ more) ∧ (keepsError o ds → more = [])
  withheld : keepsError o ds → j.next.rank ≤ 1 ∧ j.result.output = "" ∧ Untouched w₀ w

variable {ds : List Diagnostic}

theorem collected_report {o : Options} {ds more : List Diagnostic} {d : Diagnostic} :
    ∃ more', (collected o (ds ++ more)).report d = collected o (ds ++ more') := by
  refine ⟨more ++ [d], ?_⟩
  rw [collected, collected, ← append_assoc, Reporter.reportAll_append _ (ds ++ more)]
  rfl

theorem Late.of_publishing (h : Late o w₀ ds P j w) (early : 1 < j.next.rank) :
    keepsError o ds = false := by
  cases hk : keepsError o ds with
  | false => rfl
  | true => exact absurd (h.withheld hk).1 (by omega)

theorem Late.of_lost (lost : keepsError o ds = false) (rank : j.next.rank ≤ 4)
    (text : ∀ text, j.next.text? = some text → P text) (restored : j.restored = none)
    (reporter : ∃ more, j.reporter = collected o (ds ++ more)) : Late o w₀ ds P j w := by
  have absurd {p : Prop} (kept : keepsError o ds) : p := by
    rw [lost] at kept
    cases kept
  obtain ⟨more, hmore⟩ := reporter
  exact ⟨rank, text, restored, ⟨more, hmore, absurd⟩, absurd⟩

/-- What holds behind the walk holds behind each later step. -/
theorem Late.step (noCache : o.cacheDir = none) (h : Late o w₀ ds P j w) :
    Late o w₀ ds P (j.step o w).1 (j.step o w).2 := by
  obtain ⟨next, result, reporter, span, restored⟩ := j
  obtain ⟨more, hreporter, hmore⟩ := h.reporter
  have hrestored := h.restored
  dsimp only at hreporter hrestored
  subst hreporter hrestored
  cases next with
  | load | check _ | walk _ _ => exact absurd h.rank (by simp [Next.rank])
  | keep d text =>
    have hstep : (⟨.keep d text, result, collected o (ds ++ more), span, none⟩ : Job).step o w =
        (⟨publishing o d text, result, collected o (ds ++ more), span, none⟩, w) := by
      simp only [step, keep, noCache]
    have htext := h.text text rfl
    rw [hstep]
    refine .of_lost (h.of_publishing (by simp [Next.rank])) ?_ ?_ rfl ⟨more, rfl⟩
    · unfold publishing
      split <;> simp [Next.rank]
    · unfold publishing
      split <;> simp [text?, htext]
  | claim d text =>
    have lost := h.of_publishing (by simp [Next.rank])
    have htext := h.text text rfl
    simp only [step, claim]
    split
    · exact .of_lost lost (by simp [Next.rank]) (by simp [text?, htext]) rfl ⟨more, rfl⟩
    · exact .of_lost lost (by simp [Next.rank]) (by simp [text?]) rfl
        collected_report
  | write target text span =>
    have lost := h.of_publishing (by simp [Next.rank])
    simp only [step, write]
    split
    · exact .of_lost lost (by simp [Next.rank]) (by simp [text?]) rfl ⟨more, rfl⟩
    · exact .of_lost lost (by simp [report, Next.rank]) (by simp [report, text?]) rfl
        collected_report
  | finish stage =>
    refine ⟨by simp [step, finish, Next.rank], by simp [step, finish, text?], rfl,
      ⟨more, rfl, hmore⟩, fun kept => ?_⟩
    obtain ⟨-, output, files⟩ := h.withheld kept
    exact ⟨by simp [step, finish, Next.rank], output, files⟩
  | «over» c => exact h

/-- So it does at the end, by induction on the number of steps. -/
theorem Late.steps (noCache : o.cacheDir = none) (h : Late o w₀ ds P j w) (n : Nat) :
    Late o w₀ ds P (j.steps o n w).1 (j.steps o n w).2 := by
  induction n generalizing j w with
  | zero => exact h
  | succ n ih => exact ih (h.step noCache)

/-! ## The check and the walk -/

def checkFindings (d : Draft) : List Diagnostic :=
  d.unknownKeys ++ d.check.problems.map d.diagnosticOf

theorem any_isError_checkFindings (d : Draft) :
    (checkFindings d).any (·.severity.isError) ↔ d.check.result = none := by
  have mild : d.unknownKeys.any (·.severity.isError) = false := by
    simp [Draft.unknownKeys, Severity.isError, Severity.rank]
  rw [d.check.fair, checkFindings, any_append, mild, Bool.false_or]
  cases d.check.problems with
  | nil => simp
  | cons p rest => simp [Draft.diagnosticOf, Severity.isError, Severity.rank]

/-- The check and the walk of a job report `ds`, whoever receives it. -/
def Reports (o : Options) (j : Job) (w : World) (ds : List Diagnostic) : Prop :=
  ∀ r, (({ j with reporter := r } : Job).steps o 2 w).1.reporter = r.reportAll ds

def config (o : Options) (d : Draft) : Config := ⟨d.path, o.assembly.maxLocals⟩

def walkStart (o : Options) (j : Job) (d : Draft) (w : World) : State :=
  let (span, w) := (w.tell ⟨d.path, o.walkStage, .working, none⟩).startSpan .pass
    o.walkStage.text j.span.id
  let (_, w) := w.startPhase s!"{o.walkStage.text} {d.name}"
  { generator := .new d.program o.assembly
    reporter := j.reporter
    dump := if o.dumpSymbols then some "" else none
    recorder := w.recorder
    span := span.id
    polls := w.polls }

def walkEnd (o : Options) (j : Job) (d : Draft) (p : Program) (w : World) : State :=
  ((do Walk.program (config o d) p; Walk.close (config o d) p : Walk Unit).run
    (walkStart o j d w)).2

section

variable (o : Options) (j : Job) (d : Draft) (p : Program) (w : World)

theorem reporter_walk : (j.walk o d p w).1.reporter = (walkEnd o j d p w).reporter := rfl

def walked (o : Options) (j : Job) (d : Draft) (p : Program) (w : World) : World :=
  let (span, w₁) := (w.tell ⟨d.path, o.walkStage, .working, none⟩).startSpan .pass
    o.walkStage.text j.span.id
  let (phase, w₂) := w₁.startPhase s!"{o.walkStage.text} {d.name}"
  let c := walkEnd o j d p w
  let w₃ := { w₂ with recorder := c.recorder, polls := c.polls, crashed := w₂.crashed || c.crashed }
  let w₄ := w₃.finishPhase phase s!"{c.generator.lineCount} lines"
  let (span, recorder) := w₄.recorder.annotate span "lines" (toString c.generator.lineCount)
  { w₄ with recorder := recorder }.finishSpan span ""

theorem walked_eq :
    walked o j d p w = { w with
      progress := ⟨d.path, o.walkStage, .working, none⟩ :: w.progress
      polls := (walkEnd o j d p w).polls
      crashed := w.crashed || (walkEnd o j d p w).crashed
      timer := (walked o j d p w).timer
      recorder := (walked o j d p w).recorder } := by
  unfold walked
  dsimp only
  rw [World.finishPhase_eq, World.startPhase_eq]
  rfl

theorem files_walk : (j.walk o d p w).2.files = w.files := by
  show (walked o j d p w).poll.2.files = _
  rw [World.poll_eq, walked_eq]

theorem next_walk :
    (j.walk o d p w).1.next = .over true ∨
      (j.walk o d p w).1.next =
        if (walkEnd o j d p w).reporter.contents.hasErrors then .finish o.walkStage
        else .keep d (walkEnd o j d p w).generator.text.toUTF8.toList := by
  have general (goesOn : Bool) (a b : Next) :
      (if !goesOn then a else b) = a ∨ (if !goesOn then a else b) = b := by
    cases goesOn
    · exact .inl rfl
    · exact .inr rfl
  exact general _ _ _

theorem fresh_walkStart : (walkStart o j d w).Fresh d.program o.assembly :=
  ⟨rfl, rfl, rfl, rfl, rfl, rfl⟩

end

theorem step_check_of_none (h : d.check.result = none) (hj : j.next = .check d) :
    j.step o w = ({ j with
      reporter := j.reporter.reportAll (checkFindings d)
      next := .finish .load }, w) := by
  simp only [step, hj, check, Draft.validate, h, checkFindings]

section

variable (noCache : o.cacheDir = none)
include noCache

theorem step_check_of_some {p : Program} (h : d.check.result = some p) (hj : j.next = .check d) :
    j.step o w = ({ j with
      reporter := j.reporter.reportAll (checkFindings d)
      next := .walk d p }, w.saveTrace) := by
  simp only [step, hj, check, Draft.validate, h, checkFindings, lookUp, noCache]

/-- A text is the complete output of a walk in which nothing was wrong. -/
def Complete (o : Options) (d : Draft) (text : List UInt8) : Prop :=
  ∃ p c₀ c, d.check.result = some p ∧ c₀.Fresh d.program o.assembly ∧
    (Walk.program (config o d) p).run c₀ = ((), c) ∧ c.failed = false ∧
    c.generator.phase = .done ∧ text = c.generator.text.toUTF8.toList

def walking (o : Options) (d : Draft) (parent : Nat) (p : Program) (r : Reporter) : Job :=
  { ofDraft o d parent with reporter := r.reportAll (checkFindings d), next := .walk d p }

theorem steps_two_of_some {p : Program} (h : d.check.result = some p) (parent : Nat) (w : World)
    (r : Reporter) :
    ({ ofDraft o d parent with reporter := r } : Job).steps o 2 w =
      (walking o d parent p r).walk o d p w.saveTrace := by
  rw [steps_succ, step_check_of_some noCache h rfl]
  rfl

/-- The description is no program, or something was found to be wrong in the walk. -/
def Faulty (o : Options) (d : Draft) (parent : Nat) (w : World) : Prop :=
  d.check.result = none ∨ ∃ p, d.check.result = some p ∧
    (walkEnd o (walking o d parent p (.collecting o.limit)) d p w.saveTrace).failed

/-- The findings of the first two steps are `ds`, and they leave the job where only publishing is
left to do. -/
structure Surveyed (o : Options) (d : Draft) (parent : Nat) (w : World) (ds : List Diagnostic) :
    Prop where
  reports : Reports o (ofDraft o d parent) w ds
  faulty : ds.any (·.severity.isError) ↔ Faulty o d parent w
  late : Late o w ds (fun text => ds.any (·.severity.isError) = false → Complete o d text)
    ((ofDraft o d parent).steps o 2 w).1 ((ofDraft o d parent).steps o 2 w).2

omit noCache in
theorem surveyed_of_none (hd : d.check.result = none) {parent : Nat} (w : World) :
    Surveyed o d parent w (checkFindings d) where
  reports r := by
    rw [steps_succ, step_check_of_none hd rfl]
    rfl
  faulty := by
    rw [any_isError_checkFindings, Faulty, hd]
    simp
  late := by
    rw [steps_succ, step_check_of_none hd rfl]
    refine ⟨by simp [steps, step, finish, Next.rank], by simp [steps, step, finish, text?],
      rfl, ⟨[], by rw [append_nil]; rfl, fun _ => rfl⟩, fun _ => ⟨?_, rfl, .inl rfl⟩⟩
    simp [steps, step, finish, Next.rank]

theorem surveyed_of_some {p : Program} (hd : d.check.result = some p) (parent : Nat) (w : World) :
    ∃ ds, Surveyed o d parent w ds := by
  let start := walkStart o (walking o d parent p (.collecting o.limit)) d w.saveTrace
  obtain ⟨ds, c, finds, complete⟩ := Walk.finds_program_close (config o d) p start
  have hend (r : Reporter) : walkEnd o (walking o d parent p r) d p w.saveTrace =
      c.withReporter (r.reportAll (checkFindings d ++ ds)) := by
    rw [Reporter.reportAll_append]
    exact congrArg Prod.snd (finds.run (r.reportAll (checkFindings d)))
  have mild : (checkFindings d).any (·.severity.isError) = false := by
    rw [← Bool.not_eq_true, any_isError_checkFindings, hd]
    simp
  have hany : (checkFindings d ++ ds).any (·.severity.isError) = ds.any (·.severity.isError) := by
    rw [any_append, mild, Bool.false_or]
  have hcontents :
      (walkEnd o (walking o d parent p (.collecting o.limit)) d p w.saveTrace).reporter =
        collected o (checkFindings d ++ ds) := by
    rw [hend]
    rfl
  have hnext := next_walk o (walking o d parent p (.collecting o.limit)) d p w.saveTrace
  rw [hcontents, hasErrors_collected, hend] at hnext
  refine ⟨checkFindings d ++ ds, fun r => ?_, ?_, ?_⟩
  · rw [steps_two_of_some noCache hd, reporter_walk, hend r]
    rfl
  · have hfailed : c.failed = ds.any (·.severity.isError) := finds.failed
    rw [hany, ← hfailed, Faulty, hd]
    simp only [hend, reduceCtorEq, false_or, Option.some.injEq, exists_eq_left']
    rfl
  · have hsteps := steps_two_of_some noCache hd parent w (.collecting o.limit)
    change (ofDraft o d parent).steps o 2 w = _ at hsteps
    rw [hsteps]
    refine ⟨?_, fun text htext none => ?_, rfl, ⟨[], ?_, fun _ => rfl⟩,
      fun kept => ⟨?_, rfl, .inr (files_walk _ _ _ _ _)⟩⟩
    · rcases hnext with h | h
      · simp [h, Next.rank]
      · rw [h]
        split <;> simp [Next.rank]
    · rcases hnext with h | h
      · simp [h, text?] at htext
      · rw [h] at htext
        split at htext
        · simp [text?] at htext
        · cases htext
          obtain ⟨c₁, run, ok, done, same⟩ := complete rfl (hany.symm.trans none)
          exact ⟨p, start, c₁, hd, fresh_walkStart _ _ _ _, run, ok, done,
            congrArg (fun t : String => t.toUTF8.toList) same⟩
    · rw [reporter_walk, hcontents, append_nil]
    · rcases hnext with h | h
      · simp [h, Next.rank]
      · simp [h, kept, Next.rank]

theorem exists_surveyed (d : Draft) {parent : Nat} (w : World) :
    ∃ ds, Surveyed o d parent w ds := by
  cases hd : d.check.result with
  | none => exact ⟨_, surveyed_of_none hd w⟩
  | some p => exact surveyed_of_some noCache hd parent w

/-! ## Withholding -/

/-- The result of a description fails and names no output, and no output file is written. -/
structure Withholds (o : Options) (d : Draft) (parent : Nat) (w : World) : Prop where
  failed : (compile o d parent w).1.1.failed
  output : (compile o d parent w).1.1.output = ""
  unwritten : ∀ n target text span,
    ((ofDraft o d parent).steps o n w).1.next ≠ .write target text span
  files : Untouched w (compile o d parent w).2

variable {parent : Nat}

theorem text?_early (d : Draft) (parent : Nat) (w : World) {n : Nat} (early : n < 2) :
    ((ofDraft o d parent).steps o n w).1.next.text? = none := by
  match n, early with
  | 0, _ => rfl
  | 1, _ =>
    cases hd : d.check.result with
    | none =>
      rw [steps_succ, step_check_of_none hd rfl]
      rfl
    | some p =>
      rw [steps_succ, step_check_of_some noCache hd rfl]
      rfl

theorem Surveyed.late_steps (h : Surveyed o d parent w ds) {n : Nat} (hn : 2 ≤ n) :
    Late o w ds (fun text => ds.any (·.severity.isError) = false → Complete o d text)
      ((ofDraft o d parent).steps o n w).1 ((ofDraft o d parent).steps o n w).2 := by
  obtain ⟨k, rfl⟩ := Nat.exists_eq_add_of_le hn
  rw [steps_add]
  exact h.late.steps noCache k

theorem Surveyed.findings (h : Surveyed o d parent w ds) :
    ∃ more, (compile o d parent w).1.1.findings = (collected o (ds ++ more)).contents ∧
      (keepsError o ds → more = []) := by
  have late := h.late_steps noCache (show 2 ≤ maxSteps by decide)
  obtain ⟨more, reporter, hmore⟩ := late.reporter
  refine ⟨more, ?_, hmore⟩
  rw [compile, (run_eq _ w).1, settled, late.restored, ← reporter]

theorem Surveyed.withholds (h : Surveyed o d parent w ds) (kept : keepsError o ds) :
    Withholds o d parent w := by
  have late := h.late_steps noCache (show 2 ≤ maxSteps by decide)
  obtain ⟨-, output, files⟩ := late.withheld kept
  refine ⟨?_, ?_, fun n target text span hwrite => ?_, ?_⟩
  · obtain ⟨more, findings, hmore⟩ := h.findings noCache
    rw [Result.failed, findings, hmore kept, append_nil, hasErrors_collected]
    exact kept
  · rw [compile, (run_eq _ w).1, settled, late.restored]
    exact output
  · rcases Nat.lt_or_ge n 2 with early | hn
    · have none := text?_early noCache d parent w early
      rw [hwrite] at none
      cases none
    · have rank := ((h.late_steps noCache hn).withheld kept).1
      rw [hwrite] at rank
      exact absurd rank (by simp [Next.rank])
  · rw [Untouched, compile, (run_eq _ w).2]
    exact files

end

/-- Every compilation without a cache has a list of findings that its check and its walk report,
whoever receives them. If something is wrong, the result fails and nothing is published exactly if
an error is among the first findings that differ, as many as are kept. If nothing is wrong, whatever
is published is the complete output of the walk. -/
theorem compile_withholds_iff (o : Options) (noCache : o.cacheDir = none) (d : Draft) (parent : Nat)
    (w : World) :
    ∃ ds, Reports o (ofDraft o d parent) w ds ∧
      (Faulty o d parent w → (Withholds o d parent w ↔ keepsError o ds)) ∧
      (¬ Faulty o d parent w → ∀ n text,
        ((ofDraft o d parent).steps o n w).1.next.text? = some text → Complete o d text) := by
  obtain ⟨ds, survey⟩ := exists_surveyed noCache d w
  refine ⟨ds, survey.reports, fun faulty => ⟨fun withheld => ?_, survey.withholds noCache⟩,
    fun sound n text htext => ?_⟩
  · obtain ⟨more, findings, -⟩ := survey.findings noCache
    have failed := withheld.failed
    rw [Result.failed, findings, hasErrors_collected] at failed
    cases hk : keepsError o ds with
    | true => rfl
    | false =>
        rw [keepsError_append (survey.faulty.mpr faulty) hk] at failed
        exact failed
  · rcases Nat.lt_or_ge n 2 with early | hn
    · rw [text?_early noCache d parent w early] at htext
      cases htext
    · have mild : ds.any (·.severity.isError) = false := by
        rw [← Bool.not_eq_true, survey.faulty]
        exact sound
      exact (survey.late_steps noCache hn).text text htext mild

/-- A description with a key that means nothing and the use of a name that is not declared. -/
def misspelt : Draft :=
  { program := "P", path := "p.toml", unknown := ["x"],
    main := [{ tag := "print", value := some { ref := "y" } }] }

/-- Both the warning and the error of the walk are kept, and nothing is published. -/
theorem compile_withholds_iff_misspelt :
    ({} : Options).cacheDir = none ∧ Faulty {} misspelt 0 {} ∧
      ∃ ds, Reports {} (ofDraft {} misspelt 0) {} ds ∧
        (Withholds {} misspelt 0 {} ↔ keepsError {} ds) := by
  obtain ⟨ds, reports, faulty, -⟩ := compile_withholds_iff {} rfl misspelt 0 {}
  have fails : Faulty {} misspelt 0 {} :=
    .inr ⟨misspelt.check.result.get rfl, rfl, by decide +kernel⟩
  exact ⟨rfl, fails, ds, reports, faulty fails⟩

/-- If only one finding is kept, the warning hides the error, and half a program is published. -/
theorem compile_publishes_despite_error :
    Faulty { maxDiagnostics := 1 } misspelt 0 {} ∧
      (compile { maxDiagnostics := 1 } misspelt 0 {}).1.1.failed = false ∧
      (compile { maxDiagnostics := 1 } misspelt 0 {}).1.1.output = "P.jasm" :=
  ⟨.inr ⟨misspelt.check.result.get rfl, rfl, by decide +kernel⟩, by decide +kernel,
    by decide +kernel⟩

end Job

end Jasm.Compile

import Jasm.Proofs.Compile.Caching

/-!
# What a step reports and tells

Whatever a step of a job comes to, in whatever world: it reports findings about the file of its
unit, and it tells at most one thing, which is about the same unit. `Follows` says in which order
the steps come and what each of them tells; `Goes` adds what they report.
-/

namespace Jasm

open List

theorem Draft.parse?_path (path file : String) (source : ByteArray) :
    parse? file source = (parse? path source).map fun d => { d with path := file } := by
  unfold parse?
  cases Toml.Document.ofBytes? source with
  | none => rfl
  | some doc =>
    cases hd : (decode doc.root).run ∅ with
    | none => simp [hd]
    | some d =>
      simp only [Option.bind_eq_bind, Option.bind_some, hd]
      rfl

theorem Draft.path_of_parse? {path : String} {source : ByteArray} {d : Draft}
    (h : parse? path source = some d) : d.path = path := by
  have same := parse?_path path path source
  rw [h] at same
  exact congrArg Draft.path (Option.some.inj same)

namespace Compile

open Next
open Cache (Payload)

/-- What a unit tells when it enters a stage. -/
def working (path : String) (stage : Stage) : Progress := ⟨path, stage, .working, none⟩

def Next.draft? : Next → Option Draft
  | .check d | .walk d _ | .keep d _ | .claim d _ => some d
  | _ => none

namespace World

variable {w w' : World}

theorem onFiles_of_eq {ε α : Type} {op : ExceptT ε (StateM Files) α} {r : Except ε α}
    (h : w.onFiles op = (r, w')) :
    w'.crashed = w.crashed ∧ w'.progress = w.progress ∧ w'.polls = w.polls := by
  cases h
  exact ⟨rfl, rfl, rfl⟩

theorem claim_of_eq {target path : String} {owner : Option String}
    (h : w.claim target path = (owner, w')) :
    w'.crashed = w.crashed ∧ w'.progress = w.progress ∧ w'.polls = w.polls := by
  obtain rfl : (w.claim target path).2 = w' := congrArg Prod.snd h
  rw [claim_eq]
  exact ⟨rfl, rfl, rfl⟩

end World

namespace Job

variable {o : Options} {d : Draft} {j : Job} {w : World} {path : String}

/-- What the job of the unit at a path tells in a step, and what it does next. Only a walk that may
be asked to stop is cancelled. -/
def Follows (o : Options) (path : String) (j : Job) (w : World) (es : List Progress) (next : Next) :
    Prop :=
  match j.next with
  | .load => es = [working path .load] ∧
    (next = .finish .load ∨ ∃ d, d.path = path ∧ next = .check d)
  | .check d => es = [] ∧
    (next = .finish .load ∨ (∃ p, next = .walk d p) ∨ ∃ text, next = publishing o d text)
  | .walk d _ => es = [working path o.walkStage] ∧
    (next = .over true ∧ w.polls ≠ none ∨ (∃ stage, next = .finish stage) ∨
      ∃ text, next = .keep d text)
  | .keep d text => es = [] ∧ next = publishing o d text
  | .claim d text => es = [working path .publish] ∧
    (next = .finish .publish ∨ ∃ span, next = .write (target o d) text span)
  | .write .. => es = [] ∧ next = .finish .publish
  | .finish stage => es = [ending j.settled stage] ∧ next = .over false
  | .over cancelled => es = [] ∧ next = .over cancelled

/-- The job of the unit at a path. -/
structure Compiles (path : String) (j : Job) : Prop where
  file : j.result.path = path
  unit : ∀ d, j.next.draft? = some d → d.path = path
  cached : j.restored = none → j.result.cached = false

/-- A step of the job of a unit, which reports `ds` and tells `es`. -/
structure Goes (o : Options) (path : String) (j : Job) (w : World) (ds : List Diagnostic)
    (es : List Progress) (s : Job × World) : Prop where
  follows : Follows o path j w es s.1.next
  file : s.1.result.path = path
  cached : s.1.restored = none → s.1.result.cached = false
  output : s.1.result.output = j.result.output ∨
    ∃ target text span, j.next = .write target text span ∧ s.1.result.output = target
  plain : ∀ x ∈ ds, x.Plain
  reports : s.1.reporter = j.reporter.reportAll (ds.map (.inFile path))
  tells : s.2.progress = es ++ w.progress
  lives : w.polls = none → s.2.polls = none

theorem restore_eq (p : Payload) (r : Reporter) (file : String) :
    p.restore r file = r.reportAll (((p.findings.map (·.diagnostic "")).filter
      (·.severity.isValid)).map (.inFile file)) := by
  rw [Payload.restore, filter_map, filter_map, map_map]
  rfl

theorem plain_restore {p : Payload} {x : Diagnostic}
    (mem : x ∈ (p.findings.map (·.diagnostic "")).filter (·.severity.isValid)) : x.Plain := by
  obtain ⟨mem, valid⟩ := mem_filter.mp mem
  obtain ⟨f, -, rfl⟩ := mem_map.mp mem
  exact ⟨rfl, valid⟩

theorem report_at {r : Reporter} {x : Diagnostic} (here : x.place.file = path) :
    r.report x = r.reportAll ([x].map (.inFile path)) := by
  rw [← here]
  rfl

theorem exists_check (file : j.result.path = d.path) (hj : j.next = .check d) {w : World} :
    ∃ ds : List Diagnostic, (∀ x ∈ ds, x.Plain) ∧ (j.check o d w).1.reporter =
        (j.reporter.reportAll (checkFindings d)).reportAll (ds.map (.inFile d.path)) ∧
      Follows o d.path j w [] (j.check o d w).1.next ∧ (j.check o d w).1.result = j.result ∧
      ((j.check o d w).1.restored = none → j.restored = none) := by
  have walks (p : Program) : Follows o d.path j w [] (.walk d p) := by
    rw [Follows, hj]
    exact ⟨rfl, .inr (.inl ⟨p, rfl⟩)⟩
  unfold check Draft.validate
  dsimp only
  cases d.check.result with
  | none => exact ⟨[], by simp, rfl, by rw [Follows, hj]; exact ⟨rfl, .inl rfl⟩, rfl, id⟩
  | some p =>
    simp only [lookUp]
    split
    · exact ⟨[], by simp, rfl, walks p, rfl, id⟩
    · split
      · exact ⟨[], by simp, rfl, walks p, rfl, id⟩
      · split
        · refine ⟨[_], ?_, report_at file, walks p, rfl, id⟩
          simpa using ⟨rfl, rfl⟩
        · split
          · refine ⟨_, fun x => plain_restore, restore_eq _ _ _, ?_, rfl, by simp [Job.restore]⟩
            rw [Follows, hj]
            exact ⟨rfl, .inr (.inr ⟨_, rfl⟩)⟩
          · exact ⟨[], by simp, rfl, walks p, rfl, id⟩

def loading (path : String) (parent : Nat) (w : World) : World :=
  let told := (w.startSpan .unit s!"unit:{Path.base path}" parent).2.tell
    ⟨path, .load, .working, none⟩
  let (phase, started) := told.startPhase s!"load {Path.base path}"
  started.finishPhase phase ""

theorem loading_eq (path : String) (parent : Nat) (w : World) :
    loading path parent w = { w with
      progress := ⟨path, .load, .working, none⟩ :: w.progress
      timer := (loading path parent w).timer
      recorder := (loading path parent w).recorder } := by
  unfold loading
  dsimp only
  rw [World.finishPhase_eq, World.startPhase_eq]
  rfl

theorem load_snd (j : Job) (w : World) :
    (j.load w).2 = (loading j.result.path j.span.parent w).saveTrace := by
  unfold load
  dsimp only
  split
  · rfl
  · split <;> rfl

theorem exists_load (hj : j.next = .load) (w : World) :
    ∃ ds : List Diagnostic, (∀ x ∈ ds, x.Plain) ∧ (j.load w).1.reporter =
        j.reporter.reportAll (ds.map (.inFile j.result.path)) ∧
      Follows o j.result.path j w [working j.result.path .load] (j.load w).1.next ∧
      (j.load w).1.result.path = j.result.path ∧
      (j.load w).1.result.cached = j.result.cached ∧ (j.load w).1.restored = j.restored ∧
      (j.load w).1.result.output = j.result.output := by
  have failed : Follows o j.result.path j w [working j.result.path .load] (.finish .load) := by
    rw [Follows, hj]
    exact ⟨rfl, .inl rfl⟩
  unfold load
  dsimp only
  split
  · refine ⟨[_], ?_, report_at rfl, failed, rfl, rfl, rfl, rfl⟩
    simpa using ⟨rfl, rfl⟩
  · split
    · refine ⟨[_], ?_, report_at rfl, failed, rfl, rfl, rfl, rfl⟩
      simpa using ⟨rfl, rfl⟩
    · next d parsed =>
      refine ⟨[], by simp, rfl, ?_, rfl, rfl, rfl, rfl⟩
      rw [Follows, hj]
      exact ⟨rfl, .inr ⟨d, Draft.path_of_parse? parsed, rfl⟩⟩

theorem walkEnd_alike_self (o : Options) (j : Job) (d : Draft) (p : Program) (w : World) :
    Alike ⟨d.path, d.path, j.reporter, j.reporter, o.dumpSymbols, o.dumpSymbols, w.Calm ∧ w.Calm⟩
      (walkEnd o j d p w) (walkEnd o j d p w) :=
  walkEnd_alike_of_polls rfl rfl rfl

theorem output_settled (j : Job) : j.settled.output = j.result.output := by
  unfold settled
  split <;> rfl

/-- What one step of a job does, one case for each stage. All that is said of runs rests on this. -/
theorem Compiles.step (h : Compiles path j) (o : Options) (w : World) :
    ∃ ds es, Goes o path j w ds es (j.step o w) := by
  obtain ⟨file, unit, cached⟩ := h
  cases hj : j.next with
  | load =>
    obtain rfl := file
    obtain ⟨ds, plain, reports, follows, file, same, restored, output⟩ := exists_load (o := o) hj w
    have step : j.step o w = j.load w := by rw [Job.step, hj]
    rw [step]
    refine ⟨ds, _, follows, file, fun none => ?_, .inl output, plain, reports, ?_, ?_⟩
    · rw [same]
      exact cached (restored.symm.trans none)
    · rw [load_snd, loading_eq]
      rfl
    · rw [load_snd, loading_eq]
      exact id
  | check d =>
    obtain rfl := unit d (by rw [hj]; rfl)
    obtain ⟨ds, plain, reports, follows, result, restored⟩ := exists_check (o := o) file hj
    have step : j.step o w = j.check o d w := by rw [Job.step, hj]
    have world : (j.check o d w).2.progress = w.progress ∧ (j.check o d w).2.polls = w.polls := by
      unfold check Draft.validate
      dsimp only
      cases d.check.result <;> exact ⟨rfl, rfl⟩
    rw [step]
    refine ⟨checkFindings d ++ ds, [], follows, by rw [result, file], fun none => ?_,
      .inl (by rw [result]), ?_, ?_, world.1, world.2.trans⟩
    · rw [result]
      exact cached (restored none)
    · rw [forall_mem_append]
      exact ⟨fun x => plain_checkFindings, plain⟩
    · rw [reports, map_append, Reporter.reportAll_append, ← checkFindings_inFile rfl]
  | walk d p =>
    obtain rfl := unit d (by rw [hj]; rfl)
    obtain ⟨ds, plain, found, -⟩ := (walkEnd_alike_self o j d p w).found
    have step : j.step o w = j.walk o d p w := by rw [Job.step, hj]
    have world : (j.walk o d p w).2 = (walked o j d p w).poll.2 := rfl
    rw [step]
    refine ⟨ds, [working d.path o.walkStage], ?_, file, cached, .inl rfl, plain, found, ?_,
      fun live => ?_⟩
    · rw [Follows, hj]
      refine ⟨rfl, ?_⟩
      by_cases live : w.polls = none
      · rw [walk_eq live, behind]
        dsimp only
        split
        · exact .inr (.inl ⟨_, rfl⟩)
        · exact .inr (.inr ⟨_, rfl⟩)
      · rcases next_walk o j d p w with next | next
        · exact .inl ⟨next, live⟩
        · rw [next]
          split
          · exact .inr (.inl ⟨_, rfl⟩)
          · exact .inr (.inr ⟨_, rfl⟩)
    · rw [world, World.poll_eq, walked_eq]
      rfl
    · rw [walk_eq live, walked_eq]
      exact polls_walkEnd live
  | keep d text =>
    obtain rfl := unit d (by rw [hj]; rfl)
    have follows : Follows o d.path j w [] (publishing o d text) := by
      rw [Follows, hj]
      exact ⟨rfl, rfl⟩
    simp only [Job.step, hj, keep]
    split
    · exact ⟨[], [], follows, file, cached, .inl rfl, by simp, rfl, rfl, id⟩
    · split
      · next done =>
        obtain ⟨-, told, polls⟩ := World.onFiles_of_eq done
        exact ⟨[], [], follows, file, cached, .inl rfl, by simp, rfl, told, polls.trans⟩
      · next failed =>
        obtain ⟨-, told, polls⟩ := World.onFiles_of_eq failed
        refine ⟨[_], [], follows, file, cached, .inl rfl, ?_, report_at file, told, polls.trans⟩
        simpa using ⟨rfl, rfl⟩
  | claim d text =>
    obtain rfl := unit d (by rw [hj]; rfl)
    simp only [Job.step, hj, claim]
    split
    · next claimed =>
      obtain ⟨-, told, polls⟩ := World.claim_of_eq claimed
      refine ⟨[], [working d.path .publish], ?_, file, cached, .inl rfl, by simp, rfl, told,
        polls.trans⟩
      rw [Follows, hj]
      exact ⟨rfl, .inr ⟨_, rfl⟩⟩
    · next refused =>
      obtain ⟨-, told, polls⟩ := World.claim_of_eq refused
      refine ⟨[_], [working d.path .publish], ?_, file, cached, .inl rfl, ?_, report_at file, told,
        polls.trans⟩
      · rw [Follows, hj]
        exact ⟨rfl, .inl rfl⟩
      · simpa using ⟨rfl, rfl⟩
  | write target text span =>
    have follows : Follows o path j w [] (.finish .publish) := by
      rw [Follows, hj]
      exact ⟨rfl, rfl⟩
    rcases hr : w.saveTrace.onFiles (FileOp.replaceFile {} target ⟨text.toArray⟩) with ⟨r, w₁⟩
    obtain ⟨-, told, polls⟩ := World.onFiles_of_eq hr
    simp only [Job.step, hj, write, hr]
    cases r with
    | ok _ =>
      exact ⟨[], [], follows, file, cached, .inr ⟨target, text, span, hj, rfl⟩, by simp, rfl, told,
        polls.trans⟩
    | error m =>
      refine ⟨[_], [], follows, file, cached, .inl rfl, ?_, report_at file, told, polls.trans⟩
      simpa using ⟨rfl, rfl⟩
  | finish stage =>
    rw [Job.step, hj]
    refine ⟨[], [ending j.settled stage], ?_, path_settled.trans file, fun none => ?_,
      .inl (output_settled j), by simp, rfl, rfl, id⟩
    · rw [Follows, hj]
      exact ⟨rfl, rfl⟩
    · show j.settled.cached = false
      rw [settled, show j.restored = _ from none]
      exact cached none
  | «over» cancelled =>
    rw [Job.step, hj]
    refine ⟨[], [], ?_, file, cached, .inl rfl, by simp, rfl, rfl, id⟩
    rw [Follows, hj]
    exact ⟨rfl, rfl⟩

theorem rank_publishing (o : Options) (d : Draft) (text : List UInt8) :
    (publishing o d text).rank ≤ 3 := by
  unfold publishing
  split <;> simp [rank]

theorem draft?_publishing {text : List UInt8} {d' : Draft}
    (h : (publishing o d text).draft? = some d') : d' = d := by
  unfold publishing at h
  split at h
  · cases h
  · exact (Option.some.inj h).symm

variable {ds : List Diagnostic} {es : List Progress} {s : Job × World}

theorem Goes.next (h : Goes o path j w ds es s) (compiles : Compiles path j) :
    Compiles path s.1 ∧ s.1.next.rank ≤ j.next.rank - 1 := by
  have follows := h.follows
  have unit := compiles.unit
  suffices next : (∀ d, s.1.next.draft? = some d → d.path = path) ∧
      s.1.next.rank ≤ j.next.rank - 1 from ⟨⟨h.file, next.1, h.cached⟩, next.2⟩
  unfold Follows at follows
  cases hj : j.next with
  | load =>
    rw [hj] at follows
    obtain ⟨-, next | ⟨d, here, next⟩⟩ := follows <;> simp [next, draft?, rank]
    exact here
  | check d =>
    rw [hj] at follows
    have here := unit d (by rw [hj]; rfl)
    obtain ⟨-, next | ⟨p, next⟩ | ⟨text, next⟩⟩ := follows
    · simp [next, draft?, rank]
    · simp [next, draft?, rank, here]
    · rw [next]
      exact ⟨fun d' same => draft?_publishing same ▸ here,
        (rank_publishing o d text).trans (by simp [rank])⟩
  | walk d p =>
    rw [hj] at follows
    have here := unit d (by rw [hj]; rfl)
    obtain ⟨-, ⟨next, -⟩ | ⟨stage, next⟩ | ⟨text, next⟩⟩ := follows <;>
      simp [next, draft?, rank, here]
  | keep d text =>
    rw [hj] at follows
    rw [follows.2]
    exact ⟨fun d' same => draft?_publishing same ▸ unit d (by rw [hj]; rfl),
      rank_publishing o d text⟩
  | claim d text =>
    rw [hj] at follows
    obtain ⟨-, next | ⟨span, next⟩⟩ := follows <;> simp [next, draft?, rank]
  | write target text span | finish stage | «over» cancelled =>
    rw [hj] at follows
    simp [follows.2, draft?, rank]

end Job

end Compile

end Jasm

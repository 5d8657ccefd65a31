import Jasm.Proofs.Cache.Entries
import Jasm.Proofs.Cache.Keys
import Jasm.Proofs.Compile.Publishing
import Jasm.Proofs.Compile.Twins

/-!
# Compiling with a cache

A compilation without errors leaves its text, the number of its lines and its findings in the cache,
under a key made from the source and the options of the assembly program. A later one that has the
same key takes them from there and reports the findings again. Walks over one unit under two paths
go alike, so this leads to the same result and the same text as compiling again. Only the number of
findings that are kept is no part of the key: a compilation that keeps more than the one before it
gets no more than that one kept.
-/

namespace Jasm.Compile

open Cache World Reporter List Option

/-! ## Calm worlds -/

namespace World

/-- No trace goes to a file, and nothing is cancelled. -/
structure Calm (w : World) : Prop where
  quiet : w.recorder.tracer.Quiet
  live : w.polls = none

namespace Calm

variable {w : World}

section

variable (h : w.Calm)
include h

theorem saveTrace : w.saveTrace = w := by
  unfold World.saveTrace
  rw [Trace.Tracer.save_of_quiet h.quiet]

theorem tell (p : Progress) : (w.tell p).Calm := ⟨h.quiet, h.live⟩

theorem startSpan (grain : Trace.Grain) (name : String) (parent : Nat) :
    (w.startSpan grain name parent).2.Calm :=
  ⟨Trace.Recorder.quiet_start h.quiet, h.live⟩

theorem finishSpan {s : Trace.Span} {detail : String} : (w.finishSpan s detail).Calm :=
  ⟨Trace.Recorder.quiet_finish h.quiet, h.live⟩

theorem startPhase (name : String) : (w.startPhase name).2.Calm := by
  rw [startPhase_eq]
  exact ⟨h.quiet, h.live⟩

theorem finishPhase (i : Option Nat) (note : String) : (w.finishPhase i note).Calm := by
  rw [finishPhase_eq]
  exact ⟨h.quiet, h.live⟩

end

end Calm

theorem poll_of_live {w : World} (live : w.polls = none) : w.poll = (true, w) := by
  unfold poll
  rw [live]

theorem claim_eq_of_claims {w w' : World} (h : w'.claims = w.claims) (target path : String) :
    (w'.claim target path).1 = (w.claim target path).1 ∧
      (w'.claim target path).2.claims = (w.claim target path).2.claims := by
  unfold claim
  rw [h]
  cases hc : w.claims with
  | none => exact ⟨rfl, h.trans rfl⟩
  | some claims =>
    dsimp only
    cases claims.lookup target with
    | none => exact ⟨rfl, rfl⟩
    | some owner => dsimp only; split <;> exact ⟨rfl, h⟩

theorem claim_eq (w : World) (target path : String) :
    (w.claim target path).2 = { w with claims := (w.claim target path).2.claims } := by
  unfold claim
  cases w.claims with
  | none => rfl
  | some claims =>
    dsimp only
    cases claims.lookup target with
    | none => rfl
    | some owner => dsimp only; split <;> rfl

end World

namespace Job

variable {o o' : Options} {d d' : Draft} {p : Program} {j j' : Job} {w w' : World} {r : Reporter}
  {text : List UInt8} {dir : String}

/-! ## What a walk leaves behind -/

theorem calm_walkStart (calm : w.Calm) (o : Options) (j : Job) (d : Draft) :
    (walkStart o j d w).recorder.tracer.Quiet ∧ (walkStart o j d w).polls = none := by
  have started : ((w.tell ⟨d.path, o.walkStage, .working, none⟩).startSpan .pass o.walkStage.text
      j.span.id).2.Calm := (calm.tell _).startSpan _ _ _
  have phase := started.startPhase s!"{o.walkStage.text} {d.name}"
  exact ⟨phase.quiet, phase.live⟩

theorem polls_walkStart (o : Options) (j : Job) (d : Draft) (w : World) :
    (walkStart o j d w).polls = w.polls := by
  unfold walkStart
  dsimp only
  rw [startPhase_eq]
  rfl

theorem walkEnd_alike_of_polls {p : Program} (unit : d' = { d with path := d'.path })
    (assembly : o'.assembly = o.assembly) (polls : w'.polls = w.polls) :
    Alike ⟨d.path, d'.path, j.reporter, j'.reporter, o.dumpSymbols, o'.dumpSymbols,
      w.Calm ∧ w'.Calm⟩ (walkEnd o j d p w) (walkEnd o' j' d' p w') := by
  have hprogram : d'.program = d.program := by rw [unit]
  have shown (o : Options) : (if o.dumpSymbols then some "" else none).isSome = o.dumpSymbols := by
    cases o.dumpSymbols <;> rfl
  have start : Alike ⟨d.path, d'.path, j.reporter, j'.reporter, o.dumpSymbols, o'.dumpSymbols,
      w.Calm ∧ w'.Calm⟩ (walkStart o j d w) (walkStart o' j' d' w') :=
    { stack := rfl
      bases := rfl
      assigned := rfl
      function := rfl
      generator := by
        show Assembly.Generator.new d'.program o'.assembly = .new d.program o.assembly
        rw [hprogram, assembly]
      failed := rfl
      polls := by rw [polls_walkStart, polls_walkStart, polls]
      found := ⟨[], by simp, rfl, rfl⟩
      live := fun calm => (calm_walkStart calm.1 o j d).2
      quiet := fun calm => (calm_walkStart calm.1 o j d).1
      quiet' := fun calm => (calm_walkStart calm.2 o' j' d').1
      dump := shown o
      dump' := shown o'
      shows :=
        fun both => congrArg (fun shown : Bool => if shown then some "" else none) both.symm }
  have twin : Twin ⟨d.path, d'.path, j.reporter, j'.reporter, o.dumpSymbols, o'.dumpSymbols,
      w.Calm ∧ w'.Calm⟩ (do Walk.program (config o d) p; Walk.close (config o d) p)
      (do Walk.program (config o' d') p; Walk.close (config o' d') p) := by
    rw [show config o' d' = ⟨d'.path, o.assembly.maxLocals⟩ by rw [config, assembly]]
    exact .bind (Walk.twin_program p) fun _ => Walk.twin_close p
  exact (twin _ _ start).2

theorem polls_walkEnd (live : w.polls = none) {o : Options} {j : Job} {d : Draft} {p : Program} :
    (walkEnd o j d p w).polls = none := by
  have quiet : ({} : World).Calm := ⟨fun _ h => absurd h not_mem_nil, rfl⟩
  have alike (w : World) (live : w.polls = none) : Alike ⟨d.path, d.path, _, _, _, _, _⟩
      (walkEnd o j d p {}) (walkEnd o j d p w) := walkEnd_alike_of_polls rfl rfl live
  exact (alike w live).polls.trans ((alike {} rfl).live ⟨quiet, quiet⟩)

theorem walkEnd_alike (p : Program) (unit : d' = { d with path := d'.path })
    (assembly : o'.assembly = o.assembly) (calm : w.Calm) (calm' : w'.Calm) :
    Alike ⟨d.path, d'.path, j.reporter, j'.reporter, o.dumpSymbols, o'.dumpSymbols,
      w.Calm ∧ w'.Calm⟩ (walkEnd o j d p w) (walkEnd o' j' d' p w') :=
  walkEnd_alike_of_polls unit assembly (calm'.live.trans calm.live.symm)

/-- The walk over a unit that is compiled by itself. -/
def outcome (o : Options) (d : Draft) (p : Program) : State :=
  walkEnd o (walking o d 0 p (.collecting o.limit)) d p {}

/-- What the compilation of a unit leaves behind. -/
def payloadOf (o : Options) (d : Draft) (p : Program) : Payload :=
  .ofResult d.program (outcome o d p).generator.text.toUTF8.toList
    (outcome o d p).generator.lineCount (outcome o d p).reporter.contents

theorem calm_empty : ({} : World).Calm := ⟨fun _ h => absurd h not_mem_nil, rfl⟩

theorem walkEnd_eq_outcome (p : Program) (calm : w.Calm)
    (hj : j.reporter = collected o (checkFindings d)) :
    (walkEnd o j d p w).generator = (outcome o d p).generator ∧
      (walkEnd o j d p w).reporter = (outcome o d p).reporter := by
  have alike : Alike ⟨d.path, d.path, _, j.reporter, _, _, _⟩ (outcome o d p) (walkEnd o j d p w) :=
    walkEnd_alike p rfl rfl calm_empty calm
  obtain ⟨ds, -, found, found'⟩ := alike.found
  refine ⟨alike.generator, found'.trans (.trans ?_ found.symm)⟩
  rw [hj]
  rfl

theorem calm_walked (calm : w.Calm) (o : Options) (j : Job) (d : Draft) (p : Program) :
    (walked o j d p w).Calm := by
  have alike : Alike ⟨d.path, d.path, _, _, _, _, _⟩ (walkEnd o j d p w) (walkEnd o j d p w) :=
    walkEnd_alike p rfl rfl calm calm
  have quiet := alike.quiet ⟨calm, calm⟩
  have live := alike.live ⟨calm, calm⟩
  refine World.Calm.finishSpan ⟨?_, ?_⟩
  · exact Trace.Recorder.quiet_annotate (World.Calm.finishPhase ⟨quiet, live⟩ _ _).quiet _ _ _
  · exact (World.Calm.finishPhase ⟨quiet, live⟩ _ _).live

theorem files_walked (o : Options) (j : Job) (d : Draft) (p : Program) (w : World) :
    (walked o j d p w).files = w.files ∧ (walked o j d p w).claims = w.claims := by
  rw [walked_eq]
  exact ⟨rfl, rfl⟩

def behind (o : Options) (j : Job) (d : Draft) (c : State) : Job :=
  { j with
      reporter := c.reporter
      result := { j.result with lines := c.generator.lineCount, symbols := c.dump.getD "" }
      next := if c.reporter.contents.hasErrors then .finish o.walkStage
        else .keep d c.generator.text.toUTF8.toList }

theorem walk_eq (live : w.polls = none) (o : Options) (j : Job) (d : Draft) (p : Program) :
    j.walk o d p w = (behind o j d (walkEnd o j d p w), walked o j d p w) := by
  have polled : (walked o j d p w).poll = (true, walked o j d p w) := by
    refine poll_of_live ?_
    rw [walked_eq]
    exact polls_walkEnd live
  have stays : (walked o j d p w).poll.2 = walked o j d p w := by rw [polled]
  refine Prod.ext ?_ stays
  show ({ behind o j d (walkEnd o j d p w) with
    next := if !(walked o j d p w).poll.1 then .over true
      else (behind o j d (walkEnd o j d p w)).next } : Job) = _
  rw [polled]
  rfl

/-! ## Keeping and restoring findings -/

theorem checkFindings_inFile (unit : d' = { d with path := d'.path }) :
    checkFindings d' = (checkFindings d).map (.inFile d'.path) := by
  rw [unit]
  simp only [checkFindings, map_append, List.map_map, Draft.unknownKeys]
  rfl

theorem plain_checkFindings {x : Diagnostic} (h : x ∈ checkFindings d) : x.Plain := by
  rcases mem_append.mp h with h | h
  · obtain ⟨key, -, rfl⟩ := mem_map.mp h
    exact ⟨rfl, rfl⟩
  · obtain ⟨problem, -, rfl⟩ := mem_map.mp h
    exact ⟨rfl, rfl⟩

/-- What was reported are the findings of the check and some more, all about the file of the
unit. -/
def Told (o : Options) (d : Draft) (r : Reporter) : Prop :=
  ∃ ds : List Diagnostic, (∀ x ∈ ds, x.Plain) ∧
    r = collected o (checkFindings d ++ ds.map (.inFile d.path))

theorem Told.plain (h : Told o d r) : ∀ x ∈ r.contents.items.toList, x.Plain := by
  obtain ⟨ds, plain, rfl⟩ := h
  intro x mem
  rw [collected, contents_reportAll_collecting] at mem
  rcases mem_append.mp (mem_of_mem_distinct (mem_of_mem_take mem)) with mem | mem
  · exact plain_checkFindings mem
  · obtain ⟨y, known, rfl⟩ := mem_map.mp mem
    exact (plain y known).inFile _

theorem exists_findings (o o' : Options) (p : Program) (unit : d' = { d with path := d'.path })
    (assembly : o'.assembly = o.assembly) :
    ∃ ds : List Diagnostic, (∀ x ∈ ds, x.Plain) ∧
      (outcome o d p).reporter = collected o (checkFindings d ++ ds.map (.inFile d.path)) ∧
      (outcome o' d' p).reporter = collected o' (checkFindings d' ++ ds.map (.inFile d'.path)) := by
  have alike : Alike ⟨d.path, d'.path, _, _, _, _, _⟩ (outcome o d p) (outcome o' d' p) :=
    walkEnd_alike p unit assembly calm_empty calm_empty
  obtain ⟨ds, plain, found, found'⟩ := alike.found
  refine ⟨ds, plain, ?_, ?_⟩
  · rw [found, collected, reportAll_append]
    rfl
  · rw [found', collected, reportAll_append]
    rfl

theorem items_inFile (unit : d' = { d with path := d'.path }) (ds : List Diagnostic) :
    ((collected o' (checkFindings d' ++ ds.map (.inFile d'.path))).contents.items.toList.map
        (.inFile d.path)) =
      (distinct [] (checkFindings d ++ ds.map (.inFile d.path))).take (Bag.new o'.limit).limit := by
  have all (file : String) : (checkFindings d ++ ds).map (Diagnostic.inFile file) =
      (checkFindings d).map (Diagnostic.inFile file) ++ ds.map (Diagnostic.inFile file) :=
    map_append
  rw [collected, contents_reportAll_collecting, checkFindings_inFile unit, ← all]
  dsimp only
  rw [map_take, map_inFile_distinct, all, ← checkFindings_inFile rfl]

theorem limit_le (limit : o.limit ≤ o'.limit) :
    (Bag.new o.limit).limit ≤ (Bag.new o'.limit).limit := by
  simp only [Bag.new]
  omega

theorem like_restore (p : Program) (unit : d' = { d with path := d'.path })
    (assembly : o'.assembly = o.assembly) (limit : o.limit ≤ o'.limit) :
    Like ((payloadOf o' d' p).restore (collected o (checkFindings d)) d.path)
      (outcome o d p).reporter := by
  obtain ⟨ds, plain, found, found'⟩ := exists_findings o o' p unit assembly
  have told : Told o' d' (outcome o' d' p).reporter := ⟨ds, plain, found'⟩
  rw [payloadOf, Payload.restore_ofResult told.plain, found', items_inFile unit, found]
  exact like_reportAll_again o.limit _ _ (limit_le limit)

theorem hasErrors_of_limit_le (p : Program) (unit : d' = { d with path := d'.path })
    (assembly : o'.assembly = o.assembly) (limit : o.limit ≤ o'.limit)
    (clean : (outcome o' d' p).reporter.contents.hasErrors = false) :
    (outcome o d p).reporter.contents.hasErrors = false := by
  obtain ⟨ds, -, found, found'⟩ := exists_findings o o' p unit assembly
  rw [found, hasErrors_collected, keepsError, List.any_eq_false]
  intro x hx
  have kept : x ∈ (outcome o' d' p).reporter.contents.items.toList.map (.inFile d.path) := by
    rw [found', items_inFile unit]
    exact (take_prefix_take_left (limit_le limit)).subset hx
  obtain ⟨y, hy, rfl⟩ := mem_map.mp kept
  rw [Bag.hasErrors, Array.any_eq_false'] at clean
  exact clean y (Array.mem_toList_iff.mp hy)

/-! ## Runs in which no file operation fails -/

/-- Whether the next step of a job meets no file operation that fails. -/
def smooth (o : Options) (j : Job) (w : World) : Bool :=
  match j.next with
  | .load => (w.saveTrace.files.read j.result.path).toBool
  | .check d => o.cacheDir.all fun dir =>
    (get w.saveTrace.files dir (Cache.key d.source.toList o.assembly)).toBool
  | .keep d text => o.cacheDir.all fun dir =>
    ((put dir (Cache.key d.source.toList o.assembly)
      (.ofResult d.program text j.result.lines j.reporter.contents)).run.run w.files).1.toBool
  | .write target text _ =>
    ((FileOp.replaceFile {} target ⟨text.toArray⟩).run.run w.saveTrace.files).1.toBool
  | _ => true

/-- Whether a number of steps meets no file operation that fails. -/
def smoothSteps (o : Options) : (count : Nat) → Job → World → Bool
  | 0, _, _ => true
  | count + 1, j, w => j.smooth o w && smoothSteps o count (j.step o w).1 (j.step o w).2

theorem smoothSteps_succ {n : Nat} (h : smoothSteps o (n + 1) j w) :
    j.smooth o w ∧ smoothSteps o n (j.step o w).1 (j.step o w).2 :=
  Bool.and_eq_true_iff.mp h

theorem exists_ok_of_toBool {ε α : Type} {r : Except ε α} (h : r.toBool) : ∃ a, r = .ok a := by
  cases r with
  | ok a => exact ⟨a, rfl⟩
  | error e => cases h

/-! ## Publishing -/

theorem run_of_over (h : (j.steps o maxSteps w).1.next = .over false) :
    (j.run o w).1 = ((j.steps o maxSteps w).1.settled, false) ∧
      (j.run o w).2.files = (j.steps o maxSteps w).2.files := by
  unfold run
  rcases hs : j.steps o maxSteps w with ⟨j', w'⟩
  rw [hs] at h
  dsimp only at h ⊢
  rw [h]
  exact ⟨rfl, rfl⟩

theorem settled_settled (j : Job) (next : Next) :
    ({ j with next := next, result := j.settled } : Job).settled = j.settled := by
  unfold settled
  cases j.restored <;> rfl

theorem settled_output (j : Job) (next : Next) (output : String) :
    ({ j with next := next, result := { j.result with output := output } } : Job).settled =
      { j.settled with output := output } := by
  unfold settled
  cases j.restored <;> rfl

theorem last_target (o : Options) (d : Draft) :
    ∃ front, Path.Last (target o d) (front ++ ".jasm") ∧ Files.IsName (front ++ ".jasm") := by
  obtain ⟨before, front, hp⟩ := Path.exists_parts d.program
  have hl : Path.Last (d.program ++ ".jasm") (front ++ ".jasm") :=
    ⟨before, Path.parts_append hp (by decide)⟩
  have hn : Files.IsName (front ++ ".jasm") := FileOp.isName_of_length (by
    rw [String.length_append]
    exact Nat.le_trans (by decide) (Nat.le_add_left _ _))
  exact ⟨front, Path.last_join [_] hl hn, hn⟩

def claiming (j : Job) (d : Draft) (w : World) : World :=
  (w.startSpan .pass "publish" j.span.id).2.tell ⟨d.path, .publish, .working, none⟩

theorem calm_claiming (calm : w.Calm) (j : Job) (d : Draft) : (claiming j d w).Calm :=
  (calm.startSpan _ _ _).tell _

theorem claim_claiming (o : Options) (j : Job) (d : Draft) (w : World) :
    ((claiming j d w).claim (target o d) d.path).1 = (w.claim (target o d) d.path).1 ∧
      ((claiming j d w).claim (target o d) d.path).2.claims =
        (w.claim (target o d) d.path).2.claims := by
  have claims : (claiming j d w).claims = w.claims := rfl
  exact claim_eq_of_claims claims _ _

theorem calm_claim (calm : w.Calm) (target path : String) : (w.claim target path).2.Calm := by
  rw [claim_eq]
  exact ⟨calm.quiet, calm.live⟩

theorem step_claim (calm : w.Calm) (hj : j.next = .claim d text) :
    ∃ span w', j.step o w = ((w.claim (target o d) d.path).1.elim
        { j with next := .write (target o d) text span }
        fun owner => { j.report (.error .writeFailed j.place
          s!"{target o d} is already produced by {owner}") with next := .finish .publish }, w') ∧
      w'.files = w.files ∧ w'.Calm ∧ w'.claims = (w.claim (target o d) d.path).2.claims := by
  obtain ⟨owner, claims⟩ := claim_claiming o j d w
  have files := congrArg files ((claiming j d w).claim_eq (target o d) d.path)
  have calm' := calm_claim (calm_claiming calm j d) (target o d) d.path
  rw [← owner, ← claims]
  rcases hc : (claiming j d w).claim (target o d) d.path with ⟨r, w₁⟩
  rw [hc] at files calm'
  unfold claiming at hc
  refine ⟨(w.startSpan .pass "publish" j.span.id).1, ?_⟩
  cases r with
  | none =>
    refine ⟨w₁, ?_, files, calm', rfl⟩
    simp only [step, hj, claim, hc, elim_none]
  | some owner =>
    refine ⟨w₁.finishSpan (w.startSpan .pass "publish" j.span.id).1 "", ?_, files,
      calm'.finishSpan, rfl⟩
    simp only [step, hj, claim, hc, elim_some]

theorem step_write {target : String} {span : Trace.Span} (calm : w.Calm)
    (hj : j.next = .write target text span) (smooth : j.smooth o w) :
    ∃ fs, (FileOp.replaceFile {} target ⟨text.toArray⟩).run.run w.files = (.ok (), fs) ∧
      ∃ w', j.step o w = ({ j with
          next := .finish .publish, result := { j.result with output := target } }, w') ∧
        w'.files = fs ∧ w'.Calm ∧ w'.claims = w.claims := by
  simp only [Job.smooth, hj, calm.saveTrace] at smooth
  obtain ⟨_, ok⟩ := exists_ok_of_toBool smooth
  rcases hr : (FileOp.replaceFile {} target ⟨text.toArray⟩).run.run w.files with ⟨r, fs⟩
  rw [hr] at ok
  cases ok
  have calm' : Calm { w with files := fs } := ⟨calm.quiet, calm.live⟩
  refine ⟨fs, rfl, finishSpan { w with files := fs } span "", ?_, rfl,
    calm'.finishSpan, rfl⟩
  simp only [step, hj, write, calm.saveTrace, onFiles, hr]

/-! ## Looking into the cache and filling it -/

def checked (j : Job) (d : Draft) : Job :=
  { j with reporter := j.reporter.reportAll (checkFindings d) }

theorem step_check_cached (calm : w.Calm) (hj : j.next = .check d) (hr : d.check.result = some p)
    (hdir : o.cacheDir = some dir) (smooth : j.smooth o w) :
    j.step o w = ({ j.checked d with next := .walk d p }, w) ∨
      ∃ payload, o.dumpSymbols = false ∧
        get w.files dir (Cache.key d.source.toList o.assembly) = .ok (true, payload) ∧
        j.step o w = (restore o (j.checked d) d payload, w) := by
  simp only [Job.smooth, hj, hdir, calm.saveTrace, all_some] at smooth
  obtain ⟨⟨hit, payload⟩, found⟩ := exists_ok_of_toBool smooth
  simp only [step, hj, check, Draft.validate, hr, calm.saveTrace, lookUp, hdir, found]
  cases hidden : o.dumpSymbols with
  | true => exact .inl rfl
  | false =>
    rw [if_neg Bool.false_ne_true]
    split
    · next use =>
        rw [Bool.and_eq_true] at use
        exact .inr ⟨payload, rfl, by rw [use.1], rfl⟩
    · exact .inl rfl

theorem step_keep (hj : j.next = .keep d text) (hdir : o.cacheDir = some dir)
    (smooth : j.smooth o w) :
    ∃ fs, (put dir (Cache.key d.source.toList o.assembly)
        (.ofResult d.program text j.result.lines j.reporter.contents)).run.run w.files =
          (.ok (), fs) ∧
      j.step o w = ({ j with next := publishing o d text }, { w with files := fs }) := by
  simp only [Job.smooth, hj, hdir, all_some] at smooth
  obtain ⟨_, ok⟩ := exists_ok_of_toBool smooth
  rcases hr : (put dir (Cache.key d.source.toList o.assembly)
    (.ofResult d.program text j.result.lines j.reporter.contents)).run.run w.files with ⟨r, fs⟩
  rw [hr] at ok
  cases ok
  refine ⟨fs, rfl, ?_⟩
  simp only [step, hj, keep, hdir, onFiles, hr]

theorem step_keep_plain (hj : j.next = .keep d text) (none : o.cacheDir = none) :
    j.step o w = ({ j with next := publishing o d text }, w) := by
  simp only [step, hj, keep, none]

/-! ## Jobs with the same result -/

/-- Jobs whose results will not differ, but for whether the program came from the cache. -/
structure Akin (j j' : Job) : Prop where
  reporter : j.reporter.Like j'.reporter
  result : ∀ b, ({ j.settled with findings := b, cached := false } : Result) =
    { j'.settled with findings := b, cached := false }

theorem settled_report (j : Job) (x : Diagnostic) (b : Bag) :
    ({ (j.report x).settled with findings := b, cached := false } : Result) =
      { j.settled with findings := b, cached := false } := by
  unfold settled report
  cases j.restored <;> rfl

theorem Akin.report (h : Akin j j') (x : Diagnostic) : Akin (j.report x) (j'.report x) where
  reporter := h.reporter.report x
  result b := by rw [settled_report, settled_report, h.result]

theorem findings_settled (j : Job) : j.settled.findings = j.reporter.contents := by
  unfold settled
  cases j.restored <;> rfl

theorem path_settled {j : Job} : j.settled.path = j.result.path := by
  unfold settled
  cases j.restored <;> rfl

/-- A result without regard to whether the program came from the cache. -/
def uncached (r : Result) : Result := { r with cached := false }

theorem akin_restore (p : Program) (unit : d' = { d with path := d'.path })
    (assembly : o'.assembly = o.assembly) (limit : o.limit ≤ o'.limit)
    (hj : j.reporter = collected o (checkFindings d)) (fresh : j.restored = none)
    (symbols : j.result.symbols = "") (hidden : o.dumpSymbols = false) (calm : w.Calm)
    (next : Next) :
    Akin (restore o j d (payloadOf o' d' p))
      { behind o j d (walkEnd o j d p w) with next := next } := by
  obtain ⟨generator, reporter⟩ := walkEnd_eq_outcome p calm hj
  have same : (outcome o' d' p).generator = (outcome o d p).generator :=
    (walkEnd_alike p unit assembly calm_empty calm_empty).generator
  have alike : Alike ⟨d.path, d.path, _, _, _, _, _⟩ (walkEnd o j d p w) (walkEnd o j d p w) :=
    walkEnd_alike p rfl rfl calm calm
  have nothing : (walkEnd o j d p w).dump.getD "" = "" := by
    have none := alike.dump
    dsimp only at none
    rw [hidden, isSome_eq_false_iff, isNone_iff_eq_none] at none
    rw [none]
    rfl
  refine ⟨?_, fun b => ?_⟩
  · show Like ((payloadOf o' d' p).restore j.reporter d.path) (walkEnd o j d p w).reporter
    rw [reporter, hj]
    exact like_restore p unit assembly limit
  · obtain ⟨_, result, _, _, _⟩ := j
    dsimp only at fresh symbols
    subst fresh
    simp only [Job.settled, restore, behind, nothing, generator, payloadOf, Payload.ofResult, same]
    rw [← symbols]

end Job

/-! ## Calls that share a cache -/

/-- A call of the compiler. -/
structure Request where
  draft : Draft
  options : Options
  parent : Nat := 0

namespace Request

open Job

variable {before : List Request} {text : List UInt8}

/-- The bytes that the key of the call is made from. -/
def keyBytes (q : Request) : List UInt8 :=
  Cache.keyBytes q.draft.source.toList q.options.assembly

def key (q : Request) : List UInt8 := Cache.key q.draft.source.toList q.options.assembly

/-- The call in a world: its result, whether it was cancelled, and the world behind it. -/
def run (q : Request) (w : World) : (Result × Bool) × World :=
  compile q.options q.draft q.parent w

def plain (q : Request) : Request := { q with options := { q.options with cacheDir := none } }

def smooth (q : Request) (w : World) : Bool :=
  smoothSteps q.options maxSteps (.ofDraft q.options q.draft q.parent) w

def runAll : List Request → World → World
  | [], w => w
  | q :: rest, w => runAll rest (q.run w).2

def smoothAll : List Request → World → Bool
  | [], _ => true
  | q :: rest, w => q.smooth w && smoothAll rest (q.run w).2

theorem smoothAll_append {after : List Request} {w : World} (h : smoothAll (before ++ after) w) :
    smoothAll before w ∧ smoothAll after (runAll before w) := by
  induction before generalizing w with
  | nil => exact ⟨rfl, h⟩
  | cons q rest ih =>
    obtain ⟨first, others⟩ := Bool.and_eq_true_iff.mp h
    obtain ⟨some, others⟩ := ih others
    exact ⟨Bool.and_eq_true_iff.mpr ⟨first, some⟩, others⟩

/-- What the call may leave in the cache: the payload of a compilation that kept no error. -/
def Leaves (q : Request) (p : Program) : Prop :=
  q.draft.check.result = some p ∧
    (outcome q.options q.draft p).reporter.contents.hasErrors = false

/-- An entry that one of several calls may have left. -/
def Kept (qs : List Request) (key : List UInt8) (bytes : ByteArray) : Prop :=
  ∃ x ∈ qs, x.key = key ∧
    ∃ p, x.Leaves p ∧ bytes = ⟨(payloadOf x.options x.draft p).pack.toArray⟩

/-! ## What a call does to the cache -/

/-- What holds of a job of a call, by what it does next. -/
def Fits (q : Request) (j : Job) : Prop :=
  match j.next with
  | .load => False
  | .check d => d = q.draft ∧ j.reporter = .collecting q.options.limit
  | .walk d p => d = q.draft ∧ q.draft.check.result = some p ∧
    j.reporter = collected q.options (checkFindings q.draft)
  | .keep d text => d = q.draft ∧ ∃ p, q.Leaves p ∧
    Payload.ofResult d.program text j.result.lines j.reporter.contents =
      payloadOf q.options q.draft p
  | .claim d _ => d = q.draft
  | .write target _ _ => target = Job.target q.options q.draft
  | .finish _ => True
  | .over _ => True

variable {q : Request} {qs : List Request} {dir : String} {j : Job} {w : World}

/-- The job of a call in a world with a cache that holds nothing but what calls left. -/
structure Sound (q : Request) (qs : List Request) (dir : String) (j : Job) (w : World) : Prop where
  fits : q.Fits j
  calm : w.Calm
  stores : Stores dir (Kept qs) w.files

theorem fits_publishing (h : j.next = publishing q.options q.draft text) :
    q.Fits j := by
  unfold Fits
  rw [h, publishing]
  cases q.options.checkOnly
  · exact rfl
  · exact True.intro

/-- Each step keeps the cache to what calls left, one case for each stage. -/
theorem Sound.step (h : q.Sound qs dir j w) (mem : q ∈ qs) (hdir : q.options.cacheDir = some dir)
    (smooth : j.smooth q.options w) :
    q.Sound qs dir (j.step q.options w).1 (j.step q.options w).2 := by
  obtain ⟨fits, calm, stores⟩ := h
  unfold Fits at fits
  cases hj : j.next with
  | load =>
    rw [hj] at fits
    exact fits.elim
  | check d =>
    rw [hj] at fits
    obtain ⟨rfl, reporter⟩ := fits
    have found : (j.checked q.draft).reporter = collected q.options (checkFindings q.draft) := by
      rw [checked, reporter]
      rfl
    cases hr : q.draft.check.result with
    | none =>
      rw [step_check_of_none hr hj]
      exact ⟨True.intro, calm, stores⟩
    | some p =>
      rcases step_check_cached calm hj hr hdir smooth with walks | ⟨payload, -, -, restores⟩
      · rw [walks]
        exact ⟨⟨rfl, hr, found⟩, calm, stores⟩
      · rw [restores]
        exact ⟨fits_publishing rfl, calm, stores⟩
  | walk d p =>
    rw [hj] at fits
    obtain ⟨rfl, result, reporter⟩ := fits
    have walked : j.step q.options w = _ :=
      (by rw [Job.step, hj] : j.step q.options w = j.walk q.options q.draft p w).trans
        (walk_eq calm.live q.options j q.draft p)
    rw [walked]
    refine ⟨?_, calm_walked calm _ _ _ _, ?_⟩
    · obtain ⟨generator, found⟩ := walkEnd_eq_outcome p calm reporter
      unfold Fits behind
      rw [generator, found]
      dsimp only
      by_cases errors : (outcome q.options q.draft p).reporter.contents.hasErrors
      · rw [if_pos errors]
        exact True.intro
      · rw [if_neg errors]
        exact ⟨rfl, p, ⟨result, Bool.eq_false_iff.mpr errors⟩, rfl⟩
    · rw [(files_walked _ _ _ _ _).1]
      exact stores
  | keep d text =>
    rw [hj] at fits
    obtain ⟨rfl, p, leaves, payload⟩ := fits
    obtain ⟨fs, filled, kept⟩ := step_keep hj hdir smooth
    rw [kept]
    refine ⟨fits_publishing rfl, ⟨calm.quiet, calm.live⟩, stores.put filled ?_⟩
    exact ⟨q, mem, rfl, p, leaves, by rw [payload]⟩
  | claim d text =>
    rw [hj] at fits
    dsimp only at fits
    subst fits
    obtain ⟨span, w₁, claimed, files, calm₁, -⟩ := step_claim calm hj
    rw [claimed]
    refine ⟨?_, calm₁, by rw [files]; exact stores⟩
    cases (w.claim (Job.target q.options q.draft) q.draft.path).1 with
    | none => exact rfl
    | some owner => exact True.intro
  | write target text span =>
    rw [hj] at fits
    dsimp only at fits
    subst fits
    obtain ⟨fs, replaced, w₁, written, files, calm₁, -⟩ := step_write calm hj smooth
    obtain ⟨front, hl, hn⟩ := last_target q.options q.draft
    rw [written]
    refine ⟨True.intro, calm₁, ?_⟩
    rw [files]
    exact stores.replaceFile replaced hl hn fun key => entryName_ne_output key
  | finish stage =>
    rw [Job.step, hj]
    exact ⟨True.intro, calm.tell _, stores⟩
  | «over» cancelled =>
    rw [Job.step, hj]
    exact ⟨by unfold Fits; rw [hj]; exact True.intro, calm, stores⟩

theorem run_sound (calm : w.Calm) (stores : Stores dir (Kept qs) w.files) (mem : q ∈ qs)
    (hdir : q.options.cacheDir = some dir) (smooth : q.smooth w) :
    (q.run w).2.Calm ∧ Stores dir (Kept qs) (q.run w).2.files := by
  have start : q.Sound qs dir (.ofDraft q.options q.draft q.parent) w :=
    ⟨⟨rfl, rfl⟩, calm, stores⟩
  have steps (n : Nat) (j : Job) (w : World) (h : q.Sound qs dir j w)
      (smooth : smoothSteps q.options n j w) :
      q.Sound qs dir (j.steps q.options n w).1 (j.steps q.options n w).2 := by
    induction n generalizing j w with
    | zero => exact h
    | succ n ih =>
      obtain ⟨first, rest⟩ := smoothSteps_succ smooth
      exact ih _ _ (h.step mem hdir first) rest
  have last := steps maxSteps _ _ start smooth
  exact ⟨last.calm.finishSpan, last.stores⟩

theorem runAll_sound (calm : w.Calm) (stores : Stores dir (Kept qs) w.files)
    (mem : ∀ x ∈ before, x ∈ qs) (hdir : ∀ x ∈ before, x.options.cacheDir = some dir)
    (smooth : smoothAll before w) :
    (runAll before w).Calm ∧ Stores dir (Kept qs) (runAll before w).files := by
  induction before generalizing w with
  | nil => exact ⟨calm, stores⟩
  | cons q rest ih =>
    rw [forall_mem_cons] at mem hdir
    obtain ⟨first, others⟩ := Bool.and_eq_true_iff.mp smooth
    obtain ⟨calm', stores'⟩ := run_sound calm stores mem.1 hdir.1 first
    exact ih calm' stores' mem.2 hdir.2 others

/-! ## Walks of a call -/

def beforeWalk (q : Request) (p : Program) : Job :=
  { (ofDraft q.options q.draft q.parent).checked q.draft with next := .walk q.draft p }

def behindWalk (q : Request) (p : Program) (w : World) : Job :=
  .behind q.options (q.beforeWalk p) q.draft
    (walkEnd q.options (q.beforeWalk p) q.draft p w)

def textOf (q : Request) (p : Program) : List UInt8 :=
  (outcome q.options q.draft p).generator.text.toUTF8.toList

variable {p : Program}

/-! ## Serving calls from the cache -/

/-- Units that were read from one source differ at most in their path. -/
def SameUnit (x q : Request) : Prop :=
  x.draft.source = q.draft.source → x.draft = { q.draft with path := x.draft.path }

/-- What is assumed of calls that share a cache: no two texts of keys have one hash, entries are
decoded as they were encoded, units are what their source says, and a bar is only between the
options of a key. -/
structure Fair (qs : List Request) : Prop where
  hashes : ∀ x ∈ qs, ∀ y ∈ qs, x.key = y.key → x.keyBytes = y.keyBytes
  decodes : ∀ x ∈ qs, ∀ p, x.Leaves p →
    Payload.unpack? (payloadOf x.options x.draft p).pack = some (payloadOf x.options x.draft p)
  units : ∀ x ∈ qs, ∀ y ∈ qs, x.SameUnit y
  stems : ∀ x ∈ qs, BarFree x.options.assembly.labelStem

theorem Fair.mono (fair : Fair qs) (sub : ∀ x ∈ before, x ∈ qs) : Fair before where
  hashes x hx y hy := fair.hashes x (sub x hx) y (sub y hy)
  decodes x hx := fair.decodes x (sub x hx)
  units x hx y hy := fair.units x (sub x hx) y (sub y hy)
  stems x hx := fair.stems x (sub x hx)

theorem Fair.kept {payload : Payload} (fair : Fair qs) (mem : q ∈ qs)
    (stores : Stores dir (Kept qs) w.files)
    (found : get w.files dir q.key = .ok (true, payload)) (hr : q.draft.check.result = some p) :
    ∃ x ∈ qs, x.keyBytes = q.keyBytes ∧ x.options.assembly = q.options.assembly ∧
      x.draft = { q.draft with path := x.draft.path } ∧
      (outcome x.options x.draft p).reporter.contents.hasErrors = false ∧
      payload = payloadOf x.options x.draft p := by
  obtain ⟨bytes, ⟨x, hx, hkey, p', leaves, rfl⟩, decoded⟩ := stores.get found
  have same := fair.hashes x hx q mem hkey
  obtain ⟨source, assembly⟩ := keyBytes_injective same (fair.stems x hx) (fair.stems q mem)
  have unit := fair.units x hx q mem (by
    rw [toList_eq_data, toList_eq_data] at source
    exact ByteArray.ext (Array.toList_inj.mp source))
  have result : x.draft.check.result = some p := by
    rw [unit]
    exact hr
  cases Option.some.inj (leaves.1.symm.trans result)
  rw [toList_eq_data] at decoded
  have back := fair.decodes x hx p leaves
  exact ⟨x, hx, same, assembly, unit, leaves.2, Option.some.inj (decoded.symm.trans back)⟩

/-- A call for a unit with two keys that mean nothing. -/
def noted (path : String) (limit : Int) : Request where
  draft := { program := "P", path := path, unknown := ["x", "y"] }
  options := { maxDiagnostics := limit, cacheDir := some "c" }

theorem check_noted (path : String) (limit : Int) {p : Program}
    (h : (noted path limit).draft.check.result = some p) :
    p = ⟨"P", [], [], [], {}⟩ := by
  cases h
  rfl

theorem fair_of_noted {qs : List Request}
    (h : ∀ x ∈ qs, ∃ path ∈ ["p.toml", "q.toml"], ∃ limit ∈ [(1 : Int), 2, 3],
      x = noted path limit) :
    Fair qs := by
  refine ⟨fun x hx y hy _ => ?_, fun x hx p leaves => ?_, fun x hx y hy _ => ?_, fun x hx => ?_⟩
  · obtain ⟨_, -, _, -, rfl⟩ := h x hx
    obtain ⟨_, -, _, -, rfl⟩ := h y hy
    rfl
  · have all : ∀ path ∈ ["p.toml", "q.toml"], ∀ limit ∈ [(1 : Int), 2, 3],
        let payload := payloadOf (noted path limit).options (noted path limit).draft
          ⟨"P", [], [], [], {}⟩
        Payload.unpack? payload.pack = some payload := by decide +kernel
    obtain ⟨path, hpath, limit, hlimit, rfl⟩ := h x hx
    rw [check_noted _ _ leaves.1]
    exact all path hpath limit hlimit
  · obtain ⟨_, -, _, -, rfl⟩ := h x hx
    obtain ⟨_, -, _, -, rfl⟩ := h y hy
    rfl
  · obtain ⟨_, -, _, -, rfl⟩ := h x hx
    show '|' ∉ ({} : Options).assembly.labelStem.toList
    decide

theorem stores_empty (dir : String) : Stores dir (fun _ _ => False) ({} : World).files := by
  intro key bytes found
  cases way : ({} : World).files.way (entryPath dir key) <;>
    rw [way] at found <;> cases found

end Request

end Jasm.Compile

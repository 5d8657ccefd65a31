import Jasm.Proofs.Compile.Tracks

/-!
# Units compiled side by side

Jobs take their steps in any order. Every step of a job keeps it on its way, and so does every step
of another one, so units that are compiled side by side come to what they come to by themselves, but
for output files that several of them have.
-/

namespace Jasm

open List

namespace Compile

open Job Request
open Cache (Stores entryName)

/-! ## Worlds in which units are compiled -/

def requests (o : Options) (fs : Files) (ts : List Task) : List Request :=
  ts.filterMap fun t => (t.draft? fs).map (Request.mk · o 0)

variable {o : Options} {fs : Files} {ts : List Task} {t : Task} {d : Draft} {p : Program}
  {s : List Job × World} {target : String} {text : List UInt8}
variable {j j' : Job} {w w' : World}

theorem mem_requests (mem : t ∈ ts) (unit : t.draft? fs = some d) :
    Request.mk d o 0 ∈ requests o fs ts :=
  mem_filterMap.mpr ⟨t, mem, by rw [unit]; rfl⟩

theorem options_of_mem_requests {x : Request} (h : x ∈ requests o fs ts) : x.options = o := by
  obtain ⟨t, -, h⟩ := mem_filterMap.mp h
  obtain ⟨d, -, rfl⟩ := Option.map_eq_some_iff.mp h
  rfl

/-- What is assumed of units that are compiled side by side: what they leave in the cache, which is
empty at first, is theirs; their files can be read, and none of them is an entry of the cache or the
output file of another unit; no path stands for two units, and no output file has two names. -/
structure Orderly (o : Options) (fs : Files) (ts : List Task) : Prop extends Distinct o fs ts where
  empty : ∀ dir, o.cacheDir = some dir → Stores dir (fun _ _ => False) fs
  fair : o.cacheDir.isSome → Fair (requests o fs ts)
  inputs : ∀ (i k : Nat) path t a, ts[i]? = some (.file path) → ts[k]? = some t →
    t.output? o fs = some a → fs.way path = fs.way a.1 → i = k

def Claimed (o : Options) (fs : Files) (ts : List Task) (target owner : String) : Prop :=
  ∃ s ∈ ts, s.path = owner ∧ ∃ text, s.output? o fs = some (target, text)

theorem Orderly.setting (h : Orderly o fs ts) :
    Setting o fs ts (requests o fs ts) (Claimed o fs ts) where
  fair := h.fair
  asks _ mem _ unit := ⟨0, mem_requests mem unit, fun _ hx _ =>
    Int.le_of_eq (congrArg Options.limit (options_of_mem_requests hx)).symm⟩
  claims t mem _ text output := ⟨t, mem, rfl, text, output⟩
  toDistinct := h.toDistinct

theorem Orderly.steady (h : Orderly o w.files ts) (us : List Task) (calm : w'.Calm)
    (nothing : ∀ target, w'.owner? target = none) (files : w'.files = w.files)
    (single : w'.claims = none → ∀ s ∈ us, ∀ t ∈ us, s = t) :
    Steady o w.files us (requests o w.files ts) (Claimed o w.files ts) w' where
  calm := calm
  way path := by rw [files]
  stores dir hdir := by rw [files]; exact (h.empty dir hdir).mono fun _ _ h => h.elim
  claimed target owner hw := by
    rw [nothing] at hw
    cases hw
  single := single

/-! ## Runs -/

/-- Jobs take their steps in any order, and no file operation of theirs fails. In between, others
may trace and tell what they like. -/
inductive Interleaves (o : Options) (s : List Job × World) : List Job × World → Prop
  | start : Interleaves o s s
  | step {js : List Job} {w : World} {j : Job} (i : Nat) (before : Interleaves o s (js, w))
      (turn : js[i]? = some j) (smooth : j.smooth o w) :
      Interleaves o s (js.set i (j.step o w).1, (j.step o w).2)
  | aside {js : List Job} {w w' : World} (before : Interleaves o s (js, w)) (calm : w'.Calm)
      (files : w'.files = w.files) (claims : w'.claims = w.claims) : Interleaves o s (js, w')

/-- What holds of units between two steps of a run. -/
structure Consistent (o : Options) (fs : Files) (ts : List Task) (s : List Job × World) : Prop where
  length : s.1.length = ts.length
  watched : s.2.claims ≠ none
  steady : Steady o fs ts (requests o fs ts) (Claimed o fs ts) s.2
  tracks : ∀ (i : Nat) t j, ts[i]? = some t → s.1[i]? = some j → Tracks o fs t s.2 j

/-- A step of one job keeps all jobs on their way. -/
theorem Consistent.step {js : List Job} {i : Nat} (h : Consistent o fs ts (js, w))
    (orderly : Orderly o fs ts) (turn : js[i]? = some j) (smooth : j.smooth o w) :
    Consistent o fs ts (js.set i (j.step o w).1, (j.step o w).2) := by
  obtain ⟨bound, -⟩ := List.getElem?_eq_some_iff.mp turn
  obtain ⟨t, unit⟩ : ∃ t, ts[i]? = some t := by
    have within : i < ts.length := h.length ▸ bound
    exact ⟨_, getElem?_eq_getElem within⟩
  have stepped := (h.tracks i t j unit turn).step orderly.setting h.steady
    (mem_of_getElem? unit) smooth
  refine ⟨by rw [length_set]; exact h.length,
    fun none => h.watched (stepped.grows.watched.mp none), stepped.steady, fun k u j' hu hj' => ?_⟩
  by_cases same : i = k
  · subst same
    cases unit.symm.trans hu
    rw [getElem?_set_self bound] at hj'
    cases hj'
    exact stepped.tracks
  · rw [getElem?_set_ne same] at hj'
    refine (h.tracks k u j' hu hj').mono stepped.grows ?_ (stepped.texts u (mem_of_getElem? hu))
    rintro path rfl
    exact stepped.reads path (mem_of_getElem? hu) fun a output meet =>
      same (orderly.inputs k i path t a hu unit output meet).symm

/-- So does a run, by induction on its steps. -/
theorem Consistent.interleaves {s' : List Job × World} (h : Consistent o fs ts s)
    (orderly : Orderly o fs ts) (run : Interleaves o s s') : Consistent o fs ts s' := by
  induction run with
  | start => exact h
  | step i before turn smooth ih => exact ih.step orderly turn smooth
  | aside before calm files claims ih =>
    refine ⟨ih.length, by rw [claims]; exact ih.watched, ih.steady.of_eq calm files claims,
      fun i t j ht hj => (ih.tracks i t j ht hj).mono (.of_eq claims) ?_ ?_⟩
    · rw [files]; exact fun _ _ _ => id
    · rw [files]; exact fun _ _ _ _ => id

/-! ## Units compiled alone -/

theorem exists_alone {parent : Nat} (orderly : Orderly o w.files ts) (mem : t ∈ ts) (calm : w.Calm)
    (unwatched : w.claims = none) (smooth : smoothSteps o maxSteps (t.job o parent) w) :
    ∃ a w', ((t.job o parent).run o w).1 = (a.settled, false) ∧
      ((t.job o parent).run o w).2.files = w'.files ∧ w'.claims = none ∧
        Ended o w.files t w' a := by
  have nothing (target : String) : w.owner? target = none := by rw [World.owner?, unwatched]; rfl
  obtain ⟨a, w', result, files, grows, -, ended⟩ := exists_ended _ (orderly.setting.single mem)
    (orderly.steady [t] calm nothing rfl fun _ => by simp) smooth
  exact ⟨a, w', result, files, grows.watched.mpr unwatched, ended⟩

/-- The result of a unit whose output file another unit has. -/
def Result.refused (r : Result) (owner : String) : Result :=
  { r with output := "", findings := (r.findings.add (blocked r.path r.output owner)).1 }

theorem uncached_report_whole {x : Diagnostic} (output : t.output? o fs = some (target, text))
    (error : x.severity.isError) :
    uncached ((t.whole o fs).report x).settled = { uncached (t.whole o fs).settled with
      findings := ((t.whole o fs).settled.findings.add x).1 } := by
  obtain ⟨d, p, unit, program, -, clean⟩ := Task.output?_eq_some output
  obtain ⟨ds, -, found, -⟩ := exists_findings o o p (rfl : d = { d with path := d.path }) rfl
  have reporter : (t.whole o fs).reporter = (outcome o d p).reporter := by
    rw [t.whole_of_some unit program]
    rfl
  have kept : ((t.whole o fs).report x).settled.findings =
      ((t.whole o fs).settled.findings.add x).1 := by
    rw [found] at clean
    rw [findings_settled, findings_settled, report, reporter, found]
    exact Reporter.contents_report_error error clean
  rw [← kept]
  exact settled_report _ x ((t.whole o fs).report x).settled.findings

/-- How a unit ended side by side with others; `alone` is its result when it is compiled by itself,
which leaves the files `files` behind. -/
structure Outcome (t : Task) (alone : Result) (files : Files) (w : World) (r : Result) : Prop where
  path : r.path = t.path
  idle : alone.output = "" → uncached r = uncached alone
  claims : alone.output ≠ "" → ∃ owner, w.owner? alone.output = some owner ∧
    (owner = t.path → uncached r = uncached alone ∧
      ∃ text, w.files.read alone.output = .ok text ∧ files.read alone.output = .ok text) ∧
    (owner ≠ t.path → uncached r = uncached (alone.refused owner))

theorem target_ne_empty (output : t.output? o fs = some (target, text)) : target ≠ "" := by
  obtain ⟨d, -, -, -, rfl, -⟩ := Task.output?_eq_some output
  obtain ⟨front, ⟨before, parts⟩, name⟩ := last_target o d
  intro empty
  rw [empty, show Path.parts "" = [] ++ [""] by decide] at parts
  exact name.1 (append_inj_right' parts rfl |> List.cons.inj |>.1).symm

theorem Ended.alone {a : Job} (h : Ended o fs t w a) (unwatched : w.claims = none) :
    t.output? o fs = none ∧ a.Comes (t.whole o fs) "" ∨
      ∃ target text, t.output? o fs = some (target, text) ∧ a.Comes (t.whole o fs) target ∧
        w.files.read target = .ok ⟨text.toArray⟩ := by
  cases h with
  | idle nothing comes => exact .inl ⟨nothing, comes⟩
  | published output _ written comes => exact .inr ⟨_, _, output, comes, written⟩
  | refused _ taken =>
    rw [World.owner?, unwatched] at taken
    cases taken

theorem Ended.outcome {a : Job} {w₁ : World} (alone : Ended o fs t w₁ a)
    (unwatched : w₁.claims = none) (h : Ended o fs t w j) (watched : w.claims ≠ none) :
    Outcome t a.settled w₁.files w j.settled := by
  rcases alone.alone unwatched with ⟨nothing, comes⟩ | ⟨target, text, output, comes, read⟩
  · cases h with
    | idle _ comes' =>
      exact ⟨comes'.path, fun _ => comes'.settled.trans comes.settled.symm,
        fun some => absurd comes.output some⟩
    | published output | refused output => cases nothing.symm.trans output
  · have made : a.settled.output ≠ "" := comes.output ▸ target_ne_empty output
    cases h with
    | idle nothing => cases nothing.symm.trans output
    | published output' holds written comes' =>
      cases output.symm.trans output'
      refine ⟨comes'.path, fun none => absurd none made, fun _ => ⟨t.path, ?_, fun _ => ⟨?_, ?_⟩,
        fun other => absurd rfl other⟩⟩
      · rw [comes.output]
        exact holds.resolve_left watched
      · exact comes'.settled.trans comes.settled.symm
      · rw [comes.output]
        exact ⟨_, written, read⟩
    | @refused _ owner _ output' taken other comes' =>
      cases output.symm.trans output'
      have told := comes'.settled
      rw [uncached_report_whole output rfl] at told
      refine ⟨?_, fun none => absurd none made, fun _ => ⟨owner, ?_, fun own => absurd own other,
        fun _ => ?_⟩⟩
      · exact (congrArg Result.path told).trans t.path_whole
      · rw [comes.output]
        exact taken
      · have here := congrArg (Result.refused · owner) comes.settled
        refine told.trans (Eq.trans ?_ here.symm)
        simp only [Result.refused, uncached, t.path_whole]

/-- The jobs of units that were compiled side by side ended as by themselves, but for output files
that other units have. -/
structure Independent (o : Options) (parent : Nat) (ts : List Task) (w : World) (js : List Job)
    (w' : World) : Prop where
  length : js.length = ts.length
  /-- Each job is that of the unit at its place. -/
  outcomes : ∀ (i : Nat) t j, ts[i]? = some t → js[i]? = some j →
    Outcome t ((t.job o parent).run o w).1.1 ((t.job o parent).run o w).2.files w' j.settled
  /-- A file is claimed by a unit that publishes it. -/
  owners : ∀ target owner, w'.owner? target = some owner →
    ∃ s ∈ ts, s.path = owner ∧ ((s.job o parent).run o w).1.1.output = target

/-- Units are compiled side by side, in whatever order their jobs take their steps. No file
operation fails, and nothing is cancelled. Then each of them has the result and publishes the text
that it would by itself, but for whether its program came from the cache. Of several units with one
output file one gets it. The others have none, and an error among their findings if there is room
for it. -/
theorem schedule_independent {parent : Nat} {js : List Job} (orderly : Orderly o w.files ts)
    (calm : w.Calm) (unwatched : w.claims = none)
    (alone : ∀ t ∈ ts, Job.smoothSteps o Job.maxSteps (t.job o parent) w)
    (run : Interleaves o (ts.map (·.job o parent), { w with claims := some [] }) (js, w'))
    (finished : ∀ j ∈ js, ∃ cancelled, j.next = .over cancelled) :
    Independent o parent ts w js w' := by
  have start : Consistent o w.files ts (ts.map (·.job o parent), { w with claims := some [] }) := by
    refine ⟨List.length_map _, Option.some_ne_none _, orderly.steady ts ⟨calm.quiet, calm.live⟩
      (fun _ => rfl) rfl (fun h => absurd h (Option.some_ne_none _)), fun i t j ht hj => ?_⟩
    rw [List.getElem?_map, ht] at hj
    cases hj
    exact tracks_job parent t rfl
  have last := start.interleaves orderly run
  refine ⟨last.length, fun i t j ht hj => ?_, fun target owner claimed => ?_⟩
  · have mem := List.mem_of_getElem? ht
    obtain ⟨a, w₁, result, files, unwatched₁, ended⟩ :=
      exists_alone orderly mem calm unwatched (alone t mem)
    obtain ⟨cancelled, next⟩ := finished j (List.mem_of_getElem? hj)
    have ended' := ((last.tracks i t j ht hj).ended (by rw [next]; rfl)).2
    rw [result, files]
    exact ended.outcome unwatched₁ ended' last.watched
  · obtain ⟨s, mem, path, text, output⟩ := last.steady.claimed target owner claimed
    obtain ⟨a, w₁, result, -, unwatched₁, ended⟩ :=
      exists_alone orderly mem calm unwatched (alone s mem)
    refine ⟨s, mem, path, ?_⟩
    rw [result]
    rcases ended.alone unwatched₁ with ⟨nothing, -⟩ | ⟨target', text', output', comes, -⟩
    · cases nothing.symm.trans output
    · cases output.symm.trans output'
      exact comes.output

/-! ## Schedules -/

def advance (o : Options) (s : List Job × World) (i : Nat) : List Job × World :=
  s.1[i]?.elim s fun j => (s.1.set i (j.step o s.2).1, (j.step o s.2).2)

def follow (o : Options) (schedule : List Nat) (s : List Job × World) : List Job × World :=
  schedule.foldl (advance o) s

def smoothFollow (o : Options) : List Nat → List Job × World → Bool
  | [], _ => true
  | i :: rest, s => s.1[i]?.all (·.smooth o s.2) && smoothFollow o rest (advance o s i)

/-- To follow a schedule is a run, if no file operation fails. -/
theorem interleaves_follow {schedule : List Nat} (smooth : smoothFollow o schedule s) :
    Interleaves o s (follow o schedule s) := by
  suffices general : ∀ s', Interleaves o s s' → smoothFollow o schedule s' →
      Interleaves o s (follow o schedule s') from general s .start smooth
  clear smooth
  induction schedule with
  | nil => exact fun s' before _ => before
  | cons i rest ih =>
    rintro ⟨js, w⟩ before smooth
    obtain ⟨first, smooth⟩ := Bool.and_eq_true_iff.mp smooth
    refine ih _ ?_ smooth
    unfold advance
    cases turn : js[i]? with
    | none => exact before
    | some j =>
      rw [turn] at first
      exact before.step i turn first

theorem Next.over_of_rank {n : Next} (h : n.rank = 0) : ∃ cancelled, n = .over cancelled := by
  cases n with
  | «over» cancelled => exact ⟨cancelled, rfl⟩
  | _ => cases h

def twins : List Task := [.read (noted "p.toml" 3).draft, .read (noted "q.toml" 3).draft]

theorem orderly_twins : Orderly (noted "" 3).options {} twins := by
  have way : ∀ s ∈ twins, ∀ a, s.output? (noted "" 3).options {} = some a → a.1 = "P.jasm" := by
    intro s hs a output
    obtain ⟨d, p, unit, -, target, -⟩ := Task.output?_eq_some output
    rcases mem_pair.mp hs with rfl | rfl
    · cases unit
      exact target.trans (by decide +kernel)
    · cases unit
      exact target.trans (by decide +kernel)
  have none {path : String} (h : .file path ∈ twins) : False := by simp [twins] at h
  refine ⟨⟨fun path h => (none h).elim, fun path h => (none h).elim, ?_, ?_⟩,
    fun dir _ => stores_empty dir, fun _ => fair_of_noted ?_,
    fun _ _ _ _ _ h => (none (mem_of_getElem? h)).elim⟩
  · simp [twins, Task.path, noted]
  · exact fun s hs t ht a b ha hb _ => (way s hs a ha).trans (way t ht b hb).symm
  · simp [requests, twins, Task.draft?, noted]

def twinsStart : List Job × World :=
  (twins.map (·.job (noted "" 3).options 0), { ({} : World) with claims := some [] })

/-- The first unit fills the cache, the second one takes its program from there and claims the file
before the first one does. -/
theorem schedule_independent_twins :
    ∃ js w', follow (Request.noted "" 3).options [0, 0, 0, 1, 1, 0, 0, 1, 1] twinsStart = (js, w') ∧
      js.map (fun j => (j.settled.output, j.settled.cached, j.settled.failed)) =
        [("", false, true), ("P.jasm", true, false)] ∧
      Independent (Request.noted "" 3).options 0 twins {} js w' := by
  have alone : ∀ t ∈ twins, Job.smoothSteps (Request.noted "" 3).options Job.maxSteps
      (t.job (Request.noted "" 3).options 0) {} := by decide +kernel
  have run : smoothFollow (Request.noted "" 3).options [0, 0, 0, 1, 1, 0, 0, 1, 1] twinsStart ∧
      let js := (follow (Request.noted "" 3).options [0, 0, 0, 1, 1, 0, 0, 1, 1] twinsStart).1
      js.map (fun j => (j.settled.output, j.settled.cached, j.settled.failed)) =
        [("", false, true), ("P.jasm", true, false)] ∧ ∀ j ∈ js, j.next.rank = 0 := by
    decide +kernel
  obtain ⟨smooth, results⟩ := run
  have interleaves := interleaves_follow smooth
  generalize follow (Request.noted "" 3).options [0, 0, 0, 1, 1, 0, 0, 1, 1] twinsStart = s
    at interleaves results
  obtain ⟨js, w'⟩ := s
  exact ⟨js, w', rfl, results.1, schedule_independent orderly_twins Job.calm_empty rfl alone
    interleaves fun j hj => Next.over_of_rank (results.2 j hj)⟩

/-- One file under two names is published twice: the claims see no conflict. -/
theorem published_under_two_names :
    let ts : List Task := [.read { program := "P", path := "p.toml" },
      .read { program := "P", path := "/w/q.toml" }]
    let w : World := { files := ⟨.dir [("w", .dir [])], "/w"⟩, claims := some [] }
    let s := follow {} (List.replicate 7 0 ++ List.replicate 7 1) (ts.map (·.job {} 0), w)
    s.1.map (fun j => (j.settled.output, j.settled.failed)) =
        [("P.jasm", false), ("/w/P.jasm", false)] ∧
      s.2.files.way "P.jasm" = s.2.files.way "/w/P.jasm" := by
  decide +kernel

/-- A unit whose file is the output file of another unit ends as the order of their steps has it. -/
theorem input_overwritten :
    let ts : List Task := [.read { program := "P", path := "p.toml" }, .file "P.jasm"]
    let unit : FileNode := .file ⟨#[112, 114, 111, 103, 114, 97, 109, 61, 34, 81, 34]⟩
    let s := (ts.map (·.job {} 0), { files := ⟨.dir [("P.jasm", unit)], "/"⟩, claims := some [] })
    let first := List.replicate 7 0
    let second := List.replicate 7 1
    (follow {} (first ++ second) s).1.map (·.settled.failed) = [false, true] ∧
      (follow {} (second ++ first) s).1.map (·.settled.failed) = [false, false] := by
  decide +kernel

/-- A unit whose findings are full is refused without an error. -/
theorem refused_without_error :
    let o : Options := { maxDiagnostics := 1 }
    let ts : List Task := [.read { program := "P", path := "p.toml" },
      .read { program := "P", path := "q.toml", unknown := ["x"] }]
    let s := follow o [0, 0, 0, 0, 0, 0, 0, 1, 1, 1, 1, 1]
      (ts.map (·.job o 0), { claims := some [] })
    smoothFollow o [0, 0, 0, 0, 0, 0, 0, 1, 1, 1, 1, 1]
      (ts.map (·.job o 0), { claims := some [] }) ∧
      s.1.map
        (fun j => (j.settled.output, j.settled.failed, j.settled.findings.items.map (·.code))) =
        [("P.jasm", false, #[]), ("", false, #[.unitMalformed])] := by
  decide +kernel

end Compile

end Jasm

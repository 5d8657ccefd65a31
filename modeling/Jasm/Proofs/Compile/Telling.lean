import Mathlib.Data.List.Nodup
import Jasm.Compile.All
import Jasm.Proofs.Compile.Memory

/-!
# What units tell

Units that are compiled side by side tell of their progress as they go, and what they tell is mixed.
What is told of one unit has a fixed order nevertheless: it is queued, it is read, perhaps its
statements are gone through, perhaps it is published, and then it ends, once and for all.

`Speaks` ties what was told of a unit to what its job does next. Every step of the job keeps this,
and a step of another job tells nothing of the unit. The one thing that keeps a unit from its end is
a crash of the process, for which some unit has to declare an array that no memory can hold.
-/

namespace Jasm.Compile

open List

variable {path : String} {es : List Progress}

/-- What was told of a unit, the first first; `told` has the last first. -/
def eventsOf (path : String) (told : List Progress) : List Progress :=
  (told.filter (·.unit = path)).reverse

theorem eventsOf_append_self (h : ∀ e ∈ es, e.unit = path) (told : List Progress) :
    eventsOf path (es ++ told) = eventsOf path told ++ es.reverse := by
  rw [eventsOf, filter_append, filter_eq_self.mpr (by simpa using h), reverse_append]
  rfl

theorem eventsOf_append_other {other : String} (h : ∀ e ∈ es, e.unit = path) (ne : path ≠ other)
    (told : List Progress) :
    eventsOf other (es ++ told) = eventsOf other told := by
  have none : es.filter (·.unit = other) = [] := by
    rw [filter_eq_nil_iff]
    intro e mem
    simp [h e mem, ne]
  rw [eventsOf, filter_append, none]
  rfl

/-- What is told of a unit before its end. -/
def opening (o : Options) (path : String) (walked published : Bool) : List Progress :=
  [⟨path, .load, .queued, none⟩, working path .load] ++
    (if walked then [working path o.walkStage] else []) ++
    (if published then [working path .publish] else [])

namespace Job

variable {o : Options} {path : String} {j : Job} {w : World} {es new : List Progress}

/-- What was told of a unit, by what its job does next. -/
def Speaks (o : Options) (path : String) (j : Job) (es : List Progress) : Prop :=
  match j.next with
  | .load => es = [⟨path, .load, .queued, none⟩]
  | .check _ | .walk .. => es = opening o path false false
  | .keep .. => es = opening o path true false
  | .claim .. => ∃ walked, es = opening o path walked false
  | .write .. => ∃ walked, es = opening o path walked true
  | .finish _ => ∃ walked published, es = opening o path walked published
  | .over cancelled => cancelled = false ∧ ∃ walked published stage,
    es = opening o path walked published ++ [ending j.settled stage]

/-- The last step leaves the result as it is. -/
theorem settled_step (late : j.next.rank ≤ 1) : (j.step o w).1.settled = j.settled := by
  cases hj : j.next with
  | finish stage =>
    rw [step, hj]
    exact settled_settled j _
  | «over» cancelled => rw [step, hj]
  | _ => simp [hj, Next.rank] at late

theorem Follows.tells {n : Next} (h : Follows o path j w es n) (compiles : Compiles path j) :
    (∀ e ∈ es, e.unit = path) ∧ es.reverse = es := by
  have last (stage : Stage) : (ending j.settled stage).unit = path := by
    have file := path_settled.trans compiles.file
    unfold ending
    split
    · exact file
    · split <;> exact file
  unfold Follows at h
  cases hj : j.next <;> rw [hj] at h <;> rw [h.1] <;> simp [working, last]

theorem speaks_publishing {d : Draft} {text : List UInt8} (next : j.next = publishing o d text)
    {walked : Bool} (h : es = opening o path walked false) : Speaks o path j es := by
  unfold publishing at next
  split at next
  · rw [Speaks, next]
    exact ⟨walked, false, h⟩
  · rw [Speaks, next]
    exact ⟨walked, h⟩

/-- A step tells what comes next in the order. -/
theorem Speaks.step (h : Speaks o path j es) (follows : Follows o path j w new (j.step o w).1.next)
    (live : w.polls = none) : Speaks o path (j.step o w).1 (es ++ new) := by
  unfold Follows at follows
  unfold Speaks at h
  cases hj : j.next with
  | load =>
    rw [hj] at h follows
    obtain ⟨rfl, next | ⟨d, -, next⟩⟩ := follows <;> rw [Speaks, next, h]
    · exact ⟨false, false, rfl⟩
    · rfl
  | check d =>
    rw [hj] at h follows
    obtain ⟨rfl, next | ⟨p, next⟩ | ⟨text, next⟩⟩ := follows
    · rw [Speaks, next, h]
      exact ⟨false, false, rfl⟩
    · rw [Speaks, next, h]
      rfl
    · exact speaks_publishing next ((append_nil es).trans h)
  | walk d p =>
    rw [hj] at h follows
    obtain ⟨rfl, ⟨-, asked⟩ | ⟨stage, next⟩ | ⟨text, next⟩⟩ := follows
    · exact absurd live asked
    · rw [Speaks, next, h]
      exact ⟨true, false, rfl⟩
    · rw [Speaks, next, h]
      rfl
  | keep d text =>
    rw [hj] at h follows
    obtain ⟨rfl, next⟩ := follows
    exact speaks_publishing next ((append_nil es).trans h)
  | claim d text =>
    rw [hj] at h follows
    obtain ⟨walked, rfl⟩ := h
    obtain ⟨rfl, next | ⟨span, next⟩⟩ := follows <;> rw [Speaks, next]
    · exact ⟨walked, true, by simp [opening]⟩
    · exact ⟨walked, by simp [opening]⟩
  | write target text span =>
    rw [hj] at h follows
    obtain ⟨walked, rfl⟩ := h
    obtain ⟨rfl, next⟩ := follows
    rw [Speaks, next, append_nil]
    exact ⟨walked, true, rfl⟩
  | finish stage =>
    rw [hj] at h follows
    obtain ⟨walked, published, rfl⟩ := h
    obtain ⟨rfl, next⟩ := follows
    rw [Speaks, next, settled_step (by simp [hj, Next.rank])]
    exact ⟨rfl, walked, published, stage, rfl⟩
  | «over» cancelled =>
    rw [hj] at h follows
    obtain ⟨rfl, next⟩ := follows
    rw [Speaks, next, settled_step (by simp [hj, Next.rank]), append_nil]
    exact h

/-- A unit that has ended. -/
structure EndsOnce (o : Options) (path : String) (j : Job) (es : List Progress) : Prop where
  next : j.next = .over false
  file : j.settled.path = path
  events : ∃ walked published last, es = opening o path walked published ++ [last] ∧
    last.unit = path ∧ (last.status = .error ↔ j.settled.failed) ∧
    (last.status = .cached ↔ j.settled.cached) ∧
    (last.status = .done ↔ ¬ j.settled.failed ∧ ¬ j.settled.cached)

theorem not_failed_of_cached (compiles : Compiles path j) (cached : j.settled.cached) :
    j.settled.failed = false := by
  unfold settled at cached ⊢
  cases h : j.restored with
  | none =>
    rw [h] at cached
    rw [compiles.cached h] at cached
    cases cached
  | some lines =>
    rw [h] at cached
    simpa [Result.failed] using cached

theorem Speaks.ended (h : Speaks o path j es) (compiles : Compiles path j)
    (rank : j.next.rank = 0) : EndsOnce o path j es := by
  cases hj : j.next with
  | «over» cancelled =>
    rw [Speaks, hj] at h
    obtain ⟨rfl, walked, published, stage, rfl⟩ := h
    have file := path_settled.trans compiles.file
    refine ⟨hj, file, walked, published, _, rfl, ?_⟩
    unfold ending
    cases failed : j.settled.failed with
    | true =>
      have fresh : j.settled.cached = false := by
        rw [← Bool.not_eq_true]
        intro cached
        cases failed.symm.trans (not_failed_of_cached compiles cached)
      simp [file, fresh]
    | false => cases cached : j.settled.cached <;> simp [file]
  | _ => simp [hj, Next.rank] at rank

end Job

/-! ## Runs -/

def queue (paths : List String) (w : World) : World :=
  paths.foldl (fun w p => w.tell ⟨p, .load, .queued, none⟩) w

/-- Jobs take steps in any order; `turns` says which, the last first. In between, anything may
happen that tells nothing, cancels nothing and does not crash. No step follows a crash. -/
inductive Proceeds (o : Options) (s : List Job × World) : List Nat → List Job × World → Prop
  | start : Proceeds o s [] s
  | step {turns : List Nat} {js : List Job} {w : World} {j : Job} (i : Nat)
      (before : Proceeds o s turns (js, w)) (alive : w.crashed = false) (turn : js[i]? = some j) :
      Proceeds o s (i :: turns) (js.set i (j.step o w).1, (j.step o w).2)
  | aside {turns : List Nat} {js : List Job} {w w' : World} (before : Proceeds o s turns (js, w))
      (progress : w'.progress = w.progress) (polls : w'.polls = w.polls)
      (crashed : w'.crashed = w.crashed) : Proceeds o s turns (js, w')

/-- What holds of units between two steps; `told` is what was told since they were begun. -/
structure Telling (o : Options) (paths : List String) (told : List Progress) (turns : List Nat)
    (js : List Job) : Prop where
  length : js.length = paths.length
  each : ∀ (i : Nat) path j, paths[i]? = some path → js[i]? = some j →
    j.Compiles path ∧ j.Speaks o path (eventsOf path told) ∧
      j.next.rank ≤ Job.maxSteps - turns.count i

variable {o : Options} {paths : List String} {told : List Progress} {turns : List Nat}
variable {js : List Job} {j : Job} {w w' : World}

/-- A step of one job keeps the order for all units. -/
theorem Telling.step (h : Telling o paths told turns js) (distinct : paths.Nodup) {i : Nat}
    (turn : js[i]? = some j) (live : w.polls = none) :
    (j.step o w).2.polls = none ∧ ∃ es, (j.step o w).2.progress = es ++ w.progress ∧
      Telling o paths (es ++ told) (i :: turns) (js.set i (j.step o w).1) := by
  obtain ⟨bound, -⟩ := List.getElem?_eq_some_iff.mp turn
  have within : i < paths.length := h.length ▸ bound
  have here : paths[i]? = some paths[i] := getElem?_eq_getElem within
  obtain ⟨compiles, speaks, rank⟩ := h.each i _ j here turn
  obtain ⟨ds, es, goes⟩ := compiles.step o w
  obtain ⟨compiles', less⟩ := goes.next compiles
  obtain ⟨unit, brief⟩ := goes.follows.tells compiles
  refine ⟨goes.lives live, es, goes.tells, by rw [length_set]; exact h.length,
    fun k path j' hp hj' => ?_⟩
  by_cases same : i = k
  · subst same
    cases here.symm.trans hp
    rw [getElem?_set_self bound] at hj'
    cases hj'
    refine ⟨compiles', ?_, ?_⟩
    · rw [eventsOf_append_self unit, brief]
      exact speaks.step goes.follows live
    · rw [count_cons_self]
      omega
  · rw [getElem?_set_ne same] at hj'
    obtain ⟨compiles, speaks, rank⟩ := h.each k path j' hp hj'
    refine ⟨compiles, ?_, ?_⟩
    · rw [eventsOf_append_other unit]
      · exact speaks
      · intro twice
        exact same ((getElem?_inj within distinct).mp (by rw [here, hp, twice]))
    · rw [count_cons_of_ne same]
      exact rank

theorem progress_queue (paths : List String) (w : World) :
    queue paths w = { w with
      progress := (paths.map fun p => ⟨p, .load, .queued, none⟩).reverse ++ w.progress } := by
  induction paths generalizing w with
  | nil => rfl
  | cons path rest ih =>
    rw [queue, foldl_cons]
    refine (ih _).trans ?_
    simp [World.tell]

theorem eventsOf_queue (distinct : paths.Nodup) (mem : path ∈ paths) :
    eventsOf path (paths.map fun p => ⟨p, .load, .queued, none⟩).reverse =
      [⟨path, .load, .queued, none⟩] := by
  rw [eventsOf, filter_reverse, reverse_reverse, filter_map]
  simp only [Function.comp_def]
  rw [filter_eq, count_eq_one_of_mem distinct mem]
  rfl

theorem telling_queue (o : Options) (distinct : paths.Nodup) {span : Nat} :
    Telling o paths (paths.map fun p => ⟨p, .load, .queued, none⟩).reverse []
      (paths.map (Job.ofFile o · span)) := by
  refine ⟨length_map _, fun i path j hp hj => ?_⟩
  rw [getElem?_map, hp] at hj
  cases hj
  exact ⟨⟨rfl, by simp [Job.ofFile, Next.draft?], fun _ => rfl⟩,
    eventsOf_queue distinct (mem_of_getElem? hp), Nat.le_refl 7⟩

/-- The run lemma: the order holds of all units behind any steps. -/
theorem Proceeds.telling {s : List Job × World} {span : Nat} (distinct : paths.Nodup)
    (live : w.polls = none)
    (run : Proceeds o (paths.map (Job.ofFile o · span), queue paths w) turns s) :
    s.2.polls = none ∧ ∃ told, s.2.progress = told ++ w.progress ∧
      Telling o paths told turns s.1 := by
  induction run with
  | start =>
    rw [progress_queue]
    exact ⟨live, _, rfl, telling_queue o distinct⟩
  | step i before alive turn ih =>
    obtain ⟨polls, told, progress, telling⟩ := ih
    obtain ⟨polls', es, more, telling'⟩ := telling.step distinct turn polls
    exact ⟨polls', es ++ told, by rw [more, progress, append_assoc], telling'⟩
  | aside before progress polls crashed ih =>
    obtain ⟨live, told, earlier, telling⟩ := ih
    exact ⟨polls.trans live, told, progress.trans earlier, telling⟩

/-- A run that crashed came to a job that lays out an array for which there is no memory. -/
theorem Proceeds.exhausts {s s' : List Job × World} (alive : s.2.crashed = false)
    (run : Proceeds o s turns s') (crashed : s'.2.crashed = true) :
    ∃ turns₀ js₀ w₀ j, Proceeds o s turns₀ (js₀, w₀) ∧ j ∈ js₀ ∧ j.Exhausts := by
  induction run with
  | start =>
    rw [alive] at crashed
    cases crashed
  | step i before alive turn ih =>
    exact ⟨_, _, _, _, before, mem_of_getElem? turn, Job.exhausts_of_crashed alive crashed⟩
  | aside before progress polls same ih => exact ih (same.symm.trans crashed)

/-- Units at different paths are compiled side by side and nothing is cancelled. However their steps
are mixed, once each of them has had its turns it has ended. What was told of it since is in order,
and the last of it says how it ended. Each of them gets its turns unless the process crashes, and it
only does so over an array of a unit for which no memory can be there. -/
theorem units_end_once {span : Nat} (distinct : paths.Nodup) (live : w.polls = none)
    (alive : w.crashed = false)
    (run : Proceeds o (paths.map (Job.ofFile o · span), queue paths w) turns (js, w')) :
    (w'.crashed = true → ∃ turns₀ js₀ w₀ j,
      Proceeds o (paths.map (Job.ofFile o · span), queue paths w) turns₀ (js₀, w₀) ∧
        j ∈ js₀ ∧ j.Exhausts) ∧
    ((∀ i < paths.length, Job.maxSteps ≤ turns.count i) →
      js.length = paths.length ∧ ∃ told, w'.progress = told ++ w.progress ∧
        ∀ (i : Nat) path j, paths[i]? = some path → js[i]? = some j →
          j.EndsOnce o path (eventsOf path told)) := by
  refine ⟨run.exhausts (by rw [progress_queue]; exact alive), fun enough => ?_⟩
  obtain ⟨-, told, progress, telling⟩ := run.telling distinct live
  refine ⟨telling.length, told, progress, fun i path j hp hj => ?_⟩
  obtain ⟨compiles, speaks, rank⟩ := telling.each i path j hp hj
  obtain ⟨bound, -⟩ := List.getElem?_eq_some_iff.mp hp
  have turns := enough i bound
  exact speaks.ended compiles (by omega)

/-- The array crashes the process: what was told of the unit last is that it is gone through. -/
theorem units_cut_off_boundless :
    ∃ p, Job.boundless.check.result = some p ∧
      let j : Job := { Job.ofDraft {} Job.boundless 0 with next := .walk Job.boundless p }
      (j.step {} {}).2.crashed = true ∧ (j.step {} {}).2.progress = [working "p.toml" .emit] :=
  ⟨Job.boundless.check.result.get rfl, rfl, by decide +kernel, by decide +kernel⟩

/-- Jobs take the steps that `turns` says, as long as nothing has crashed. -/
def proceed (o : Options) (s : List Job × World) : List Nat → Option (List Job × World)
  | [] => some s
  | i :: turns =>
    match proceed o s turns with
    | none => none
    | some (js, w) =>
      if w.crashed then none
      else js[i]?.map fun j => (js.set i (j.step o w).1, (j.step o w).2)

theorem proceeds_of_proceed {s s' : List Job × World} (h : proceed o s turns = some s') :
    Proceeds o s turns s' := by
  induction turns generalizing s' with
  | nil =>
    cases h
    exact .start
  | cons i turns ih =>
    rw [proceed] at h
    split at h
    · cases h
    · next js w before =>
      split at h
      · cases h
      · next alive =>
        obtain ⟨j, turn, rfl⟩ := Option.map_eq_some_iff.mp h
        exact .step i (ih before) (eq_false_of_ne_true alive) turn

/-- Four units with the text `program="P"`. In one directory a program cannot be written. -/
def fourUnits : World :=
  let unit : FileNode := .file ⟨#[112, 114, 111, 103, 114, 97, 109, 61, 34, 80, 34]⟩
  { files := ⟨.dir [("a", .dir [("p.toml", unit), ("q.toml", unit)]),
      ("b", .dir [("p.toml", unit)]), ("c", .dir [("P.jasm", .dir []), ("p.toml", unit)])], "/"⟩
    claims := some [] }

/-- The first unit is compiled, the second one comes from the cache, the third one finds its output
file claimed, and the fourth one cannot be written. -/
theorem units_end_once_four :
    let o : Options := { cacheDir := some "k" }
    let paths := ["a/p.toml", "b/p.toml", "a/q.toml", "c/p.toml"]
    let turns :=
      [3, 3, 3, 3, 3, 2, 2, 2, 2, 2, 2, 3, 1, 1, 1, 2, 3, 1, 1, 1, 0, 0, 0, 1, 0, 0, 0, 0]
    ∃ js w', Proceeds o (paths.map (Job.ofFile o · 0), queue paths fourUnits) turns (js, w') ∧
      js.map (fun j => (j.settled.failed, j.settled.cached)) =
        [(false, false), (false, true), (true, false), (true, false)] ∧
      js.length = paths.length ∧ ∃ told, w'.progress = told ++ [] ∧
        ∀ (i : Nat) path j, paths[i]? = some path → js[i]? = some j →
          j.EndsOnce o path (eventsOf path told) := by
  intro o paths turns
  have goes : (proceed o (paths.map (Job.ofFile o · 0), queue paths fourUnits) turns).map
      (fun s => s.1.map fun j => (j.settled.failed, j.settled.cached)) =
        some [(false, false), (false, true), (true, false), (true, false)] := by decide +kernel
  obtain ⟨⟨js, w'⟩, went, ends⟩ := Option.map_eq_some_iff.mp goes
  have run := proceeds_of_proceed went
  exact ⟨js, w', run, ends, (units_end_once (by decide) rfl rfl run).2 (by decide)⟩

end Jasm.Compile

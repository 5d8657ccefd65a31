import Jasm.Proofs.Compile.Tracks

/-!
# Calls that share a cache

A call that takes its program from the cache comes to the same as without a cache: either way its
job is on the way of its unit. Which of two findings are kept is no part of a key, so this holds
only if no call before it kept fewer.
-/

namespace Jasm.Compile.Request

open Job Cache List

variable {q : Request} {qs before : List Request} {dir : String} {w w' : World} {j j' : Job}

/-- Behind two calls the same program is in the same file, if there is any. -/
def SameText (served alone : (Result × Bool) × World) : Prop :=
  alone.1.1.output ≠ "" → ∃ text, served.2.files.read alone.1.1.output = .ok text ∧
    alone.2.files.read alone.1.1.output = .ok text

/-- Two calls agree: results differ at most in whether the program came from the cache, and the same
text is published. -/
structure Agree (served alone : (Result × Bool) × World) : Prop where
  result : uncached served.1.1 = uncached alone.1.1
  cancelled : served.1.2 = alone.1.2
  text : SameText served alone

/-- A call ends as its unit does, and claims nothing but for its unit. -/
theorem exists_final (fair : q.options.cacheDir.isSome → Fair qs) (mem : q ∈ qs)
    (limits : ∀ x ∈ qs, x.keyBytes = q.keyBytes → q.options.limit ≤ x.options.limit) (calm : w.Calm)
    (stores : ∀ dir, q.options.cacheDir = some dir → Stores dir (Kept qs) w.files)
    (smooth : q.smooth w) :
    ∃ a w', (q.run w).1 = (a.settled, false) ∧ (q.run w).2.files = w'.files ∧
      Ended q.options w.files (.read q.draft) w' a ∧ ∀ target owner, owner ≠ q.draft.path →
        (w'.owner? target = some owner ↔ w.owner? target = some owner) := by
  let C (target owner : String) : Prop := w.owner? target = some owner ∨ owner = q.draft.path
  have setting : Setting q.options w.files [.read q.draft] qs C := by
    refine ⟨⟨by simp, by simp, by simp, fun s hs t ht a b ha hb _ => ?_⟩, fair,
      fun t ht d unit => ⟨q.parent, ?_⟩, fun t ht _ _ _ => ?_⟩
    · cases mem_singleton.mp hs
      cases mem_singleton.mp ht
      cases ha.symm.trans hb
      rfl
    · cases mem_singleton.mp ht
      cases unit
      exact ⟨mem, limits⟩
    · cases mem_singleton.mp ht
      exact .inr rfl
  have steady : Steady q.options w.files [.read q.draft] qs C w :=
    ⟨calm, fun _ => rfl, stores, fun _ _ => .inl, fun _ => by simp⟩
  obtain ⟨a, w', result, files, grows, last, ended⟩ :=
    exists_ended q.parent setting steady smooth
  refine ⟨a, w', result, files, ended, fun target owner other => ⟨fun taken => ?_, grows.keeps _ _⟩⟩
  exact (last.claimed target owner taken).resolve_right other

theorem agree_of_ended {o o' : Options} {fs : Files} {t : Task} (h : Ended o fs t w j)
    (h' : Ended o' fs t w' j') (whole : t.whole o' fs = t.whole o fs)
    (output : t.output? o' fs = t.output? o fs)
    (taken : ∀ target owner, owner ≠ t.path →
      (w.owner? target = some owner ↔ w'.owner? target = some owner)) :
    uncached j.settled = uncached j'.settled ∧ (j'.settled.output ≠ "" → ∃ text,
      w.files.read j'.settled.output = .ok text ∧ w'.files.read j'.settled.output = .ok text) := by
  have free {w : World} {target owner : String} (holds : w.Holds target t.path)
      (other : owner ≠ t.path) : w.owner? target ≠ some owner := by
    intro taken
    rcases holds with none | own
    · rw [World.owner?, none] at taken
      cases taken
    · exact other (Option.some.inj (taken.symm.trans own))
  cases h' with
  | idle nothing' comes' =>
    rw [output] at nothing'
    rw [whole] at comes'
    refine ⟨?_, fun some => absurd comes'.output some⟩
    cases h with
    | idle nothing comes => exact comes.settled.trans comes'.settled.symm
    | published output | refused output => cases nothing'.symm.trans output
  | published output' holds' written' comes' =>
    rw [output] at output'
    rw [whole] at comes'
    cases h with
    | idle nothing => cases nothing.symm.trans output'
    | published output holds written comes =>
      cases output.symm.trans output'
      refine ⟨comes.settled.trans comes'.settled.symm, fun _ => ?_⟩
      rw [comes'.output]
      exact ⟨_, written, written'⟩
    | refused output own other =>
      cases output.symm.trans output'
      exact absurd ((taken _ _ other).mp own) (free holds' other)
  | refused output' own' other' comes' =>
    rw [output] at output'
    rw [whole] at comes'
    refine ⟨?_, fun some => absurd comes'.output some⟩
    cases h with
    | idle nothing => cases nothing.symm.trans output'
    | published output holds =>
      cases output.symm.trans output'
      exact absurd ((taken _ _ other').mpr own') (free holds other')
    | refused output own other comes =>
      cases output.symm.trans output'
      cases ((taken _ _ other).mp own).symm.trans own'
      exact comes.settled.trans comes'.settled.symm

theorem agree_plain (fair : Fair qs) (mem : q ∈ qs) (sub : ∀ x ∈ before, x ∈ qs)
    (hdir : q.options.cacheDir = some dir) (calm : w.Calm)
    (stores : Stores dir (Kept before) w.files) (smooth : q.smooth w) (smooth' : q.plain.smooth w)
    (limits : ∀ x ∈ before, x.keyBytes = q.keyBytes → q.options.limit ≤ x.options.limit) :
    Agree (q.run w) (q.plain.run w) := by
  have filled : ∀ dir', q.options.cacheDir = some dir' →
      Stores dir' (Kept (q :: before)) w.files := by
    intro dir' h
    cases hdir.symm.trans h
    exact stores.mono fun _ _ kept => kept.imp fun _ => And.imp_left (mem_cons_of_mem q)
  obtain ⟨a, w₁, result, files, ended, owners⟩ := exists_final
    (fun _ => fair.mono (forall_mem_cons.mpr ⟨mem, sub⟩)) mem_cons_self
    (forall_mem_cons.mpr ⟨fun _ => Int.le_refl _, limits⟩) calm filled smooth
  obtain ⟨a', w₂, result', files', ended', owners'⟩ := exists_final (q := q.plain)
    (fun cached => absurd cached Bool.false_ne_true) (mem_singleton_self _) (by simp) calm
    (fun _ h => absurd h.symm (Option.some_ne_none _)) smooth'
  obtain ⟨same, text⟩ := agree_of_ended ended ended' rfl rfl fun target owner other =>
    (owners target owner other).trans (owners' target owner other).symm
  refine ⟨by rw [result, result', same], by rw [result, result'], ?_⟩
  rw [SameText, result', files, files']
  exact text

/-- Calls share a cache that is empty at first, and no file operation fails. Then each of them has
the same result as without the cache and publishes the same text, unless an earlier call for the
same unit with the same options kept fewer findings. -/
theorem cache_transparent {before after : List Request} (fair : Fair (before ++ q :: after))
    (hdir : ∀ x ∈ before ++ q :: after, x.options.cacheDir = some dir) (calm : w.Calm)
    (empty : Stores dir (fun _ _ => False) w.files) (smooth : smoothAll (before ++ q :: after) w)
    (smooth' : q.plain.smooth (runAll before w))
    (limits : ∀ x ∈ before, x.keyBytes = q.keyBytes → q.options.limit ≤ x.options.limit) :
    Agree (q.run (runAll before w)) (q.plain.run (runAll before w)) := by
  have sub : ∀ x ∈ before, x ∈ before ++ q :: after := fun x hx => List.mem_append_left _ hx
  have mem : q ∈ before ++ q :: after := by simp
  obtain ⟨earlier, later⟩ := smoothAll_append smooth
  obtain ⟨calm', stores⟩ := runAll_sound calm (empty.mono fun _ _ h => h.elim)
    (fun x hx => hx) (fun x hx => hdir x (sub x hx)) earlier
  exact agree_plain fair mem sub (hdir q mem) calm' stores (Bool.and_eq_true_iff.mp later).1 smooth'
    limits

theorem fair_noted : Fair ([noted "p.toml" 2] ++ noted "q.toml" 1 :: []) :=
  fair_of_noted (by simp)

/-- The second call takes its program from the cache, and keeps one of two findings. -/
theorem cache_transparent_noted :
    ((noted "q.toml" 1).run (runAll [noted "p.toml" 2] {})).1.1.cached = true ∧
      Agree ((noted "q.toml" 1).run (runAll [noted "p.toml" 2] {}))
        ((noted "q.toml" 1).plain.run (runAll [noted "p.toml" 2] {})) := by
  have run : ((noted "q.toml" 1).run (runAll [noted "p.toml" 2] {})).1.1.cached = true ∧
      smoothAll ([noted "p.toml" 2] ++ noted "q.toml" 1 :: []) {} ∧
      (noted "q.toml" 1).plain.smooth (runAll [noted "p.toml" 2] {}) := by decide +kernel
  refine ⟨run.1, cache_transparent fair_noted ?_ Job.calm_empty (stores_empty "c")
    run.2.1 run.2.2 ?_⟩
  · simp [noted]
  · simp [noted, Options.limit]

/-- A call that keeps one finding, the warning, leaves half a program in the cache, and a call that
would keep the error as well is served with it. -/
theorem cache_serves_lost_error :
    let first : Request := ⟨Job.misspelt, { maxDiagnostics := 1, cacheDir := some "c" }, 0⟩
    let second : Request := ⟨Job.misspelt, { cacheDir := some "c" }, 0⟩
    smoothAll [first, second] {} ∧ second.plain.smooth (runAll [first] {}) ∧
      (second.run (runAll [first] {})).1.1.failed = false ∧
      (second.run (runAll [first] {})).1.1.output = "P.jasm" ∧
      (second.plain.run (runAll [first] {})).1.1.failed = true ∧
      (second.plain.run (runAll [first] {})).1.1.output = "" := by
  decide +kernel

end Jasm.Compile.Request

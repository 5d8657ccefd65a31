import Jasm.Compile.Walk
import Jasm.Proofs.Assembly.Writing
import Jasm.Proofs.Diagnostic.Reporting

/-!
# What every step of a walk keeps

Whatever a step of the walk does, four things hold of it. It only adds findings, and neither these
nor what it does depends on who receives them. An error is among the findings exactly if the walk
counts as failed from then on. Once failed, it leaves the assembly program as it is. Once cancelled,
it stays cancelled.

`Acts` states this of one run of a step, `Honest` of all of its runs. Both are closed under
sequencing, so each step of the walk needs only a look at its own parts.
-/

namespace Jasm.Compile

/-- The state in which a walk begins: nothing is declared or written, and nothing is wrong. -/
structure State.Fresh (c : State) (className : String) (o : Assembly.Options) : Prop where
  stack : c.stack = {}
  bases : c.bases = [0]
  assigned : c.assigned = []
  function : c.function = none
  generator : c.generator = .new className o
  failed : c.failed = false

/-- The same state with another receiver of findings. -/
def State.withReporter (c : State) (r : Reporter) : State := { c with reporter := r }

variable {α β : Type}

/-- Whoever receives the findings, the step `m` leads from `c` to `c'`, gives `a` and reports
`ds`. -/
structure Finds (m : Walk α) (c : State) (ds : List Diagnostic) (a : α) (c' : State) : Prop where
  run : ∀ r, m.run (c.withReporter r) = (a, c'.withReporter (r.reportAll ds))
  failed : c'.failed = (c.failed || ds.any (·.severity.isError))

/-- Besides, it writes nothing once the walk has failed and does not revive a cancelled walk. -/
structure Acts (m : Walk α) (c : State) (ds : List Diagnostic) (a : α) (c' : State) : Prop
    extends Finds m c ds a c' where
  frozen : c.failed → c'.generator = c.generator
  polls : c.polls = some 0 → c'.polls = some 0

section

variable {m m' : Walk α} {k : α → Walk β} {c c₁ c₂ : State} {ds ds₁ ds₂ : List Diagnostic}
  {a : α} {b : β}

theorem Finds.bind (first : Finds m c ds₁ a c₁) (second : Finds (k a) c₁ ds₂ b c₂) :
    Finds (m >>= k) c (ds₁ ++ ds₂) b c₂ where
  run r := by
    rw [StateT.run_bind, first.run r, Reporter.reportAll_append]
    exact second.run _
  failed := by rw [second.failed, first.failed, List.any_append, Bool.or_assoc]

theorem Finds.run_eq (h : Finds m c ds a c₁) :
    m.run c = (a, c₁.withReporter (c.reporter.reportAll ds)) := h.run c.reporter

theorem Finds.ok (h : Finds m c ds a c₁) (start : c.failed = false)
    (sound : ∀ d ∈ ds, d.severity.isError = false) : c₁.failed = false := by
  rw [h.failed, start, Bool.false_or, List.any_eq_false]
  intro d hd
  simp [sound d hd]

namespace Acts

theorem silent (run : ∀ r, m.run (c.withReporter r) = (a, c₁.withReporter r))
    (failed : c₁.failed = c.failed) (generator : c₁.generator = c.generator)
    (polls : c₁.polls = c.polls) : Acts m c [] a c₁ :=
  ⟨⟨run, by simp [failed]⟩, fun _ => generator, fun h => polls.trans h⟩

theorem bind (first : Acts m c ds₁ a c₁) (second : Acts (k a) c₁ ds₂ b c₂) :
    Acts (m >>= k) c (ds₁ ++ ds₂) b c₂ where
  toFinds := first.toFinds.bind second.toFinds
  frozen h := (second.frozen (by rw [first.failed, h]; rfl)).trans (first.frozen h)
  polls h := second.polls (first.polls h)

theorem congr (h : Acts m c ds a c₁)
    (same : ∀ r, m'.run (c.withReporter r) = m.run (c.withReporter r)) : Acts m' c ds a c₁ :=
  ⟨⟨fun r => (same r).trans (h.run r), h.failed⟩, h.frozen, h.polls⟩

end Acts

end

/-- Every run of a step reports what it finds, and does the same whoever receives it. -/
def Honest (m : Walk α) : Prop := ∀ c, ∃ ds a c', Acts m c ds a c'

namespace Honest

theorem pure {a : α} : Honest (pure a : Walk α) := fun c =>
  ⟨[], a, c, .silent (fun _ => rfl) rfl rfl rfl⟩

theorem bind {m : Walk α} {k : α → Walk β} (first : Honest m) (second : ∀ a, Honest (k a)) :
    Honest (m >>= k) := by
  intro c
  obtain ⟨ds₁, a, c₁, acts₁⟩ := first c
  obtain ⟨ds₂, b, c₂, acts₂⟩ := second a c₁
  exact ⟨ds₁ ++ ds₂, b, c₂, acts₁.bind acts₂⟩

theorem modify {f : State → State} (blind : ∀ c r, f (c.withReporter r) = (f c).withReporter r)
    (failed : ∀ c, (f c).failed = c.failed) (generator : ∀ c, (f c).generator = c.generator)
    (polls : ∀ c, (f c).polls = c.polls) : Honest (modify f : Walk PUnit) := fun c =>
  ⟨[], ⟨⟩, f c, .silent (fun r => Prod.ext rfl (blind c r)) (failed c) (generator c) (polls c)⟩

theorem get_bind {k : State → Walk β} (blind : ∀ c r, k (c.withReporter r) = k c)
    (h : ∀ c, Honest (k c)) : Honest ((MonadState.get : Walk State) >>= k) := by
  intro c
  obtain ⟨ds, b, c', acts⟩ := h c c
  refine ⟨ds, b, c', acts.congr fun r => ?_⟩
  show (k (c.withReporter r)).run (c.withReporter r) = _
  rw [blind]

theorem finds_nil {m : Walk Unit} (h : Honest m) {c : State}
    (reporter : c.reporter = .bag { limit := 1 }) (none : (m.run c).2.reporter.contents.size = 0) :
    ∃ c', Finds m c [] () c' ∧ c'.polls = (m.run c).2.polls := by
  obtain ⟨ds, ⟨⟩, c', acts⟩ := h c
  rw [acts.run_eq] at none ⊢
  have kept : ((Reporter.bag { limit := 1 }).reportAll ds).contents.size = 0 := reporter ▸ none
  obtain rfl : ds = [] := by
    cases ds with
    | nil => rfl
    | cons d rest => simp [Reporter.contents_reportAll_bag, Bag.size] at kept
  exact ⟨c', acts.toFinds, rfl⟩

end Honest

namespace Walk

variable (cfg : Config) {c : State} {pos : Position} {step : Assembly.Emit α}
  {g : Assembly.Generator}

/-! ## Findings and writing -/

theorem honest_error {code : Code} {pos : Position} {message : String} :
    Honest (error cfg code pos message) := fun c =>
  ⟨[.error code (pos.place cfg.path) message], (), { c with failed := true },
    ⟨fun _ => rfl, by simp [Severity.isError, Severity.rank]⟩, fun _ => rfl, fun h => h⟩

theorem honest_error_pure {code : Code} {pos : Position} {message : String} {a : α} :
    Honest (do error cfg code pos message; return a) :=
  .bind (honest_error cfg) fun _ => .pure

theorem run_emit_of_failed (pos : Position) (step : Assembly.Emit α) (h : c.failed) :
    (emit cfg pos step).run c = (none, c) := by
  show ((if c.failed then _ else _ : Walk (Option α)).run c) = _
  rw [if_pos h]
  rfl

theorem run_emit (pos : Position) (step : Assembly.Emit α) (h : c.failed = false) :
    (emit cfg pos step).run c =
      match step.run.run c.generator with
      | (.ok a, g) => (some a, { c with generator := g })
      | (.error f, g) =>
        (do error cfg f.diagnosticCode pos f.message; return none : Walk (Option α)).run
          { c with generator := g } := by
  show ((if c.failed then _ else _ : Walk (Option α)).run c) = _
  rw [if_neg (by simp [h])]
  rcases hr : step.run.run c.generator with ⟨f | a, g⟩
  all_goals
    change step c.generator = _ at hr
    rw [hr]
    rfl

theorem run_emit_of_writes {a : α} (h : c.failed = false) (w : step.Writes c.generator a g) :
    (emit cfg pos step).run c = (some a, { c with generator := g }) := by
  rw [run_emit cfg pos step h, show step.run.run c.generator = _ from w]

theorem run_emit_of_refused {f : Assembly.Fault} (h : c.failed = false)
    (refused : step.run.run c.generator = (.error f, g)) :
    (emit cfg pos step).run c =
      (do error cfg f.diagnosticCode pos f.message; return none : Walk (Option α)).run
        { c with generator := g } := by
  rw [run_emit cfg pos step h, refused]

theorem honest_emit {pos : Position} {step : Assembly.Emit α} : Honest (emit cfg pos step) := by
  intro c
  cases hf : c.failed with
  | true =>
    exact ⟨[], none, c, .silent (fun r => run_emit_of_failed cfg pos step hf) rfl rfl rfl⟩
  | false =>
    rcases hr : step.run.run c.generator with ⟨f | a, g⟩
    · obtain ⟨ds, a, c', acts⟩ := honest_error_pure cfg { c with generator := g }
      refine ⟨ds, a, c', ⟨fun r => ?_, acts.failed⟩, fun h => by simp [hf] at h, acts.polls⟩
      rw [← acts.run r]
      exact run_emit_of_refused cfg hf hr
    · exact ⟨[], some a, { c with generator := g },
        ⟨fun r => run_emit_of_writes cfg hf hr, by simp⟩, fun h => by simp [hf] at h, fun h => h⟩

theorem writes_of_emit (h : ((emit cfg pos step).run c).2.failed = false) :
    ∃ a g, c.failed = false ∧ step.Writes c.generator a g ∧
      (emit cfg pos step).run c = (some a, { c with generator := g }) := by
  have hf : c.failed = false := by
    cases hf : c.failed with
    | false => rfl
    | true =>
      rw [run_emit_of_failed cfg pos step hf, hf] at h
      exact h
  rw [run_emit cfg pos step hf] at h ⊢
  rcases hr : step.run.run c.generator with ⟨f | a, g⟩
  · rw [hr] at h
    cases h
  · exact ⟨a, g, hf, hr, rfl⟩

/-! ## Scopes -/

theorem honest_enter {method : Bool} : Honest (enter method) :=
  .modify (fun _ _ => rfl) (fun _ => rfl) (fun _ => rfl) fun _ => rfl

theorem run_leave (pos : Position) (c : State) :
    (leave cfg pos).run c =
      match c.stack.leave with
      | .error f => (scopeError cfg pos f).run c
      | .ok stack =>
        ((), { c with
          stack := stack
          bases := c.bases.tail
          assigned := c.assigned.filter fun v => v.1 < c.topDepth }) := by
  show (match c.stack.leave with | .error f => _ | .ok stack => _ : Walk Unit).run c = _
  cases c.stack.leave <;> rfl

theorem honest_leave (pos : Position) : Honest (leave cfg pos) := by
  intro c
  have run r := run_leave cfg pos (c.withReporter r)
  cases h : c.stack.leave with
  | error f =>
    obtain ⟨ds, a, c', acts⟩ := honest_error cfg c
    refine ⟨ds, a, c', acts.congr fun r => ?_⟩
    rw [run r, show (c.withReporter r).stack.leave = .error f from h]
    rfl
  | ok stack =>
    refine ⟨[], (), { c with
      stack := stack
      bases := c.bases.tail
      assigned := c.assigned.filter fun v => v.1 < c.topDepth }, .silent (fun r => ?_) rfl rfl rfl⟩
    rw [run r, show (c.withReporter r).stack.leave = .ok stack from h]
    rfl

theorem run_insert (pos : Position) (s : Symbol) (c : State) :
    (insert cfg pos s).run c =
      match c.stack.insert (some s.declaration) with
      | .error f => (do scopeError cfg pos f; return none : Walk (Option (Option Nat))).run c
      | .ok (slot, stack) => (some slot, { c with stack := stack }) := by
  show (match c.stack.insert (some s.declaration) with
    | .error f => _ | .ok (slot, stack) => _ : Walk (Option (Option Nat))).run c = _
  rcases c.stack.insert (some s.declaration) with f | ⟨slot, stack⟩ <;> rfl

theorem honest_insert (pos : Position) (s : Symbol) : Honest (insert cfg pos s) := by
  intro c
  have run r := run_insert cfg pos s (c.withReporter r)
  rcases h : c.stack.insert (some s.declaration) with f | ⟨slot, stack⟩
  · obtain ⟨ds, a, c', acts⟩ :=
      honest_error_pure cfg c
    refine ⟨ds, a, c', acts.congr fun r => ?_⟩
    rw [run r, show (c.withReporter r).stack.insert (some s.declaration) = .error f from h]
    rfl
  · refine ⟨[], some slot, { c with stack := stack }, .silent (fun r => ?_) rfl rfl rfl⟩
    rw [run r, show (c.withReporter r).stack.insert (some s.declaration) = .ok (slot, stack) from h]
    rfl

theorem honest_allocate {length : Nat} : Honest (allocate length) :=
  .modify (fun _ _ => rfl) (fun _ => rfl) (fun _ => rfl) fun _ => rfl

theorem honest_markAssigned {depth : Nat} {name : String} : Honest (markAssigned depth name) :=
  .modify (fun _ _ => rfl) (fun _ => rfl) (fun _ => rfl) fun _ => rfl

/-! ## Going on -/

theorem run_poll (c : State) :
    poll.run c =
      match c.polls with
      | none => (true, c)
      | some 0 => (false, c)
      | some (n + 1) => (true, { c with polls := some n }) := by
  show (match c.polls with | none => _ | some 0 => _ | some (n + 1) => _ : Walk Bool).run c = _
  rcases c.polls with _ | _ | n <;> rfl

theorem honest_poll : Honest poll := by
  intro c
  have run r := run_poll (c.withReporter r)
  rcases hp : c.polls with _ | _ | n
  · refine ⟨[], true, c, .silent (fun r => ?_) rfl rfl rfl⟩
    rw [run r, show (c.withReporter r).polls = none from hp]
  · refine ⟨[], false, c, .silent (fun r => ?_) rfl rfl rfl⟩
    rw [run r, show (c.withReporter r).polls = some 0 from hp]
  · refine ⟨[], true, { c with polls := some n }, ⟨fun r => ?_, by simp⟩, fun _ => rfl,
      fun h => by simp [hp] at h⟩
    rw [run r, show (c.withReporter r).polls = some (n + 1) from hp]
    rfl

theorem honest_inSpan {name : String} {body : Walk Unit} (h : Honest body) :
    Honest (inSpan name body) := by
  intro c
  let opened : State :=
    { c with
      recorder := (c.recorder.start .pass name c.span).2
      span := (c.recorder.start .pass name c.span).1.id }
  obtain ⟨ds, a, c', acts⟩ := h opened
  refine ⟨ds, (), { c' with
    recorder := c'.recorder.finish (c.recorder.start .pass name c.span).1 ""
    span := c.span }, ⟨fun r => ?_, acts.failed⟩, acts.frozen, acts.polls⟩
  show (do
      body
      modify fun c' => { c' with
        recorder := c'.recorder.finish (c.recorder.start .pass name c.span).1 ""
        span := c.span } : Walk Unit).run (opened.withReporter r) = _
  rw [StateT.run_bind, acts.run r]
  rfl

end Walk

end Jasm.Compile

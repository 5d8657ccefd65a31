import Jasm.Proofs.Compile.Coupling
import Jasm.Proofs.Compile.Steps

/-!
# Memory

An array is laid out when its declaration is gone through, and the length is taken from the
description as it is. A length for which there can be no memory ends the process, and every unit
with it. Nothing else does: a walk whose arrays all fit ends, and the other steps of a job ask for
no memory that depends on a description.

`Holding` couples a walk with itself as long as nothing has crashed, so that the statements need no
second walk through their cases.
-/

namespace Jasm

namespace Compile

open Assembly (Emit)

variable {α : Type} {cfg : Config} {pos : Position}

/-- One state of a walk that still goes on, taken twice. -/
def Holding (c c' : State) : Prop := c' = c ∧ c.crashed = false

/-- There is memory for an array of this length. -/
abbrev Fits (length : Nat) : Prop := length ≤ ArrayVar.maxLength

namespace Walk

theorem holds_of_crashed_eq {m : Walk α} (h : ∀ c, (m.run c).2.crashed = c.crashed) :
    Agrees Holding m m := by
  rintro _ c ⟨rfl, alive⟩
  exact ⟨rfl, rfl, (h c).trans alive⟩

theorem holds_emit {step : Emit α} : Agrees Holding (emit cfg pos step) (emit cfg pos step) := by
  refine .get_bind ?_
  rintro _ c ⟨rfl, alive⟩
  refine .ite .pure (.bind (.set ⟨rfl, alive⟩) fun _ => ?_)
  cases (step c.generator).1 with
  | ok a => exact .pure
  | error f => exact .bind (holds_of_crashed_eq fun _ => rfl) fun _ => .pure

theorem holds_poll : Agrees Holding poll poll := by
  refine .get_bind ?_
  rintro _ c ⟨rfl, alive⟩
  cases c.polls with
  | none => exact .pure
  | some n =>
    cases n with
    | zero => exact .pure
    | succ n => exact .bind (.set ⟨rfl, alive⟩) fun _ => .pure

theorem holds_allocate {length : Nat} (fits : Fits length) :
    Agrees Holding (allocate length) (allocate length) :=
  .modify fun c _ holding => by
    obtain ⟨rfl, alive⟩ := holding
    exact ⟨rfl, by simp [alive, fits]⟩

theorem holds_inSpan {name : String} {body body' : Walk Unit} (h : Agrees Holding body body') :
    Agrees Holding (inSpan name body) (inSpan name body') := by
  refine .get_bind ?_
  rintro _ c ⟨rfl, alive⟩
  refine .bind (.set ⟨rfl, alive⟩) fun _ => .bind h fun _ => ?_
  exact holds_of_crashed_eq fun _ => rfl

theorem coupled_holding : Coupling.Whole cfg cfg Holding Fits where
  limit := rfl
  stack h := congrArg State.stack h.1
  bases h := congrArg State.bases h.1
  assigned h := congrArg State.assigned h.1
  function h := congrArg State.function h.1
  scopes h stack bases assigned := by
    obtain ⟨rfl, alive⟩ := h
    exact ⟨by rw [stack, bases, assigned], alive⟩
  point _ := holds_of_crashed_eq fun _ => rfl
  poll := holds_poll
  allocate _ := holds_allocate
  error _ _ _ := holds_of_crashed_eq fun _ => rfl
  warning _ _ _ := holds_of_crashed_eq fun _ => rfl
  given _ := rfl
  emit pos step _ _ _ same := by
    rw [same]
    exact holds_emit
  within _ h := ⟨by rw [h.1], h.2⟩
  dump _ := holds_of_crashed_eq fun _ => rfl
  span := holds_inSpan
  write _ _ := holds_emit

theorem holds_close (p : Program) : Agrees Holding (close cfg p) (close cfg p) := by
  refine .get_bind ?_
  rintro _ c ⟨rfl, alive⟩
  obtain ⟨faults, g⟩ := c.generator.close none
  refine .bind (.set ⟨rfl, alive⟩) fun _ => ?_
  cases faults with
  | nil => exact .pure
  | cons f rest => exact .ite (holds_of_crashed_eq fun _ => rfl) .pure

end Walk

/-! ## Steps -/

namespace Job

variable {o : Options} {j : Job} {w : World}

/-- The step of a job that lays out an array for which there is no memory. -/
def Exhausts (j : Job) : Prop :=
  ∃ d p, j.next = .walk d p ∧ ∃ n ∈ p.lengths, ArrayVar.maxLength < n

theorem crashed_load : (j.load w).2.crashed = w.crashed := by
  unfold load
  dsimp only
  split
  · rw [World.saveTrace, World.finishPhase_eq, World.startPhase_eq]
    rfl
  · split <;> (rw [World.saveTrace, World.finishPhase_eq, World.startPhase_eq]; rfl)

theorem crashed_walk {d : Draft} {p : Program} (alive : w.crashed = false)
    (fits : ∀ n ∈ p.lengths, Fits n) : (j.walk o d p w).2.crashed = false := by
  show (walked o j d p w).poll.2.crashed = false
  rw [World.poll_eq, walked_eq]
  have ends : Agrees Holding (do Walk.program (config o d) p; Walk.close (config o d) p)
      (do Walk.program (config o d) p; Walk.close (config o d) p) :=
    .bind (Walk.couples_program Walk.coupled_holding p fits) fun _ => Walk.holds_close p
  rw [alive, Bool.false_or]
  exact (ends (walkStart o j d w) _ ⟨rfl, rfl⟩).2.2

theorem crashed_keep {d : Draft} {text : List UInt8} :
    (j.keep o d text w).2.crashed = w.crashed := by
  unfold keep
  dsimp only
  split
  · rfl
  · split
    · next kept => exact (World.onFiles_of_eq kept).1
    · next refused => exact (World.onFiles_of_eq refused).1

theorem crashed_claim {d : Draft} {text : List UInt8} :
    (j.claim o d text w).2.crashed = w.crashed := by
  unfold claim
  dsimp only
  split
  · next claimed => exact (World.claim_of_eq claimed).1.trans rfl
  · next claimed => exact (World.claim_of_eq claimed).1.trans rfl

/-- Only the walk over an array that does not fit crashes. -/
theorem exhausts_of_crashed (alive : w.crashed = false) (crashed : (j.step o w).2.crashed = true) :
    j.Exhausts := by
  by_contra not
  have kept : (j.step o w).2.crashed = false := by
    rw [← alive]
    unfold step
    cases hj : j.next with
    | load => exact crashed_load
    | check d =>
      show (j.check o d w).2.crashed = _
      unfold check
      dsimp only
      split <;> rfl
    | walk d p =>
      refine (crashed_walk alive fun n mem => ?_).trans alive.symm
      by_contra large
      exact not ⟨d, p, hj, n, mem, Nat.lt_of_not_le large⟩
    | keep d text => exact crashed_keep
    | claim d text => exact crashed_claim
    | write => rfl
    | finish stage => rfl
    | «over» cancelled => rfl
  rw [kept] at crashed
  cases crashed

/-- A description of one array, far longer than memory. -/
def boundless : Draft :=
  { program := "P", path := "p.toml",
    main := [{ tag := "array", name := "a", kind := "int", length := 4611686018427387904 }] }

/-- The description is a program, and no finding is reported on the way to the crash. -/
theorem compile_crashes_boundless :
    boundless.check.result.isSome ∧ (compile {} boundless 0 {}).1.1.findings.size = 0 ∧
      (compile {} boundless 0 {}).2.crashed = true := by
  decide +kernel

end Job

end Compile

end Jasm

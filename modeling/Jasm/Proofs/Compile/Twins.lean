import Jasm.Proofs.Compile.Coupling
import Jasm.Proofs.Diagnostic.Replaying
import Jasm.Proofs.Trace.Quiet

/-!
# Walks over one program for two files

What a walk does depends on the program and on the number of frame slots. The file it reports for,
the receiver of its findings and what is traced along the way have no influence: two walks over one
program write the same assembly program and find the same, each for its own file.

`Twin T m m'` says this of two steps: from states that are alike they give the same value and lead
to states that are alike again. Being alike couples the two walks, so that this holds of all
statements and of the parts of a program around them.
-/

namespace Jasm

open Trace.Recorder List

namespace Compile

open Assembly (Emit)

variable {α β : Type}

/-- Two files, what receives the findings about each, whether the open scopes are shown, and whether
the walks are neither cancelled nor traced to a file. -/
structure Files₂ where
  file : String
  file' : String
  reporter : Reporter
  reporter' : Reporter
  shown : Bool
  shown' : Bool
  calm : Prop

/-- States of two walks that have done the same, and found the same for their files. -/
structure Alike (T : Files₂) (c c' : State) : Prop where
  stack : c'.stack = c.stack
  bases : c'.bases = c.bases
  assigned : c'.assigned = c.assigned
  function : c'.function = c.function
  generator : c'.generator = c.generator
  failed : c'.failed = c.failed
  polls : c'.polls = c.polls
  found : ∃ ds : List Diagnostic, (∀ d ∈ ds, d.Plain) ∧
    c.reporter = T.reporter.reportAll (ds.map (.inFile T.file)) ∧
    c'.reporter = T.reporter'.reportAll (ds.map (.inFile T.file'))
  live : T.calm → c.polls = none
  quiet : T.calm → c.recorder.tracer.Quiet
  quiet' : T.calm → c'.recorder.tracer.Quiet
  dump : c.dump.isSome = T.shown
  dump' : c'.dump.isSome = T.shown'
  shows : T.shown = T.shown' → c'.dump = c.dump

/-- Steps that do the same to states that are alike. -/
abbrev Twin (T : Files₂) (m m' : Walk α) : Prop := Agrees (Alike T) m m'

namespace Walk

variable {T : Files₂} {limit : Int} {pos : Position}

/-! ## Findings and writing -/

theorem reported {c c' : State} (alike : Alike T c c') {d : Diagnostic} (plain : d.Plain) :
    ∃ ds : List Diagnostic, (∀ d ∈ ds, d.Plain) ∧
      c.reporter.report (.inFile T.file d) = T.reporter.reportAll (ds.map (.inFile T.file)) ∧
      c'.reporter.report (.inFile T.file' d) =
        T.reporter'.reportAll (ds.map (.inFile T.file')) := by
  obtain ⟨ds, all, hr, hr'⟩ := alike.found
  refine ⟨ds ++ [d], ?_, ?_, ?_⟩
  · rw [forall_mem_append, forall_mem_singleton]
    exact ⟨all, plain⟩
  · rw [map_append, Reporter.reportAll_append, ← hr]
    rfl
  · rw [map_append, Reporter.reportAll_append, ← hr']
    rfl

theorem twin_error {code : Code} {message : String} :
    Twin T (error ⟨T.file, limit⟩ code pos message) (error ⟨T.file', limit⟩ code pos message) :=
  .modify fun _ _ alike => { alike with
    failed := rfl
    found := reported alike (d := .error code (pos.place "") message) ⟨rfl, rfl⟩ }

theorem twin_warning {code : Code} {message : String} :
    Twin T (warning ⟨T.file, limit⟩ code pos message)
      (warning ⟨T.file', limit⟩ code pos message) :=
  .modify fun _ _ alike => { alike with
    found := reported alike (d := .warning code (pos.place "") message) ⟨rfl, rfl⟩ }

theorem twin_emit {step : Emit α} :
    Twin T (emit ⟨T.file, limit⟩ pos step) (emit ⟨T.file', limit⟩ pos step) := by
  refine .get_bind fun c c' alike => ?_
  rw [alike.failed, alike.generator]
  refine .ite .pure ?_
  refine .bind (.set { alike with generator := rfl, failed := rfl }) fun _ => ?_
  cases (step c.generator).1 with
  | ok a => exact .pure
  | error f => exact .bind twin_error fun _ => .pure

theorem twin_poll : Twin T poll poll := by
  refine .get_bind fun c c' alike => ?_
  rw [alike.polls]
  cases polls : c.polls with
  | none => exact .pure
  | some n =>
    cases n with
    | zero => exact .pure
    | succ n =>
      refine .bind (.set { alike with polls := rfl, live := fun calm => ?_ }) fun _ => .pure
      have live := alike.live calm
      rw [polls] at live
      cases live

theorem twin_inSpan {name : String} {body body' : Walk Unit} (h : Twin T body body') :
    Twin T (inSpan name body) (inSpan name body') := by
  refine .get_bind fun c c' alike => ?_
  refine .bind (.set ?_) fun _ => .bind h fun _ => .modify fun _ _ alike => ?_
  · exact { alike with
      quiet := fun calm => quiet_start (alike.quiet calm)
      quiet' := fun calm => quiet_start (alike.quiet' calm) }
  · exact { alike with
      quiet := fun calm => quiet_finish (alike.quiet calm)
      quiet' := fun calm => quiet_finish (alike.quiet' calm) }

theorem coupled :
    Coupling.Whole ⟨T.file, limit⟩ ⟨T.file', limit⟩ (Alike T) fun _ => True where
  limit := rfl
  stack := Alike.stack
  bases := Alike.bases
  assigned := Alike.assigned
  function := Alike.function
  scopes alike stack bases assigned :=
    { alike with stack := stack, bases := bases, assigned := assigned }
  point _ := .modify fun _ _ alike => { alike with
    quiet := fun calm => quiet_point (alike.quiet calm)
    quiet' := fun calm => quiet_point (alike.quiet' calm) }
  poll := twin_poll
  allocate _ _ := .modify fun _ _ alike => { alike with }
  error pos code message := twin_error
  warning pos code message := twin_warning
  given _ := rfl
  emit pos step _ _ _ same := by
    rw [same]
    exact twin_emit
  within _ alike := { alike with function := rfl }
  dump _ := .modify fun _ _ alike => { alike with
    dump := Option.isSome_map.trans alike.dump
    dump' := Option.isSome_map.trans alike.dump'
    shows := fun both => by rw [alike.shows both, alike.stack] }
  span := twin_inSpan
  write _ _ := twin_emit

/-! ## Programs -/

/-- Walks over one program in two files do the same. -/
theorem twin_program (p : Program) :
    Twin T (program ⟨T.file, limit⟩ p) (program ⟨T.file', limit⟩ p) :=
  couples_program coupled p fun _ _ => trivial

theorem twin_close (p : Program) :
    Twin T (close ⟨T.file, limit⟩ p) (close ⟨T.file', limit⟩ p) := by
  refine .get_bind fun c c' alike => ?_
  rw [alike.failed, alike.generator]
  obtain ⟨faults, g⟩ := c.generator.close none
  refine .bind (.set { alike with generator := rfl, failed := rfl }) fun _ => ?_
  cases faults with
  | nil => exact .pure
  | cons f rest => exact .ite twin_error .pure

end Walk

end Compile

end Jasm

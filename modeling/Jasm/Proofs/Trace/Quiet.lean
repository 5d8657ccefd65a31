import Jasm.Trace.Saving

/-!
# Traces that go to no file

Recording never changes where the sinks of a tracer write to. So a tracer without a stream into a
file stays so, and saving it leaves all files alone.
-/

namespace Jasm.Trace

open List

def Sink.Quiet : Sink → Prop
  | .ring _ _ => True
  | .stream s => ∀ path, s.target ≠ .file path

def Tracer.Quiet (t : Tracer) : Prop := ∀ s ∈ t.sinks, s.Quiet

namespace Sink

theorem quiet_emit {s : Sink} (h : s.Quiet) {last : Nat} {e : Event} : (s.emit last e).1.Quiet := by
  unfold emit
  split
  · cases s with
    | ring l r => exact True.intro
    | stream s => exact h
  · exact h

theorem save_of_quiet {s : Sink} (h : s.Quiet) (fs : Files) : s.save fs = (s, fs) := by
  cases s with
  | ring l r => rfl
  | stream s =>
    have plain : s.save fs = (s, fs) := by
      unfold Stream.save
      cases ht : s.target with
      | file path => exact absurd ht (h path)
      | errorOutput => rfl
      | buffered _ => rfl
    simp only [save, plain]

theorem saveAll_of_quiet {ss : List Sink} (h : ∀ s ∈ ss, s.Quiet) (fs : Files) :
    saveAll ss fs = (ss, fs) := by
  induction ss with
  | nil => rfl
  | cons s rest ih =>
    rw [forall_mem_cons] at h
    rw [saveAll, save_of_quiet h.1]
    dsimp only
    rw [ih h.2]

end Sink

namespace Tracer

variable {t : Tracer}

theorem withSinks_self (t : Tracer) : t.withSinks t.sinks = t := by cases t <;> rfl

theorem save_of_quiet (h : t.Quiet) (fs : Files) : t.save fs = (t, fs) := by
  rw [save, Sink.saveAll_of_quiet h]
  exact Prod.ext (withSinks_self t) rfl

theorem quiet_withSinks (h : t.Quiet) {ss : List Sink} (hs : ∀ s ∈ ss, s.Quiet) :
    (t.withSinks ss).Quiet := by
  cases t with
  | off => exact h
  | shared l _ => exact hs
  | single s =>
    rcases ss with _ | ⟨s', _ | _⟩
    · exact h
    · exact hs
    · exact h

theorem quiet_emitAll {ss : List Sink} (h : ∀ s ∈ ss, s.Quiet) (last : Nat) (e : Event) :
    ∀ s ∈ (emitAll e last ss).1, s.Quiet := by
  induction ss generalizing last with
  | nil => exact h
  | cons s rest ih =>
    rw [forall_mem_cons] at h
    rw [emitAll, forall_mem_cons]
    exact ⟨Sink.quiet_emit h.1, ih h.2 _⟩

theorem quiet_emit (h : t.Quiet) (last : Nat) (e : Event) : (t.emit last e).1.Quiet := by
  cases t with
  | off => exact h
  | single s =>
    intro s' hs'
    rw [mem_singleton.mp hs']
    exact Sink.quiet_emit (h s (mem_singleton.mpr rfl))
  | shared l ss => exact quiet_emitAll h _ _

end Tracer

namespace Recorder

variable {r : Recorder}

theorem quiet_emit (h : r.tracer.Quiet) {e : Event} : (r.emit e).tracer.Quiet :=
  Tracer.quiet_emit h _ e

theorem quiet_start (h : r.tracer.Quiet) {grain : Grain} {name : String} {parent : Nat} :
    (r.start grain name parent).2.tracer.Quiet := by
  unfold start
  split
  · exact quiet_emit (r := { r with lastSpan := _ }) h
  · exact h

theorem quiet_finish (h : r.tracer.Quiet) {s : Span} {detail : String} :
    (r.finish s detail).tracer.Quiet := by
  unfold finish
  split
  · exact h
  · exact quiet_emit h

theorem quiet_point (h : r.tracer.Quiet) {grain : Grain} {name detail : String} {parent : Nat} :
    (r.point grain name detail parent).tracer.Quiet := by
  unfold point
  split
  · exact quiet_emit h
  · exact h

theorem quiet_annotate (h : r.tracer.Quiet) (s : Span) (key value : String) :
    (r.annotate s key value).2.tracer.Quiet := by
  unfold annotate
  split
  · exact h
  · refine Tracer.quiet_withSinks h fun sink hs => ?_
    obtain ⟨old, hold, rfl⟩ := mem_map.mp hs
    cases old with
    | ring l ring => exact True.intro
    | stream st => exact h _ hold

end Recorder

end Jasm.Trace

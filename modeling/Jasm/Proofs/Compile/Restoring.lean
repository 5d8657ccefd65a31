import Jasm.Proofs.Compile.Steps

/-!
# Findings from the cache

A compilation reports what it finds in its description first, then what the walk and all later steps
find. All of this is about one file, and none of it carries remarks. So whatever a compilation keeps
of its findings can be left in the cache: a later compilation of the same source, under whatever
path, that restores them behind the check of its own description keeps the same findings in the same
order.
-/

namespace Jasm

namespace Compile

open Cache (Payload)

namespace Job

variable {o : Options} {d : Draft} {j : Job} {r : Reporter}

theorem Told.reportAll (h : Told o d r) {more : List Diagnostic} (plain : ∀ x ∈ more, x.Plain) :
    Told o d (r.reportAll (more.map (.inFile d.path))) := by
  obtain ⟨ds, known, rfl⟩ := h
  refine ⟨ds ++ more, List.forall_mem_append.mpr ⟨known, plain⟩, ?_⟩
  rw [collected, collected, ← Reporter.reportAll_append, List.map_append, List.append_assoc]

/-- By induction on the steps: each of them reports findings of the unit. -/
theorem Told.steps (h : Told o d j.reporter) (compiles : Compiles d.path j) (n : Nat) (w : World) :
    Told o d (j.steps o n w).1.reporter := by
  induction n generalizing j w with
  | zero => exact h
  | succ n ih =>
    obtain ⟨ds, es, goes⟩ := compiles.step o w
    refine ih ?_ (goes.next compiles).1 _
    rw [goes.reports]
    exact h.reportAll goes.plain

theorem compiles_ofDraft (o : Options) (d : Draft) (parent : Nat) :
    Compiles d.path (ofDraft o d parent) :=
  ⟨rfl, fun _ same => Option.some.inj same ▸ rfl, fun _ => rfl⟩

theorem told_steps (o : Options) (d : Draft) (parent n : Nat) (w : World) :
    Told o d ((ofDraft o d parent).steps o (n + 1) w).1.reporter := by
  have compiles := compiles_ofDraft o d parent
  obtain ⟨ds, es, goes⟩ := compiles.step o w
  refine Told.steps ?_ (goes.next compiles).1 n _
  obtain ⟨more, plain, reports, -⟩ := exists_check (o := o) (j := ofDraft o d parent)
    (d := d) rfl rfl
  have checked : Told o d (collected o (checkFindings d)) := ⟨[], by simp, by simp⟩
  exact reports ▸ checked.reportAll plain

/-- Findings that a compilation of a unit under another path keeps, now about its own file, if it
restores them behind its check. -/
def Restorable (o : Options) (d : Draft) (kept : Bag) : Prop :=
  ∀ (file : String) (text : List UInt8) (lines : Int),
    let again : Draft := { d with path := file }
    ((Payload.ofResult d.program text lines kept).restore
        (again.validate (.collecting o.limit)).2 file).contents.items.toList =
      kept.items.toList.map (.inFile file)

theorem Told.restorable (h : Told o d r) : Restorable o d r.contents := by
  intro file text lines again
  have plain := h.plain
  obtain ⟨ds, -, rfl⟩ := h
  have unit : d = { again with path := d.path } := rfl
  have moved := @items_inFile o again d unit ds
  have checked : (again.validate (.collecting o.limit)).2 = collected o (checkFindings again) := rfl
  have like := Reporter.like_reportAll_again o.limit (checkFindings again)
    (ds.map (.inFile again.path)) (Nat.le_refl _)
  rw [Payload.restore_ofResult plain, checked]
  show (Reporter.reportAll _ (List.map (.inFile again.path) _)).contents.items.toList =
    List.map (.inFile again.path) _
  rw [moved, collected, like.contents, Reporter.contents_reportAll_collecting]

/-- What a compilation keeps of its findings can be restored by a compilation of the same source
under another path: at every point behind the check, in particular where the cache is filled, and
when it is over. -/
theorem findings_restorable (o : Options) (d : Draft) (parent : Nat) (w : World) :
    (∀ file source, Draft.parse? file source =
      (Draft.parse? d.path source).map fun x => { x with path := file }) ∧
    (∀ n, Restorable o d ((ofDraft o d parent).steps o (n + 1) w).1.reporter.contents) ∧
    Restorable o d (compile o d parent w).1.1.findings := by
  have all (n : Nat) : Restorable o d
    ((ofDraft o d parent).steps o (n + 1) w).1.reporter.contents :=
    (told_steps o d parent n w).restorable
  refine ⟨fun file source => Draft.parse?_path d.path file source, all, ?_⟩
  rw [compile, (run_eq _ w).1, findings_settled]
  exact all 6

end Job

end Compile

end Jasm

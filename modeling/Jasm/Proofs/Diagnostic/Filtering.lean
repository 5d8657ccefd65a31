import Jasm.Proofs.Diagnostic.Repetitions
import Jasm.Proofs.Diagnostic.Reporting

/-!
# Findings that are told once

Of all findings that are reported, the receiver of a compilation keeps the first of each key, in
their order and up to its limit; the filter remembers also those for which there is no room. A
second filter in front of the first one lets pass whatever the first one would. A finding in the
making is handed over at most once, with the notes it has by then.
-/

namespace Jasm

open List

theorem distinct_eq_firsts (ds : List Diagnostic) :
    distinct [] ds = firsts Diagnostic.reportKey ds :=
  eq_firsts _ List.contains (fun seen key => key :: seen) (fun _ => rfl) (fun _ _ _ => rfl)
    (fun _ _ _ => by rw [contains_cons, BEq.comm]) _ fun _ => rfl

namespace Reporter

theorem reportAll_unique_unique {outer inner : List ReportKey} {next : Reporter}
    (seen : outer ⊆ inner) {ds : List Diagnostic} :
    ∃ keys, (unique outer (unique inner next)).reportAll ds =
      unique keys ((unique inner next).reportAll ds) := by
  induction ds generalizing outer inner next with
  | nil => exact ⟨outer, rfl⟩
  | cons d rest ih =>
    simp only [reportAll, foldl_cons, report, contains_iff_mem]
    by_cases told : d.reportKey ∈ outer
    · rw [if_pos told, if_pos (seen told)]
      exact ih seen
    · rw [if_neg told]
      by_cases known : d.reportKey ∈ inner
      · rw [if_pos known]
        exact ih (cons_subset.mpr ⟨known, seen⟩)
      · rw [if_neg known]
        exact ih (cons_subset_cons _ seen)

end Reporter

namespace PendingReport

/-- What happens while a finding is in the making: it is annotated or handed over, or another
finding is reported. -/
inductive Event where
  | note (n : Note)
  | emit
  | other (d : Diagnostic)
  deriving DecidableEq

def handle (s : PendingReport × Reporter) : Event → PendingReport × Reporter
  | .note n => (s.1.withNote n.place n.message, s.2)
  | .emit => s.1.emit s.2
  | .other d => (s.1, s.2.report d)

def Event.note? : Event → Option Note
  | .note n => some n
  | _ => none

def Event.other? : Event → Option Diagnostic
  | .other d => some d
  | _ => none

/-- What the finding itself adds to the reports: nothing if it is never handed over. -/
def contribution (d : Diagnostic) (es : List Event) : List Diagnostic :=
  if .emit ∈ es then
    [{ d with notes := d.notes ++ (es.takeWhile (· ≠ .emit)).filterMap Event.note? }]
  else []

theorem handle_of_emitted {p : PendingReport} (h : p.emitted) (r : Reporter) (es : List Event) :
    (es.foldl handle (p, r)).2 = r.reportAll (es.filterMap Event.other?) := by
  induction es generalizing p r with
  | nil => rfl
  | cons e rest ih =>
    rw [foldl_cons]
    cases e with
    | note n => exact ih (p := p.withNote n.place n.message) h r
    | emit =>
      rw [handle, PendingReport.emit, if_pos h]
      exact ih h r
    | other d => exact ih h (r.report d)

theorem handle_eq (d : Diagnostic) (r : Reporter) (es : List Event) :
    (es.foldl handle ({ diagnostic := d }, r)).2 =
      r.reportAll ((es.takeWhile (· ≠ .emit)).filterMap Event.other? ++ contribution d es ++
        (es.dropWhile (· ≠ .emit)).filterMap Event.other?) := by
  induction es generalizing d r with
  | nil => rfl
  | cons e rest ih =>
    rw [foldl_cons]
    cases e with
    | note n =>
      refine (ih (d.withNote n.place n.message) r).trans ?_
      simp [contribution, filterMap_cons, Event.other?, Event.note?, Diagnostic.withNote]
    | emit =>
      refine (handle_of_emitted (p := ⟨d, true⟩) rfl (r.report d) rest).trans ?_
      simp [contribution, filterMap_cons, Event.other?, Reporter.reportAll]
    | other d' =>
      refine (ih d (r.report d')).trans ?_
      simp [contribution, filterMap_cons, Event.other?, Event.note?, Reporter.reportAll]

end PendingReport

/-- The receiver of a compilation keeps the first findings of those that differ, each as it was
reported first; another filter in front of a filter changes nothing behind it; and whatever else is
reported in between, a finding in the making adds one report or none. -/
theorem findings_told_once (limit : Int) (ds : List Diagnostic) :
    ((Reporter.collecting limit).reportAll ds).contents =
        { limit := min limit.toNat 65535
          items := ((firsts Diagnostic.reportKey ds).take (min limit.toNat 65535)).toArray } ∧
      (∀ seen next, ∃ keys, (Reporter.unique [] (.unique seen next)).reportAll ds =
        .unique keys ((Reporter.unique seen next).reportAll ds)) ∧
      ∀ d r (es : List PendingReport.Event),
        (es.foldl PendingReport.handle ({ diagnostic := d }, r)).2 =
          r.reportAll ((es.takeWhile (· ≠ .emit)).filterMap PendingReport.Event.other? ++
            PendingReport.contribution d es ++
            (es.dropWhile (· ≠ .emit)).filterMap PendingReport.Event.other?) := by
  refine ⟨?_, fun seen next => ?_, PendingReport.handle_eq⟩
  · rw [Reporter.contents_reportAll_collecting, distinct_eq_firsts]
    rfl
  · exact Reporter.reportAll_unique_unique (List.nil_subset _)

end Jasm

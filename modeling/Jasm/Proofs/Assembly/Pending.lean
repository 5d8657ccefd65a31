import Std.Data.String.ToInt
import Jasm.Proofs.Assembly.Labels

/-!
# Labels that are missing

The end of a method or of a program is refused while labels are missing, and the refusal names them.
The table lists labels in an order that means nothing, so they are put in order by their numbers,
and the number of a label is read back from its text. The stem may hold anything, digits and signs
too. What is named in the end is what was handed out and never defined, in the order in which it was
handed out.
-/

namespace Jasm.Assembly

open Emit LabelTable List String

namespace LabelTable

variable {t : LabelTable} {l : Label}

/-- The text of a label behind the stem; a label without the stem is left whole. -/
def tail (t : LabelTable) (l : Label) : String :=
  if t.stem.toList <+: l.toList then String.ofList (l.toList.drop t.stem.toList.length) else l

/-- The number of a label, read back from its text. What has no number comes first. -/
def ordinal (t : LabelTable) (l : Label) : Int := (t.tail l).toInt?.getD (-1)

def missing (t : LabelTable) : List Label :=
  (t.states.toList.filter fun e => !e.2.defined).map Prod.fst

theorem ordinal_labelOf (t : LabelTable) (n : Nat) : t.ordinal (labelOf t.stem n) = n := by
  have tail : t.tail (labelOf t.stem n) = n.repr := by
    rw [LabelTable.tail, labelOf, toList_append, if_pos (prefix_append _ _),
      drop_left, ofList_toList]
    rfl
  rw [ordinal, tail, toInt?_eq_some_of_toNat?_eq_some (Nat.toNat?_repr n)]
  rfl

theorem mem_missing : l ∈ t.missing ↔ t.isPending l = true := by
  simp only [missing, mem_map, mem_filter, Prod.exists, exists_and_right, exists_eq_right,
    Std.TreeMap.mem_toList_iff_getElem?_eq_some, isPending, get?]
  cases t.states[l]? <;> simp

theorem nodup_missing (t : LabelTable) : t.missing.Nodup := by
  have keys : (t.states.toList.map Prod.fst).Nodup := by
    rw [Std.TreeMap.map_fst_toList_eq_keys]
    exact Std.TreeMap.nodup_keys
  exact keys.sublist (filter_sublist.map _)

theorem pairwise_pending (t : LabelTable) : t.pending.Pairwise fun a b =>
    ∃ m n, m < n ∧ a = labelOf t.stem m ∧ b = labelOf t.stem n := by
  refine List.Pairwise.filter _ (pairwise_map.mpr ?_)
  exact pairwise_lt_range.imp fun less => ⟨_, _, less, rfl, rfl⟩

theorem nodup_pending {t : LabelTable} : t.pending.Nodup :=
  (nodup_range.map fun _ _ h => labelOf_injective h).filter _

end LabelTable

namespace Sound

variable {es : List Event} {g : Generator} {out : List Label}

theorem pending_eq (h : Sound es g) :
    g.labels.pending = (Assembly.handed es).filter fun l => .defined l ∉ es := by
  have listed : g.labels.pending = (Assembly.handed es).filter g.labels.isPending := by
    rw [h.handed]
    rfl
  rw [listed]
  refine filter_congr fun l mem => ?_
  obtain ⟨s, hs⟩ := (h.known l).mp mem
  have defined := h.defined l s hs
  rw [isPending, hs]
  cases hd : s.defined <;> simp_all

theorem perm_missing (h : Sound es g) : g.labels.pending.Perm g.labels.missing := by
  refine (perm_ext_iff_of_nodup nodup_pending (nodup_missing _)).mpr fun l => ?_
  rw [mem_missing, pending, mem_filter, and_iff_right_of_imp]
  intro isPending
  have mem : l ∈ Assembly.handed es := by
    rw [h.known]
    unfold LabelTable.isPending at isPending
    cases hs : g.labels.get? l with
    | none => simp [hs] at isPending
    | some s => exact ⟨s, rfl⟩
  rwa [h.handed] at mem

/-- However the missing labels are listed, there is one way to put them in the order of their
numbers. -/
theorem sorted_iff (h : Sound es g) : out.Perm g.labels.missing ∧
    out.Pairwise (fun a b => g.labels.ordinal a ≤ g.labels.ordinal b) ↔ out = g.labels.pending := by
  have sorted : g.labels.pending.Pairwise fun a b => g.labels.ordinal a ≤ g.labels.ordinal b := by
    refine g.labels.pairwise_pending.imp ?_
    rintro _ _ ⟨m, n, less, rfl, rfl⟩
    rw [ordinal_labelOf, ordinal_labelOf]
    omega
  constructor
  · rintro ⟨perm, sorted'⟩
    have same : out.Perm g.labels.pending := perm.trans h.perm_missing.symm
    have numbered : ∀ l ∈ g.labels.pending, ∃ n, l = labelOf g.labels.stem n := by
      intro l mem
      obtain ⟨n, -, rfl⟩ := mem_map.mp (mem_filter.mp mem).1
      exact ⟨n, rfl⟩
    refine List.Perm.eq_of_pairwise (fun a b ha hb le ge => ?_) sorted' sorted same
    obtain ⟨m, rfl⟩ := numbered a (same.mem_iff.mp ha)
    obtain ⟨n, rfl⟩ := numbered b hb
    rw [ordinal_labelOf, ordinal_labelOf] at le ge
    rw [Int.ofNat.inj (Int.le_antisymm le ge)]
  · rintro rfl
    exact ⟨h.perm_missing, sorted⟩

end Sound

/-! ## Refusals -/

namespace Emit

variable {α : Type} {g : Generator}

/-- Where it is refused for labels, it names all that are missing. -/
def NamesMissing (m : Emit α) (g : Generator) : Prop :=
  ∀ place ls, (m.run.run g).1 = .error (.undefinedLabels place ls) → ls = g.labels.pending ∧ ls ≠ []

theorem run_get_bind (k : Generator → Emit α) :
    (get >>= k).run.run g = (k g).run.run g := rfl

theorem NamesMissing.of_labels {here : String} {k : Unit → Emit α}
    (sure : ∀ place ls, ((k ()).run.run g).1 ≠ .error (.undefinedLabels place ls)) :
    NamesMissing (requireLabelsDefined here >>= k) g := by
  intro place ls h
  cases hp : g.labels.pending with
  | nil =>
    have passes : (requireLabelsDefined here).Writes g () g := by
      rw [requireLabelsDefined, Writes, run_get_bind, hp]
      rfl
    rw [run_bind_of_writes passes] at h
    exact absurd h (sure place ls)
  | cons l rest =>
    have refuses : (requireLabelsDefined here).run.run g =
        (.error (.undefinedLabels here (l :: rest)), g) := by
      rw [requireLabelsDefined, run_get_bind, hp]
      rfl
    rw [run_bind_of_refused refuses] at h
    cases h
    exact ⟨rfl, cons_ne_nil l rest⟩

theorem namesMissing_programEnd : NamesMissing programEnd g := by
  intro place ls h
  rcases g with ⟨cls, o, phase, depth, method, prints, labels, lines, terminal, ifs, loops⟩
  cases phase with
  | program => exact NamesMissing.of_labels (fun _ _ h => by cases h) place ls h
  | _ => cases h

theorem namesMissing_endFunction : NamesMissing endFunction g := by
  intro place ls h
  rcases g with ⟨cls, o, phase, depth, method, prints, labels, lines, terminal, ifs, loops⟩
  cases phase with
  | method =>
    cases prints with
    | zero =>
      refine NamesMissing.of_labels (fun _ _ h => ?_) place ls h
      dsimp only at h
      split at h <;> cases h
    | succ n => cases h
  | _ => cases h

theorem namesMissing_endMain : NamesMissing endMain g := by
  intro place ls h
  rw [endMain, run_get_bind] at h
  split at h
  · dsimp only at h
    split at h
    · cases h
    · exact namesMissing_endFunction place ls h
  · exact namesMissing_endFunction place ls h

/-- The calls that look for missing labels: where they are carried out there are none, and where
they are refused for labels they name all of them. -/
theorem ends_complete {c : Call} (mem : c ∈ [Call.endFunction, .endMain, .programEnd]) :
    (∀ r, (g.step c).1 = .ok r → g.labels.pending = []) ∧ NamesMissing c.perform g := by
  have outcome {m : Emit Unit} (carried : ∀ g', m.Writes g () g' → g.labels.pending = [])
      (refused : NamesMissing m g) :
      (∀ r, ((m *> pure Reply.done).run.run g).1 = .ok r → g.labels.pending = []) ∧
      NamesMissing (m *> pure Reply.done) g := by
    rw [seqRight_eq_bind]
    rcases writes_or_refused m g with ⟨a, w⟩ | ⟨f, r⟩
    · exact ⟨fun _ _ => carried _ w, fun place ls h => by rw [run_bind_of_writes w] at h; cases h⟩
    · rw [NamesMissing, run_bind_of_refused r]
      refine ⟨fun _ h => (by cases h), fun place ls h => ?_⟩
      cases h
      exact refused place ls (by rw [r])
  simp only [mem_cons, not_mem_nil, or_false] at mem
  rcases mem with rfl | rfl | rfl
  · exact outcome (fun _ w => (writes_endFunction.mp w).2.2.1) namesMissing_endFunction
  · exact outcome (fun _ w => (writes_endFunction.mp (writes_endMain.mp w).2).2.2.1)
      namesMissing_endMain
  · exact outcome (fun _ w => (writes_programEnd.mp w).2.1) namesMissing_programEnd

end Emit

namespace Generator

/-- The end of a method or of a program, after everything a client can do before. If it is carried
out, no label is missing. If it is refused for labels, then the labels it names are those that were
handed out and not defined, each once and in the order in which they were handed out, which is the
order of their numbers. Any way to list the missing labels, put in the order of the numbers in their
texts, gives them. -/
theorem refusals_name_missing (cls : String) (o : Options) (as : List Action) :
    (∃ es, Ran (.new cls o) as es (as.foldl act (.new cls o))) ∧
    ∀ es g, Ran (.new cls o) as es g → ∀ c ∈ [Call.endFunction, .endMain, .programEnd],
      (∀ r, (g.step c).1 = .ok r → ∀ l ∈ handed es, .defined l ∈ es) ∧
      ∀ place ls, (g.step c).1 = .error (.undefinedLabels place ls) →
        ls ≠ [] ∧ ls.Nodup ∧ ls = (handed es).filter (fun l => .defined l ∉ es) ∧
        (ls.Pairwise fun a b => ∃ m n, m < n ∧
          a = labelOf g.labels.stem m ∧ b = labelOf g.labels.stem n) ∧
        ∀ out, out.Perm g.labels.missing ∧
          out.Pairwise (fun a b => g.labels.ordinal a ≤ g.labels.ordinal b) ↔ out = ls := by
  refine ⟨exists_ran, fun es g ran c mem => ?_⟩
  have h := Sound.history ran.history
  obtain ⟨carried, refused⟩ := ends_complete (g := g) mem
  refine ⟨fun r ok => ?_, fun place ls error => ?_⟩
  · have none := carried r ok
    rw [h.pending_eq, List.filter_eq_nil_iff] at none
    simpa using none
  · obtain ⟨rfl, some⟩ := refused place ls error
    exact ⟨some, nodup_pending, h.pending_eq, pairwise_pending _, fun out => h.sorted_iff⟩

theorem refusals_name_missing_ten :
    let as := [Call.programStart, .beginMain, .reserve 11, .define "L3"].map Action.call
    let ls := ["L0", "L1", "L2", "L4", "L5", "L6", "L7", "L8", "L9", "L10"]
    ∃ es g, Ran (.new "P" .standard) as es g ∧
      (g.step .endMain).1 = .error (.undefinedLabels "method main" ls) ∧
      "L10" < "L9" ∧ ls = (handed es).filter (fun l => .defined l ∉ es) := by
  intro as ls
  obtain ⟨⟨es, ran⟩, all⟩ := refusals_name_missing "P" .standard as
  have refused : ((as.foldl act (.new "P" .standard)).step .endMain).1 =
      .error (.undefinedLabels "method main" ls) := by decide +kernel
  exact ⟨es, _, ran, refused, by decide +kernel,
    ((all es _ ran .endMain (by simp)).2 _ _ refused).2.2.1⟩

end Generator

end Jasm.Assembly

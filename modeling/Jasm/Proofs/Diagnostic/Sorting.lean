import Mathlib.Data.List.Sort
import Mathlib.Data.Prod.Lex
import Mathlib.Data.String.Basic
import Jasm.Sorted

/-!
# Sorting

A list is sorted by the keys of its items, and items of the same key stay in their order. There is
only one way to do this, and how the keys follow each other afterwards does not depend on the order
in which the items stood before.
-/

namespace Jasm

open List

theorem ite_ne_lt {α β : Type} [LinearOrder α] [LinearOrder β] (a b : α) (x y : β)
    [Decidable (a ≠ b)] [Decidable (a < b)] [Decidable (x < y)]
    [Decidable (toLex (a, x) < toLex (b, y))] :
    (if a ≠ b then decide (a < b) else decide (x < y)) = decide (toLex (a, x) < toLex (b, y)) := by
  by_cases h : a = b <;> simp [h, Prod.Lex.toLex_lt_toLex]

theorem map_eq_of_keys {α κ β : Type} {key : α → κ} {f : α → β} {xs ys : List α}
    (keys : xs.map key = ys.map key) (h : ∀ x ∈ xs, ∀ y ∈ ys, key x = key y → f x = f y) :
    xs.map f = ys.map f := by
  induction xs generalizing ys with
  | nil => cases ys <;> simp_all
  | cons x xs ih =>
    cases ys with
    | nil => cases keys
    | cons y ys =>
      obtain ⟨first, rest⟩ := List.cons.inj keys
      rw [map_cons, map_cons, h x (by simp) y (by simp) first,
        ih rest fun x hx y hy => h x (by simp [hx]) y (by simp [hy])]

variable {α κ : Type} [LinearOrder κ] {key : α → κ} {xs xs' ys zs : List α}

/-- A rearrangement in the order of keys that leaves items of the same key in their order. -/
structure StablySorted (key : α → κ) (xs ys : List α) : Prop where
  perm : ys.Perm xs
  ordered : ys.Pairwise fun x y => key x ≤ key y
  stable : ∀ k, ys.filter (key · = k) = xs.filter (key · = k)

theorem stablySorted_mergeSort {le : α → α → Bool} (h : ∀ x y, le x y = decide (key x ≤ key y))
    {xs : List α} : StablySorted key xs (xs.mergeSort le) := by
  have trans : ∀ x y z, le x y = true → le y z = true → le x z = true := by
    simp only [h, decide_eq_true_eq]
    exact fun _ _ _ => le_trans
  have total : ∀ x y, (le x y || le y x) = true := by
    simp only [h, Bool.or_eq_true, decide_eq_true_eq]
    exact fun _ _ => le_total _ _
  have perm := xs.mergeSort_perm le
  refine ⟨perm, ?_, fun k => ?_⟩
  · exact (pairwise_mergeSort trans total xs).imp fun {x y} le => by simpa [h] using le
  · -- Items of one key are in order already, so sorting keeps them as a sublist.
    have level : (xs.filter (key · = k)).Pairwise fun x y => le x y = true := by
      rw [pairwise_filter]
      refine pairwise_of_forall fun x y hx hy => ?_
      rw [decide_eq_true_eq] at hx hy
      rw [h, hx, hy, decide_eq_true_eq]
    have kept := (sublist_mergeSort trans total level filter_sublist).filter (key · = k)
    rw [filter_filter] at kept
    simp only [Bool.and_self] at kept
    exact (kept.eq_of_length (perm.filter _).length_eq.symm).symm

theorem StablySorted.unique (h : StablySorted key xs ys) (h' : StablySorted key xs zs) :
    ys = zs := by
  have same k := (h.stable k).trans (h'.stable k).symm
  have perm := h.perm.trans h'.perm.symm
  have order := h.ordered
  have order' := h'.ordered
  clear h h'
  -- The heads have the least key, and of the items with this key both are the first one.
  induction ys generalizing zs with
  | nil => exact perm.nil_eq
  | cons y ys ih =>
    cases zs with
    | nil => exact perm.eq_nil
    | cons z zs =>
      have keys : key y = key z := by
        refine le_antisymm ?_ ?_
        · rcases mem_cons.mp (perm.mem_iff.mpr (mem_cons_self (a := z))) with rfl | mem
          · rfl
          · exact rel_of_pairwise_cons order mem
        · rcases mem_cons.mp (perm.mem_iff.mp (mem_cons_self (a := y))) with rfl | mem
          · rfl
          · exact rel_of_pairwise_cons order' mem
      have heads := same (key z)
      rw [filter_cons_of_pos (by simp [keys]), filter_cons_of_pos (by simp)] at heads
      obtain ⟨rfl, -⟩ := List.cons.inj heads
      refine congrArg (y :: ·) (ih (fun k => ?_) perm.cons_inv order.of_cons order'.of_cons)
      have tails := same k
      simp only [filter_cons] at tails
      split at tails
      · exact (List.cons.inj tails).2
      · exact tails

theorem StablySorted.map_eq (h : StablySorted key xs ys) (h' : StablySorted key xs' zs)
    (perm : (xs.map key).Perm (xs'.map key)) : ys.map key = zs.map key := by
  have ordered : (ys.map key).Pairwise (· ≤ ·) := pairwise_map.mpr h.ordered
  exact (((h.perm.map key).trans perm).trans (h'.perm.map key).symm).eq_of_pairwise
    (fun _ _ _ _ => le_antisymm) ordered (pairwise_map.mpr h'.ordered)

/-! ## Sorting by insertion -/

section

variable {α : Type} {key : α → String} {x y : α} {l xs : List α}

theorem forall_mem_insertBy {P : α → Prop} (first : P x) (others : ∀ z ∈ l, P z) :
    ∀ z ∈ insertBy key x l, P z := by
  induction l with
  | nil => exact forall_mem_singleton.mpr first
  | cons z rest ih =>
    rw [forall_mem_cons] at others
    rw [insertBy]
    split
    · exact forall_mem_cons.mpr ⟨first, others.2⟩
    · split
      · exact forall_mem_cons.mpr ⟨first, forall_mem_cons.mpr others⟩
      · exact forall_mem_cons.mpr ⟨others.1, ih others.2⟩

theorem mem_insertBy (same : ∀ z ∈ l, key x = key z → x = z) :
    y ∈ insertBy key x l ↔ y = x ∨ y ∈ l := by
  induction l with
  | nil => exact mem_cons
  | cons z rest ih =>
    rw [forall_mem_cons] at same
    rw [insertBy]
    split
    · next h => simp [same.1 h]
    · split
      · exact mem_cons
      · rw [mem_cons, ih same.2, mem_cons, or_left_comm]

theorem pairwise_insertBy (sorted : l.Pairwise (key · < key ·)) (x : α) :
    (insertBy key x l).Pairwise (key · < key ·) := by
  induction l with
  | nil => exact pairwise_singleton _ _
  | cons z rest ih =>
    obtain ⟨first, others⟩ := pairwise_cons.mp sorted
    rw [insertBy]
    split
    · next h => exact pairwise_cons.mpr ⟨fun y hy => h ▸ first y hy, others⟩
    · next other =>
        split
        · next before =>
            exact pairwise_cons.mpr ⟨forall_mem_cons.mpr
              ⟨before, fun y hy => before.trans (first y hy)⟩, sorted⟩
        · next behind =>
            have after := lt_of_le_of_ne (not_lt.mp behind) (Ne.symm other)
            exact pairwise_cons.mpr ⟨forall_mem_insertBy after first, ih others⟩

theorem pairwise_sortBy {key : α → String} {xs : List α} :
    (sortBy key xs).Pairwise (key · < key ·) := by
  induction xs with
  | nil => exact .nil
  | cons x rest ih => exact pairwise_insertBy ih x

theorem mem_sortBy (same : ∀ x ∈ xs, ∀ y ∈ xs, key x = key y → x = y) (y : α) :
    y ∈ sortBy key xs ↔ y ∈ xs := by
  induction xs generalizing y with
  | nil => exact Iff.rfl
  | cons x rest ih =>
    have ih := ih fun x hx y hy => same x (by simp [hx]) y (by simp [hy])
    have inserted : y ∈ insertBy key x (sortBy key rest) ↔ _ :=
      mem_insertBy fun z hz => same x (by simp) z (by simp [(ih z).mp hz])
    rw [mem_cons, ← ih]
    exact inserted

/-- There is only one sorted list of some items. -/
theorem sortBy_eq (same : ∀ x ∈ xs, ∀ y ∈ xs, key x = key y → x = y)
    (sorted : l.Pairwise (key · < key ·)) (h : ∀ x, x ∈ l ↔ x ∈ xs) : sortBy key xs = l := by
  have : Std.Antisymm (key · < key ·) := ⟨fun _ _ h h' => (lt_asymm h h').elim⟩
  have : Std.Irrefl (key · < key ·) := ⟨fun _ => lt_irrefl _⟩
  exact pairwise_sortBy.eq_of_mem_iff sorted fun x => (mem_sortBy same x).trans (h x).symm

end

end Jasm

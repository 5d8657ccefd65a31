import Mathlib.Order.OrderDual
import Jasm.Proofs.Diagnostic.Repetitions
import Jasm.Proofs.Diagnostic.Reporting
import Jasm.Proofs.Diagnostic.Sorting

/-!
# Bags that change

Findings are added to bags, bags are taken in by other bags or by themselves, sorted and freed from
repetitions, in any order. No bag ever holds more than its limit, no limit ever falls or passes the
greatest one, and a bag that takes in another one loses nothing unless the two are too many
together.
-/

namespace Jasm.Bag

open List Array
open OrderDual (toDual toDual_inj)

/-! ## Sorting -/

/-- What findings are sorted by: file, statement, severity from worst to mildest, code. -/
def sortKey (d : Diagnostic) : String ×ₗ ℤ ×ₗ ℕᵒᵈ ×ₗ ℕ :=
  toLex (d.place.file, toLex (d.place.index,
    toLex (toDual d.severity.rank, d.code.number.toNat)))

theorem precedes_eq (a b : Diagnostic) : precedes a b = decide (sortKey a < sortKey b) := by
  have ranks : a.severity ≠ b.severity ↔ toDual a.severity.rank ≠ toDual b.severity.rank :=
    not_congr ⟨fun h => by rw [h], fun h => by
      rw [← a.severity.ofRank_rank, toDual_inj.mp h, Severity.ofRank_rank]⟩
  have worse : b.severity.rank < a.severity.rank ↔
    toDual a.severity.rank < toDual b.severity.rank := .rfl
  have codes : a.code.number < b.code.number ↔ a.code.number.toNat < b.code.number.toNat := .rfl
  simp only [precedes, ranks, worse, codes, ite_ne_lt]
  rfl

theorem stablySorted_sort (b : Bag) : StablySorted sortKey b.items.toList b.sort.items.toList :=
  stablySorted_mergeSort (fun x y => by simp only [precedes_eq, ← decide_not, not_lt])

/-! ## Steps -/

/-- Findings never exceed the limit, and the limit never exceeds the greatest one. -/
structure Bounded (b : Bag) : Prop where
  size : b.size ≤ b.limit
  limit : b.limit ≤ 65535

/-- What is done to a bag; it may take in one of the bags with a name. -/
inductive Change (ι : Type) where
  | add (d : Diagnostic)
  | merge (other : Option ι)
  | sort
  | dedup

variable {ι : Type} {bags : ι → Bag} {b : Bag}

def changed (bags : ι → Bag) (b : Bag) : Change ι → Bag
  | .add d => (b.add d).1
  | .merge other => b.merge (other.map bags)
  | .sort => b.sort
  | .dedup => b.dedup

theorem bounded_new (max : Int) : (new max).Bounded := ⟨Nat.zero_le _, Nat.min_le_right _ _⟩

theorem length_firsts_le {α κ : Type} [DecidableEq κ] {key : α → κ} (xs : List α) :
    (firsts key xs).length ≤ xs.length := by
  rw [firsts, length_map]
  exact (length_filter_le _ _).trans_eq length_zipIdx

theorem bounded_changed (h : b.Bounded) (c : Change ι) :
    (changed bags b c).Bounded ∧ b.limit ≤ (changed bags b c).limit := by
  cases c with
  | add d =>
    rw [changed]
    by_cases room : b.size < b.limit
    · rw [add_of_lt room]
      refine ⟨⟨?_, h.limit⟩, Nat.le_refl _⟩
      simpa only [Bag.size, size_push, Nat.succ_le_iff] using room
    · rw [add_of_not_lt room]
      exact ⟨h, Nat.le_refl _⟩
  | merge other =>
    cases other with
    | none => exact ⟨h, Nat.le_refl _⟩
    | some i =>
      have size := h.size
      have limit := h.limit
      refine ⟨⟨?_, Nat.max_le.mpr ⟨limit, Nat.min_le_right _ _⟩⟩, Nat.le_max_left _ _⟩
      simp only [changed, merge, Option.map_some, Bag.size, size_append, size_extract]
      simp only [Bag.size] at size
      omega
  | sort =>
    refine ⟨⟨?_, h.limit⟩, Nat.le_refl _⟩
    have length := (stablySorted_sort b).perm.length_eq
    simp only [length_toList] at length
    exact length.trans_le h.size
  | dedup =>
    simp only [changed, dedup_eq]
    exact ⟨⟨(length_firsts_le _).trans h.size, h.limit⟩, Nat.le_refl _⟩

theorem items_add (b : Bag) (d : Diagnostic) :
    (b.add d).1.items.toList = b.items.toList ++ [d].take (b.limit - b.size) := by
  by_cases room : b.size < b.limit
  · rw [add_of_lt room, take_of_length_le (by rw [length_singleton]; omega)]
    exact toList_push
  · rw [add_of_not_lt room, Nat.sub_eq_zero_of_le (Nat.le_of_not_lt room), take_zero,
      append_nil]

theorem items_merge (h : b.Bounded) (other : Bag) :
    (b.merge (some other)).items.toList =
      b.items.toList ++ other.items.toList.take (65535 - b.size) := by
  have size := h.size
  have limit := h.limit
  simp only [merge, toList_append, toList_extract, extract_eq_take_drop,
    drop_zero, Nat.sub_zero, append_cancel_left_eq, maxLimit]
  rw [take_eq_take_iff, length_toList]
  simp only [Bag.size] at *
  omega

/-! ## Runs -/

variable [DecidableEq ι]

/-- A change of the bag with a name. -/
def step (bags : ι → Bag) (s : ι × Change ι) : ι → Bag :=
  Function.update bags s.1 (changed bags (bags s.1) s.2)

/-- A change keeps all bags within their bounds. -/
theorem bounded_step (h : ∀ i, (bags i).Bounded) {s : ι × Change ι} {i : ι} :
    (step bags s i).Bounded ∧ (bags i).limit ≤ (step bags s i).limit := by
  unfold step
  rcases eq_or_ne i s.1 with rfl | other
  · rw [Function.update_self]
    exact bounded_changed (h _) _
  · rw [Function.update_of_ne other]
    exact ⟨h i, Nat.le_refl _⟩

/-- So do several changes, by induction on them. -/
theorem bounded_steps (h : ∀ i, (bags i).Bounded) {ss : List (ι × Change ι)} :
    ∀ i, (ss.foldl step bags i).Bounded := by
  induction ss generalizing bags with
  | nil => exact h
  | cons s rest ih => exact ih fun i => (bounded_step h).1

/-- Bags that are made with any limits and then changed in any way keep their bounds, and each
further change lowers no limit. A finding comes behind those a bag holds, if its limit allows it,
and so do those of another bag, up to as many as any bag can hold. Sorting a bag gives the only
stable rearrangement of what it holds, a second time it changes nothing, and two bags are sorted to
the same keys exactly if they hold the same keys in some order. -/
theorem changes_keep_bounds (limits : ι → Int) (ss : List (ι × Change ι)) :
    let bags := ss.foldl step fun i => new (limits i)
    (∀ i, (bags i).size ≤ (bags i).limit ∧ (bags i).limit ≤ 65535) ∧
      (∀ s i, (bags i).limit ≤ (step bags s i).limit) ∧
      (∀ i d, ((bags i).add d).1.items.toList =
        (bags i).items.toList ++ [d].take ((bags i).limit - (bags i).size)) ∧
      (∀ i, (bags i).merge none = bags i) ∧
      (∀ i j, ((bags i).merge (some (bags j))).items.toList =
        (bags i).items.toList ++ (bags j).items.toList.take (65535 - (bags i).size)) ∧
      (∀ i items, StablySorted sortKey (bags i).items.toList items ↔
        items = (bags i).sort.items.toList) ∧
      (∀ i, (bags i).sort.sort = (bags i).sort) ∧
      ∀ i j, (bags i).sort.items.toList.map sortKey = (bags j).sort.items.toList.map sortKey ↔
        ((bags i).items.toList.map sortKey).Perm ((bags j).items.toList.map sortKey) := by
  intro bags
  have bounded : ∀ i, (bags i).Bounded := bounded_steps (fun i => bounded_new _)
  refine ⟨fun i => ⟨(bounded i).size, (bounded i).limit⟩, fun s i => (bounded_step bounded).2,
    fun i => items_add _, fun _ => rfl, fun i j => items_merge (bounded i) _, fun i items => ?_,
    fun i => ?_, fun i j => ?_⟩
  · refine ⟨fun h => h.unique (stablySorted_sort _), ?_⟩
    rintro rfl
    exact stablySorted_sort _
  · have again : (bags i).sort.sort.items.toList = (bags i).sort.items.toList := by
      refine (stablySorted_sort _).unique ⟨.refl _, (stablySorted_sort _).ordered, fun _ => rfl⟩
    exact congrArg (Bag.mk · _) (Array.toList_inj.mp again)
  · refine ⟨fun same => ?_, (stablySorted_sort _).map_eq (stablySorted_sort _)⟩
    have perm := ((stablySorted_sort (bags i)).perm.map sortKey).symm
    rw [same] at perm
    exact perm.trans ((stablySorted_sort (bags j)).perm.map sortKey)

end Jasm.Bag

import Std.Data.String.ToInt
import Mathlib.Data.List.Nodup
import Jasm.Diagnostic.Bag
import Jasm.Proofs.Text.Separators

/-!
# Dropping repetitions

Of findings that repeat each other the first one is kept, and those that are kept stay in their
order. What counts as a repetition is told by one text, which lists the code as it is shown, the
place as it is shown, the number of the statement and the message, with colons between them.

Findings that agree in all of these have the same text. The converse needs more: a code in use, and
a file and a path that are there and contain no colon. Otherwise two findings can share their text
although they are about different places or of different codes, and one of them is lost.
-/

namespace Jasm

open List String

/-! ## The first of each kind -/

section

variable {α κ : Type} [DecidableEq κ] (key : α → κ) {items : List α}

/-- The items that have another key than all items before them. -/
def firsts (items : List α) : List α :=
  (items.zipIdx.filter fun item => key item.1 ∉ (items.take item.2).map key).map (·.1)

theorem firsts_concat (items : List α) (x : α) :
    firsts key (items ++ [x]) =
      firsts key items ++ if key x ∈ items.map key then [] else [x] := by
  have early : ∀ item ∈ items.zipIdx, (items ++ [x]).take item.2 = items.take item.2 := by
    intro item mem
    have lt := snd_lt_of_mem_zipIdx mem
    exact take_append_of_le_length (by omega)
  unfold firsts
  rw [zipIdx_append, filter_append, map_append, filter_congr fun item mem => by
    rw [early item mem]]
  congr 1
  simp only [zipIdx_singleton, Nat.zero_add, filter_cons, filter_nil,
    take_left]
  by_cases h : key x ∈ items.map key <;> simp [h]

theorem mem_map_firsts {k : κ} :
    k ∈ (firsts key items).map key ↔ k ∈ items.map key := by
  induction items using List.reverseRecOn with
  | nil => rfl
  | append_singleton items x ih =>
    rw [firsts_concat, map_append, map_append, mem_append, mem_append, ih]
    split
    · next known =>
        rw [map_singleton, mem_singleton]
        refine ⟨.imp_right fun h => absurd h not_mem_nil, ?_⟩
        rintro (h | rfl)
        · exact .inl h
        · exact .inl known
    · rfl

theorem nodup_map_firsts (items : List α) : ((firsts key items).map key).Nodup := by
  induction items using List.reverseRecOn with
  | nil => exact nodup_nil
  | append_singleton items x ih =>
    rw [firsts_concat]
    split
    · rwa [append_nil]
    · next new =>
        rw [map_append, map_singleton, nodup_append]
        refine ⟨ih, nodup_singleton _, fun k hk k' hk' => ?_⟩
        rw [mem_singleton.mp hk']
        rintro rfl
        exact new ((mem_map_firsts key).mp hk)

theorem firsts_of_nodup (h : (items.map key).Nodup) : firsts key items = items := by
  induction items using List.reverseRecOn with
  | nil => rfl
  | append_singleton items x ih =>
    rw [map_append, map_singleton, nodup_append] at h
    have new : key x ∉ items.map key := fun mem => h.2.2 _ mem _ mem_cons_self rfl
    rw [firsts_concat, ih h.1, if_neg new]

theorem eq_firsts {σ : Type} (known : σ → κ → Bool) (learn : σ → κ → σ) {walk : σ → List α → List α}
    (nil : ∀ s, walk s [] = [])
    (cons : ∀ s x rest, walk s (x :: rest) =
      if known s (key x) then walk s rest else x :: walk (learn s (key x)) rest)
    (learns : ∀ s k k', known (learn s k) k' = (k == k' || known s k'))
    (s : σ) (nothing : ∀ k, known s k = false) : walk s items = firsts key items := by
  have concat (s : σ) (items : List α) (x : α) : walk s (items ++ [x]) = walk s items ++
      if known s (key x) ∨ key x ∈ items.map key then [] else [x] := by
    induction items generalizing s with
    | nil => simp [cons, nil]
    | cons y rest ih =>
      rw [cons_append, cons, cons, ih, ih]
      split <;> grind
  induction items using List.reverseRecOn with
  | nil => exact nil s
  | append_singleton items x ih => simp [concat, firsts_concat, ih, nothing]

theorem firsts_congr {key : α → κ} {κ' : Type} [DecidableEq κ'] {key' : α → κ'}
    (h : ∀ x ∈ items, ∀ y ∈ items, key x = key y ↔ key' x = key' y) :
    firsts key items = firsts key' items := by
  unfold firsts
  congr 1
  refine filter_congr fun item mem => ?_
  have here : item.1 ∈ items := fst_mem_of_mem_zipIdx mem
  rw [decide_eq_decide, not_iff_not, mem_map, mem_map]
  exact exists_congr fun x => and_congr_right fun hx => h x (mem_of_mem_take hx) _ here

end

/-! ## The text that tells findings apart -/

namespace Bag

/-- What makes a finding the same as another one. -/
def identity (d : Diagnostic) : Code × Place × String := (d.code, d.place, d.message)

/-- A finding of a code in use, at a place whose text can be taken apart. -/
structure Clear (d : Diagnostic) : Prop where
  code : 2000 ≤ d.code.number.toNat ∧ d.code.number.toNat < 7000
  file : d.place.file ≠ "" ∧ ':' ∉ d.place.file.toList
  path : d.place.path ≠ "" ∧ ':' ∉ d.place.path.toList

theorem notMem_id {c : Code} : ':' ∉ c.id.toList := by
  have area (name : String) (h : ':' ∉ name.toList) :
      ':' ∉ (name ++ toString c.number.toNat).toList := by
    rw [toList_append, mem_append, not_or]
    exact ⟨h, Text.notMem_nat rfl⟩
  unfold Code.id
  split <;> first | exact area _ (by decide) | decide

theorem digits_id {c : Code} (h : 2000 ≤ c.number.toNat ∧ c.number.toNat < 7000) :
    c.id.toList.filter Char.isDigit = (toString c.number.toNat).toList := by
  have number : (toString c.number.toNat).toList.filter Char.isDigit = _ :=
    filter_eq_self.mpr fun x hx => Bool.of_not_eq_false fun no => Text.notMem_nat no hx
  have area (name : String) (h : name.toList.filter Char.isDigit = []) :
      (name ++ toString c.number.toNat).toList.filter Char.isDigit =
        (toString c.number.toNat).toList := by
    rw [toList_append, filter_append, h, number, nil_append]
  have areas : c.number.toNat / 1000 = 2 ∨ c.number.toNat / 1000 = 3 ∨ c.number.toNat / 1000 = 4 ∨
      c.number.toNat / 1000 = 5 ∨ c.number.toNat / 1000 = 6 := by omega
  unfold Code.id
  rcases areas with h | h | h | h | h <;> rw [h] <;> exact area _ (by decide)

theorem id_injective {c c' : Code} (h : 2000 ≤ c.number.toNat ∧ c.number.toNat < 7000)
    (h' : 2000 ≤ c'.number.toNat ∧ c'.number.toNat < 7000) (same : c.id = c'.id) : c = c' := by
  have numbers := digits_id h
  rw [same, digits_id h'] at numbers
  have number := Nat.repr_injective (toList_inj.mp numbers)
  cases c
  cases c'
  exact congrArg Code.mk (UInt16.toNat_inj.mp number.symm)

theorem toList_dedupKey (d : Diagnostic) : (dedupKey d).toList = d.code.id.toList ++ ':' ::
    (d.place.text.toList ++
      ':' :: ((toString d.place.index).toList ++ ':' :: d.message.toList)) := by
  have text : dedupKey d = d.code.id ++ ":" ++ d.place.text ++ ":" ++
    toString d.place.index ++ ":" ++
    d.message := rfl
  rw [text]
  simp

theorem dedupKey_eq_iff {x y : Diagnostic} (hx : Clear x) (hy : Clear y) :
    dedupKey x = dedupKey y ↔ identity x = identity y := by
  have place {d : Diagnostic} (h : Clear d) :
      d.place.text.toList = d.place.file.toList ++ ':' :: d.place.path.toList := by
    rw [Place.text, if_neg (by simp [h.file.1]), if_neg h.path.1, if_neg h.file.1]
    show (d.place.file ++ ":" ++ d.place.path).toList = _
    simp
  constructor
  · intro same
    have chars := congrArg String.toList same
    rw [toList_dedupKey, toList_dedupKey, place hx, place hy, List.append_assoc, List.append_assoc,
      cons_append, cons_append] at chars
    obtain ⟨id, chars⟩ := Text.split_at notMem_id notMem_id chars
    obtain ⟨file, chars⟩ := Text.split_at hx.file.2 hy.file.2 chars
    obtain ⟨path, chars⟩ := Text.split_at hx.path.2 hy.path.2 chars
    have number (n : Int) : ':' ∉ (toString n).toList := Text.notMem_int rfl (by decide)
    obtain ⟨index, message⟩ := Text.split_at (number _) (number _) chars
    have places : x.place = y.place := by
      show (⟨x.place.file, x.place.index, x.place.path⟩ : Place) = ⟨_, _, _⟩
      rw [toList_inj.mp file, Int.repr_injective (toList_inj.mp index),
        toList_inj.mp path]
    rw [identity, identity, id_injective hx.code hy.code (toList_inj.mp id), places,
      toList_inj.mp message]
  · intro same
    simp only [identity, Prod.mk.injEq] at same
    simp only [dedupKey, same]

/-! ## Bags -/

theorem dedup_eq {b : Bag} :
    b.dedup = { b with items := (firsts dedupKey b.items.toList).toArray } := by
  have all : dedupItems ∅ b.items.toList = firsts dedupKey b.items.toList :=
    eq_firsts dedupKey (·.contains ·) (·.insert ·) (fun _ => rfl) (fun _ _ _ => rfl)
      (fun _ _ _ => Std.HashSet.contains_insert) _ (by simp)
  rw [dedup, all]

/-- Repetitions are dropped by the text that tells findings apart, once and for all. Findings that
are the same share this text, and if all codes are in use and all places clear, no others do. -/
theorem dedup_keeps_firsts (b : Bag) :
    b.dedup = { b with items := (firsts dedupKey b.items.toList).toArray } ∧
      b.dedup.dedup = b.dedup ∧
      (∀ x y, identity x = identity y → dedupKey x = dedupKey y) ∧
      ((∀ d ∈ b.items.toList, Clear d) →
        b.dedup.items.toList = firsts identity b.items.toList) := by
  refine ⟨dedup_eq, ?_, fun x y same => ?_, fun clear => ?_⟩
  · rw [dedup_eq, dedup_eq, firsts_of_nodup dedupKey (nodup_map_firsts dedupKey _)]
  · simp only [identity, Prod.mk.injEq] at same
    simp only [dedupKey, same]
  · rw [dedup_eq]
    exact firsts_congr fun x hx y hy => dedupKey_eq_iff (clear x hx) (clear y hy)

/-- Three findings at one statement, two of which are the same. -/
theorem dedup_keeps_firsts_twice :
    let x : Diagnostic := .error .semaDuplicateSymbol ⟨"a.toml", 1, "main/body[1]"⟩ "d"
    let y : Diagnostic := .error .semaTypeMismatch ⟨"a.toml", 1, "main/body[1]"⟩ "d"
    let b : Bag := { items := #[x, y, x], limit := 10 }
    (∀ d ∈ b.items.toList, Clear d) ∧ b.dedup.items.toList = [x, y] := by
  intro x y b
  have clear : ∀ d ∈ b.items.toList, Clear d := by
    intro d hd
    simp only [b, List.mem_cons, List.not_mem_nil, or_false] at hd
    rcases hd with rfl | rfl | rfl <;> exact ⟨by decide, by decide, by decide⟩
  exact ⟨clear, ((dedup_keeps_firsts b).2.2.2 clear).trans (by decide)⟩

/-- Findings about two files, and findings of two codes, share their text. -/
theorem dedup_merges_different :
    let x : Diagnostic := .error .semaUnresolvedSymbol ⟨"a:b", 1, "c"⟩ "m"
    let y : Diagnostic := .error .semaUnresolvedSymbol ⟨"a", 1, "b:c"⟩ "m"
    let u : Diagnostic := .error ⟨1⟩ ⟨"a", 1, "c"⟩ "m"
    let v : Diagnostic := .error ⟨2⟩ ⟨"a", 1, "c"⟩ "m"
    ({ items := #[x, y, u, v], limit := 10 } : Bag).dedup.items.toList = [x, u] ∧
      x.place.file ≠ y.place.file ∧ u.code ≠ v.code := by
  intro x y u v
  rw [dedup_eq]
  decide

end Bag

end Jasm

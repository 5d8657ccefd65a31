import Mathlib.Data.List.Infix

/-!
# Text between separators

A text that is put together with separators can be taken apart again at every part that contains
none. Numbers contain nothing but digits and a sign.
-/

namespace Jasm.Text

theorem split_at {α : Type} {mark : α} {x y s t : List α} (hx : mark ∉ x) (hy : mark ∉ y)
    (h : x ++ mark :: s = y ++ mark :: t) : x = y ∧ s = t := by
  rcases List.append_eq_append_iff.mp h with ⟨more, rfl, rest⟩ | ⟨more, rfl, rest⟩
  · cases more with
    | nil => exact ⟨(List.append_nil x).symm, (List.cons.inj rest).2⟩
    | cons a more => exact absurd (List.cons.inj rest).1 fun e => hy (by simp [e])
  · cases more with
    | nil => exact ⟨List.append_nil y, (List.cons.inj rest).2.symm⟩
    | cons a more => exact absurd (List.cons.inj rest).1 fun e => hx (by simp [e])

theorem notMem_nat {c : Char} (h : c.isDigit = false) {n : Nat} : c ∉ (toString n).toList := by
  intro mem
  have digits : c ∈ Nat.toDigits 10 n := by simpa [Nat.repr] using mem
  rw [Nat.isDigit_of_mem_toDigits (by decide) (by decide) digits] at h
  cases h

theorem notMem_int {c : Char} (h : c.isDigit = false) (sign : c ≠ '-') {n : Int} :
    c ∉ (toString n).toList := by
  rw [Int.toString_eq_repr]
  cases n with
  | ofNat m => exact notMem_nat h
  | negSucc m =>
    rw [Int.repr, String.toList_append, List.mem_append, not_or]
    exact ⟨List.mem_singleton.not.mpr sign, notMem_nat h⟩

end Jasm.Text

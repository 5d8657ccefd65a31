import Std.Data.String.ToInt
import Jasm.Cache.Basic
import Jasm.Proofs.Text.Separators

/-!
# What a key is made from

The text that a key is made from lists the options with a bar behind each of them, then comes the
source. Numbers and truth values contain no bar. If the stem of labels contains none either, the
text can be taken apart again, so that it determines the options and the source.

A stem with a bar in it can stand for more than one option. Two compilations then share their text,
and so their key, exactly if the longer stem goes on like the text behind the shorter one
(`Shifted`).
-/

namespace Jasm.Cache

open List

/-! ## Bytes of text -/

theorem toList_eq_data (b : ByteArray) : b.toList = b.data.toList := by
  have loop (i : Nat) (r : List UInt8) :
      ByteArray.toList.loop b i r = r.reverse ++ b.data.toList.drop i := by
    induction h : b.size - i generalizing i r with
    | zero =>
      rw [ByteArray.toList.loop, if_neg (by omega), drop_eq_nil_of_le, append_nil]
      simp only [Array.length_toList, ByteArray.size_data]
      omega
    | succ n ih =>
      have lt : i < b.size := by omega
      rw [ByteArray.toList.loop, if_pos lt, ih (i + 1) _ (by omega), reverse_cons,
        append_assoc]
      congr 1
      have lt' : i < b.data.toList.length := by simpa using lt
      rw [drop_eq_getElem_cons lt']
      simp [ByteArray.get!, lt]
  exact loop 0 []

theorem toList_toUTF8 (s : String) : s.toUTF8.toList = s.toList.flatMap String.utf8EncodeChar := by
  rw [toList_eq_data, String.toUTF8_eq_toByteArray, ← String.utf8Encode_toList, List.utf8Encode,
    data_toByteArray]

theorem eq_bar_of_mem {c : Char} (h : 124 ∈ String.utf8EncodeChar c) : c = '|' := by
  have small {n : Nat} (hn : 128 ≤ n) (hn' : n < 256) : (124 : UInt8) ≠ UInt8.ofNat n := by
    intro e
    have values : 124 = n % 256 := (congrArg UInt8.toNat e).trans UInt8.toNat_ofNat'
    omega
  unfold String.utf8EncodeChar at h
  dsimp only at h
  split at h
  · next hc =>
      have values : 124 = c.val.toNat % 256 :=
        (congrArg UInt8.toNat (mem_singleton.mp h)).trans UInt8.toNat_ofNat'
      refine Char.ext (UInt32.toNat_inj.mp ?_)
      show c.val.toNat = 124
      omega
  · exfalso
    split at h
    · simp only [mem_cons, not_mem_nil, or_false] at h
      rcases h with h | h <;> exact small (by omega) (by omega) h
    · split at h
      · simp only [mem_cons, not_mem_nil, or_false] at h
        rcases h with h | h | h <;> exact small (by omega) (by omega) h
      · simp only [mem_cons, not_mem_nil, or_false] at h
        rcases h with h | h | h | h <;> exact small (by omega) (by omega) h

def BarFree (s : String) : Prop := '|' ∉ s.toList

theorem notMem_of_barFree {s : String} (h : BarFree s) : 124 ∉ s.toUTF8.toList := by
  rw [toList_toUTF8, mem_flatMap]
  rintro ⟨c, hc, hb⟩
  exact h (eq_bar_of_mem hb ▸ hc)

theorem toUTF8_toList_injective {s t : String} (h : s.toUTF8.toList = t.toUTF8.toList) : s = t := by
  rw [toList_eq_data, toList_eq_data] at h
  exact String.toByteArray_inj.mp (ByteArray.ext (Array.toList_inj.mp h))

theorem toList_toUTF8_append (s t : String) :
    (s ++ t).toUTF8.toList = s.toUTF8.toList ++ t.toUTF8.toList := by
  rw [toList_toUTF8, toList_toUTF8, toList_toUTF8, String.toList_append, flatMap_append]

/-! ## Taking a key apart -/

theorem split_option {s t : String} (hs : BarFree s) (ht : BarFree t) {rest rest' : List UInt8}
    (h : s.toUTF8.toList ++ 124 :: rest = t.toUTF8.toList ++ 124 :: rest') :
    s = t ∧ rest = rest' := by
  obtain ⟨hst, hrest⟩ := Text.split_at (notMem_of_barFree hs) (notMem_of_barFree ht) h
  exact ⟨toUTF8_toList_injective hst, hrest⟩

theorem barFree_int {n : Int} : BarFree (toString n) := Text.notMem_int rfl (by decide)

theorem barFree_bool {b : Bool} : BarFree (toString b) := by
  cases b <;> simp [BarFree, toString]

theorem toString_bool_injective : ∀ {a b : Bool}, toString a = toString b → a = b := by
  decide

theorem keyBytes_eq (source : List UInt8) (o : Assembly.Options) :
    keyBytes source o = Packed.bigEndian 2 currentLayout ++
      ((toString o.maxStack).toUTF8.toList ++ 124 :: ((toString o.maxLocals).toUTF8.toList ++
        124 :: (o.labelStem.toUTF8.toList ++ 124 :: ((toString o.indent).toUTF8.toList ++
          124 :: source)))) := by
  have bar : "|".toUTF8.toList = [124] := by rw [toList_toUTF8]; rfl
  have options : s!"{o.maxStack}|{o.maxLocals}|{o.labelStem}|{o.indent}|" =
      toString o.maxStack ++ "|" ++ toString o.maxLocals ++ "|" ++ o.labelStem ++ "|" ++
        toString o.indent ++ "|" := rfl
  rw [keyBytes, options]
  simp only [toList_toUTF8_append, bar, append_assoc, cons_append, nil_append]

theorem options_ext {o o' : Assembly.Options} (stack : toString o.maxStack = toString o'.maxStack)
    (locals : toString o.maxLocals = toString o'.maxLocals) (stem : o.labelStem = o'.labelStem)
    (indent : toString o.indent = toString o'.indent) : o = o' := by
  show (⟨o.maxStack, o.maxLocals, o.labelStem, o.indent⟩ : Assembly.Options) =
    ⟨o'.maxStack, o'.maxLocals, o'.labelStem, o'.indent⟩
  rw [Int.repr_injective stack, Int.repr_injective locals, stem, toString_bool_injective indent]

/-! ## Keys that agree -/

/-- The stem of the labels in `o'` goes on behind the one in `o`: with a bar, the truth value that
follows in the text of `o`, and `more`. The source of `o` provides `more` and all that is left of
the text of `o'`. -/
structure Shifted (s : List UInt8) (o : Assembly.Options) (s' : List UInt8)
    (o' : Assembly.Options) : Prop where
  stack : o.maxStack = o'.maxStack
  locals : o.maxLocals = o'.maxLocals
  stem : ∃ more : List UInt8,
    o'.labelStem.toUTF8.toList =
      o.labelStem.toUTF8.toList ++ 124 :: ((toString o.indent).toUTF8.toList ++ more) ∧
    124 :: s = more ++ 124 :: ((toString o'.indent).toUTF8.toList ++ 124 :: s')

section

variable {s s' : List UInt8} {o o' : Assembly.Options}

theorem Shifted.not_barFree (h : Shifted s o s' o') : ¬ BarFree o'.labelStem := by
  obtain ⟨more, stem, -⟩ := h.stem
  intro free
  apply notMem_of_barFree free
  rw [stem]
  exact mem_append_right _ mem_cons_self

theorem Shifted.keyBytes_eq (h : Shifted s o s' o') : keyBytes s o = keyBytes s' o' := by
  obtain ⟨more, stem, source⟩ := h.stem
  rw [Cache.keyBytes_eq, Cache.keyBytes_eq, h.stack, h.locals, stem, source]
  simp only [append_assoc, cons_append]

theorem exists_of_bar {x y rest rest' : List UInt8} (hx : 124 ∉ x)
    (h : x ++ 124 :: rest = y ++ 124 :: rest') :
    ∃ more, y = x ++ more ∧ 124 :: rest = more ++ 124 :: rest' := by
  rcases append_eq_append_iff.mp h with ⟨more, hy, hrest⟩ | ⟨more, hxy, hrest⟩
  · exact ⟨more, hy, hrest⟩
  · cases more with
    | nil => exact ⟨[], by simpa using hxy.symm, by simpa using hrest.symm⟩
    | cons b more =>
      have bar : b = 124 := (List.cons.inj hrest).1.symm
      exact absurd (hxy ▸ bar ▸ mem_append_right y mem_cons_self) hx

theorem shifted_of_stem (stack : o.maxStack = o'.maxStack) (locals : o.maxLocals = o'.maxLocals)
    {more : List UInt8} (stem : o'.labelStem.toUTF8.toList = o.labelStem.toUTF8.toList ++ more)
    (h : 124 :: ((toString o.indent).toUTF8.toList ++ 124 :: s) =
      more ++ 124 :: ((toString o'.indent).toUTF8.toList ++ 124 :: s')) :
    (s = s' ∧ o = o') ∨ Shifted s o s' o' := by
  cases more with
  | nil =>
    obtain ⟨indent, source⟩ :=
      split_option barFree_bool barFree_bool (List.cons.inj h).2
    have same : o.labelStem = o'.labelStem :=
      toUTF8_toList_injective (by rw [stem, append_nil])
    exact .inl ⟨source, options_ext (by rw [stack]) (by rw [locals]) same indent⟩
  | cons b more =>
    obtain ⟨rfl, behind⟩ := List.cons.inj h
    obtain ⟨rest, rfl, source⟩ := exists_of_bar (notMem_of_barFree barFree_bool) behind
    exact .inr ⟨stack, locals, rest, stem, source⟩

theorem keyBytes_eq_iff :
    keyBytes s o = keyBytes s' o' ↔
      (s = s' ∧ o = o') ∨ Shifted s o s' o' ∨ Shifted s' o' s o := by
  constructor
  · intro h
    rw [keyBytes_eq, keyBytes_eq] at h
    replace h := append_cancel_left h
    obtain ⟨stack, h⟩ := split_option barFree_int barFree_int h
    obtain ⟨locals, h⟩ := split_option barFree_int barFree_int h
    replace stack := Int.repr_injective stack
    replace locals := Int.repr_injective locals
    rcases append_eq_append_iff.mp h with ⟨more, stem, h⟩ | ⟨more, stem, h⟩
    · exact (shifted_of_stem stack locals stem h).imp_right .inl
    · rcases shifted_of_stem stack.symm locals.symm stem h with ⟨source, same⟩ | shifted
      · exact .inl ⟨source.symm, same.symm⟩
      · exact .inr (.inr shifted)
  · rintro (⟨rfl, rfl⟩ | shifted | shifted)
    · rfl
    · exact shifted.keyBytes_eq
    · exact shifted.keyBytes_eq.symm

theorem keyBytes_injective (h : keyBytes s o = keyBytes s' o') (hs : BarFree o.labelStem)
    (hs' : BarFree o'.labelStem) : s = s' ∧ o = o' := by
  rcases keyBytes_eq_iff.mp h with same | shifted | shifted
  · exact same
  · exact absurd hs' shifted.not_barFree
  · exact absurd hs shifted.not_barFree

/-- Two compilations whose texts do not collide as hashes have the same key exactly if they have the
same options and the same source, or if one of their stems is shifted against the other. -/
theorem key_eq_iff (noCollision : key s o = key s' o' → keyBytes s o = keyBytes s' o') :
    key s o = key s' o' ↔ (s = s' ∧ o = o') ∨ Shifted s o s' o' ∨ Shifted s' o' s o := by
  rw [← keyBytes_eq_iff]
  exact ⟨noCollision, congrArg Sha256.digest⟩

end

theorem shifted_comment :
    Shifted [35, 124, 116, 114, 117, 101, 124, 10]
      (Assembly.Options.withDefaults ⟨15, 15, "L", true⟩)
      [10] (Assembly.Options.withDefaults ⟨15, 15, "L|true|#", true⟩) where
  stack := rfl
  locals := rfl
  stem := by
    refine ⟨[124, 35], ?_, ?_⟩ <;> simp only [toList_toUTF8] <;> decide

theorem key_eq_iff_comment :
    key [35, 124, 116, 114, 117, 101, 124, 10] (Assembly.Options.withDefaults ⟨15, 15, "L", true⟩) =
      key [10] (Assembly.Options.withDefaults ⟨15, 15, "L|true|#", true⟩) :=
  (key_eq_iff fun _ => shifted_comment.keyBytes_eq).mpr (.inr (.inl shifted_comment))

/-- Different options and different sources can have the same key, whatever the hash. -/
theorem key_shared_by_stems :
    ∃ (s s' : List UInt8) (o o' : Assembly.Options), o.labelStem ≠ "" ∧ o'.labelStem ≠ "" ∧
      key s o.withDefaults = key s' o'.withDefaults ∧ o.withDefaults ≠ o'.withDefaults ∧ s ≠ s' :=
  ⟨[35, 124, 116, 114, 117, 101, 124, 10], [10], ⟨15, 15, "L", true⟩, ⟨15, 15, "L|true|#", true⟩,
    by decide, by decide, congrArg Sha256.digest shifted_comment.keyBytes_eq, by decide, by decide⟩

end Jasm.Cache

import Mathlib.Tactic.SplitIfs
import Jasm.Assembly.Instruction
import Jasm.Text.CodePoints

/-!
# String constants

A string constant is written between double quotes, with an escape for whatever could be taken for
something else. Here we read such constants back. Each character is written in a way that can be
read whatever follows it, so that no escape ever merges with the text behind it, and reading the
whole gives the text that was written, in its composed normal form.
-/

namespace Jasm.Assembly

open Text

/-- The character that a letter behind a backslash stands for. -/
def escaped? : Char → Option Char
  | '"' => some '"'
  | '\\' => some '\\'
  | 'n' => some '\n'
  | 't' => some '\t'
  | 'r' => some '\r'
  | _ => none

/-- Reads what stands between the quotes of a string constant. -/
def unescape : List Char → Option (List Char)
  | [] => some []
  | '\\' :: 'u' :: '0' :: '0' :: a :: b :: rest =>
    if isHexDigit a && isHexDigit b then
      (unescape rest).map (Char.ofNat (16 * hexDigit a + hexDigit b) :: ·)
    else none
  | '\\' :: e :: rest =>
    match escaped? e with
    | some c => (unescape rest).map (c :: ·)
    | none => none
  | c :: rest => if c = '"' ∨ c = '\\' then none else (unescape rest).map (c :: ·)

/-- Every backslash has a character behind it that it belongs to, and all quotes have a
backslash. -/
def wellEscaped : List Char → Bool
  | [] => true
  | ['\\'] => false
  | '\\' :: _ :: rest => wellEscaped rest
  | c :: rest => c ≠ '"' && wellEscaped rest

theorem hexDigits_control {c : Char} (h : c.toNat < 0x20) : ∃ a b,
    hexDigits 2 c.toNat = [a, b] ∧ isHexDigit a ∧ isHexDigit b ∧
    Char.ofNat (16 * hexDigit a + hexDigit b) = c ∧ 0x20 ≤ a.toNat ∧ 0x20 ≤ b.toNat := by
  have all : ∀ n < 0x20, isHexDigit (hexChar (n / 16 % 16)) ∧
      isHexDigit (hexChar (n % 16)) ∧
      16 * hexDigit (hexChar (n / 16 % 16)) + hexDigit (hexChar (n % 16)) = n ∧
      0x20 ≤ (hexChar (n / 16 % 16)).toNat ∧ 0x20 ≤ (hexChar (n % 16)).toNat := by decide
  obtain ⟨first, second, value, above, above'⟩ := all _ h
  refine ⟨_, _, rfl, first, second, ?_, above, above'⟩
  rw [value, Char.ofNat_toNat]

/-- What is known of one character of a constant, whatever follows it. -/
structure Legible (c : Char) (text : List Char) : Prop where
  above : ∀ x ∈ text, 0x20 ≤ x.toNat
  escaped : ∀ rest, wellEscaped (text ++ rest) = wellEscaped rest
  read : ∀ rest, unescape (text ++ rest) = (unescape rest).map (c :: ·)

theorem legible_constantChar {c : Char} : Legible c (constantChar c) := by
  unfold constantChar
  split_ifs with quote backslash feed tab ret control
  · subst quote
    exact ⟨by simp, fun _ => rfl, fun _ => rfl⟩
  · subst backslash
    exact ⟨by simp, fun _ => rfl, fun _ => rfl⟩
  · subst feed
    exact ⟨by simp, fun _ => rfl, fun _ => rfl⟩
  · subst tab
    exact ⟨by simp, fun _ => rfl, fun _ => rfl⟩
  · subst ret
    exact ⟨by simp, fun _ => rfl, fun _ => rfl⟩
  · obtain ⟨a, b, digits, first, second, value, above, above'⟩ := hexDigits_control control
    have plain {x : Char} (hex : isHexDigit x) : x ≠ '"' ∧ x ≠ '\\' := by
      constructor <;> rintro rfl <;> cases hex
    rw [digits]
    refine ⟨by simp [above, above'], fun rest => ?_, fun rest => ?_⟩
    · simp [wellEscaped, plain first, plain second]
    · simp [unescape, first, second, value]
  · refine ⟨by simpa using control, fun rest => ?_, fun rest => ?_⟩
    · simp [wellEscaped, quote, backslash]
    · simp [unescape, quote, backslash]

variable (cs : List Char)

theorem above_constant : ∀ x ∈ cs.flatMap constantChar, 0x20 ≤ x.toNat := by
  intro x hx
  obtain ⟨c, -, mem⟩ := List.mem_flatMap.mp hx
  exact legible_constantChar.above x mem

theorem wellEscaped_constant : wellEscaped (cs.flatMap constantChar) := by
  induction cs with
  | nil => rfl
  | cons c cs ih => rw [List.flatMap_cons, legible_constantChar.escaped, ih]

theorem unescape_constant : unescape (cs.flatMap constantChar) = some cs := by
  induction cs with
  | nil => rfl
  | cons c cs ih => rw [List.flatMap_cons, legible_constantChar.read, ih, Option.map_some]

/-- What is written of a text in whatever form can be read back to that form. -/
theorem read_back_of_form (form write : String → String)
    (quotes : ∀ s, (write s).toList = '"' :: ((form s).toList.flatMap constantChar ++ ['"']))
    (s : String) :
    (∃ body, (write s).toList = '"' :: (body ++ ['"']) ∧ (∀ c ∈ body, 0x20 ≤ c.toNat) ∧
      wellEscaped body ∧ unescape body = some (form s).toList) ∧
    (∀ t, write s = write t ↔ form s = form t) ∧
    ∀ t, form s = s → form t = t → write s = write t → s = t := by
  have same (t : String) : write s = write t ↔ form s = form t := by
    refine ⟨fun h => ?_, fun h => String.toList_inj.mp (by rw [quotes, quotes, h])⟩
    have texts := congrArg String.toList h
    rw [quotes, quotes, List.cons_inj_right, List.append_cancel_right_eq] at texts
    have read := congrArg unescape texts
    rw [unescape_constant, unescape_constant, Option.some_inj] at read
    exact String.toList_inj.mp read
  refine ⟨⟨_, quotes s, above_constant _, wellEscaped_constant _, unescape_constant _⟩, same, ?_⟩
  intro t hs ht h
  rw [← hs, ← ht]
  exact (same t).mp h

/-- A string constant begins and ends with a quote. Between them there is no character below the
blank, no quote without a backslash and no backslash that stands alone, and reading it back gives
the composed normal form of the text. So two texts are written alike exactly if they have the same
normal form, and texts in normal form are told apart. -/
theorem constantText_read_back (s : String) :
    (∃ body, (constantText s).toList = '"' :: (body ++ ['"']) ∧ (∀ c ∈ body, 0x20 ≤ c.toNat) ∧
      wellEscaped body ∧ unescape body = some (Text.normalForm s).toList) ∧
    (∀ t, constantText s = constantText t ↔ Text.normalForm s = Text.normalForm t) ∧
    ∀ t, Text.normalForm s = s → Text.normalForm t = t →
      constantText s = constantText t → s = t := by
  refine read_back_of_form Text.normalForm constantText (fun s => ?_) s
  simp [constantText]

end Jasm.Assembly

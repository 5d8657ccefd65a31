import Jasm.Proofs.Compile.Resolution
import Jasm.Proofs.Value.Operators

/-!
# Kinds in resolved programs

Variables hold only what can be stored, and constants hold something. From this and from typing it
follows what the parts of a resolved expression are: whatever is not a constant can be stored, an
operator gets operands of a kind it is defined on, and a call gets what its parameters want.
-/

namespace Jasm

open Assembly List Option
open Program (Expr Stmt)

/-! ## Good declarations -/

/-- An entry that comes from a good declaration. Variables have a slot. -/
structure Entry.Good (e : Entry Symbol) : Prop where
  item : e.item.Good
  form : e.form = e.item.form
  slot : e.form = .variable → ∃ n, e.slot = some n

def Scope.Good (s : Scope Symbol) : Prop := ∀ name e, s.get? name = some e → e.Good

theorem Scope.good_empty : Scope.Good {} := by
  intro name e h
  simp [Scope.get?] at h

theorem Scope.Good.push {s : Scope Symbol} {x : Symbol} {slot : Option Nat} (good : s.Good)
    (hx : x.Good) (hslot : slot = if x.form = .variable then some s.slots else none) :
    (s.push x.declaration slot).Good := by
  intro name e he
  rw [Scope.get?_push] at he
  split at he
  · cases he
    exact ⟨hx, rfl, fun hv => ⟨_, hslot.trans (if_pos hv)⟩⟩
  · exact good name e he

namespace Compile

open Typed

variable {t : Typed} {Γ : Scopes} {e : Expr}

theorem findIn_eq_some {global : Scope Symbol} {name : String} {depth : Nat} {e : Entry Symbol}
    {inner : List (Scope Symbol)} (h : Stack.findIn global name inner = some (depth, e)) :
    (depth = 0 ∧ global.get? name = some e) ∨ ∃ front s rest, inner = front ++ s :: rest ∧
      depth = rest.length + 1 ∧ s.get? name = some e ∧ ∀ t ∈ front, t.get? name = none := by
  induction inner with
  | nil =>
    rw [Stack.findIn, map_eq_some_iff] at h
    obtain ⟨e', he, heq⟩ := h
    cases heq
    exact .inl ⟨rfl, he⟩
  | cons s rest ih =>
    rw [Stack.findIn] at h
    split at h
    · next found =>
        cases h
        exact .inr ⟨[], s, rest, rfl, rfl, found, by simp⟩
    · next none =>
        rcases ih h with global | ⟨front, t, rest', rfl, depth, found, inside⟩
        · exact .inl global
        · refine .inr ⟨s :: front, t, rest', rfl, depth, found, fun u hu => ?_⟩
          rcases mem_cons.mp hu with rfl | hu
          · exact none
          · exact inside u hu

namespace Scopes

/-- All open scopes are good. -/
structure Good (Γ : Scopes) : Prop where
  global : Γ.stack.global.Good
  inner : ∀ s ∈ Γ.stack.inner, s.Good

namespace Good

variable {Γ Γ' : Scopes} {limit : Int} {f : Option Signature}

theorem empty (bases : List Nat) : Good ⟨{}, bases⟩ := ⟨Scope.good_empty, by simp⟩

section

variable (good : Γ.Good)
include good

theorem enter {method : Bool} : (Γ.enter method).Good := by
  refine ⟨good.global, fun s hs => ?_⟩
  rcases mem_cons.mp hs with rfl | hs
  · exact Scope.good_empty
  · exact good.inner s hs

theorem top : Γ.stack.top.Good := by
  unfold Stack.top
  cases h : Γ.stack.inner with
  | nil => exact good.global
  | cons s rest => exact good.inner s (by simp [h])

theorem insert? {x : Symbol} (hx : x.Good) {slot : Option Nat} (h : Γ.insert? x = some (slot, Γ')) :
    Γ'.Good := by
  obtain ⟨-, hslot, rfl⟩ := insert?_eq_some h
  have hs := good.top.push hx hslot
  obtain ⟨⟨_ | ⟨t, rest⟩, global⟩, bases⟩ := Γ
  · exact ⟨hs, by simp [Stack.setTop]⟩
  · refine ⟨good.global, fun t' ht' => ?_⟩
    rcases mem_cons.mp ht' with rfl | ht'
    · exact hs
    · exact good.inner t' (mem_cons_of_mem _ ht')

theorem find? {name : String} {depth : Nat} {e : Entry Symbol}
    (h : Γ.stack.find? name = some (depth, e)) : e.Good := by
  rcases findIn_eq_some h with ⟨-, he⟩ | ⟨front, s, rest, split, -, he, -⟩
  · exact good.global name e he
  · exact good.inner s (by simp [split]) name e he

theorem stmt? {s : Stmt} {T : TypedStmt} (h : Γ.stmt? limit f s = some (T, Γ')) : Γ'.Good := by
  cases s with
  | declare _ d =>
    obtain ⟨x, slot, hi, hx, -⟩ := declare?_eq_some (by simpa only [Scopes.stmt?] using h)
    exact good.insert? hx hi
  | _ => exact stmt?_eq_of_not_declare h (by simp) ▸ good

theorem stmts? {ss : List Stmt} {Ts : List TypedStmt} (h : Γ.stmts? limit f ss = some (Ts, Γ')) :
    Γ'.Good := by
  induction ss generalizing Γ Ts with
  | nil =>
    simp only [Scopes.stmts?] at h
    cases h
    exact good
  | cons s rest ih =>
    obtain ⟨T, Γ₁, others, h₁, h₂, -⟩ := stmts?_cons h
    exact ih (good.stmt? h₁) h₂

theorem parameters? {params : List (String × Kind)}
    (storable : ∀ k ∈ params.map (·.2), isStorable k) (h : Γ.parameters? limit params = some Γ') :
    Γ'.Good := by
  induction params generalizing Γ with
  | nil =>
    cases h
    exact good
  | cons param rest ih =>
    obtain ⟨Γ₁, slot, hi, h⟩ := parameters?_cons h
    have hx : (Symbol.newVariable param.1 param.2).Good := storable _ (by simp)
    exact ih (good.insert? hx hi) (fun k hk => storable k (mem_cons_of_mem _ hk)) h

end

end Good

end Scopes

/-! ## Expressions -/

mutual

/-- The kinds of an expression fit together. -/
def Typed.Sound : Typed → Prop
  | .constant v => (Emit.constant? v).isSome
  | .variable _ kind _ => isStorable kind
  | .unary op kind e => e.Sound ∧ kind = e.kind ∧
    (op = .neg ∧ e.kind = .integer ∨ op = .not ∧ e.kind = .boolean)
  | .binary op kind l r => l.Sound ∧ r.Sound ∧ r.kind = l.kind ∧ isStorable l.kind ∧
    op.isBinary ∧ op.admits l.kind ∧ kind = op.resultKind l.kind
  | .call f args => areSound args ∧ args.map Typed.kind = f.params ∧ f.isStorable ∧
    f.result?.isSome

def areSound : List Typed → Prop
  | [] => True
  | t :: rest => t.Sound ∧ areSound rest

end

theorem Typed.Sound.isStorable (h : t.Sound) (unknown : t.static.isInit = false) :
    isStorable t.kind := by
  cases t with
  | constant v =>
    simp only [Typed.static] at unknown
    rw [Value.eq_uninit_of_not_isInit unknown] at h
    simp [Typed.Sound, Emit.constant?] at h
  | «variable» name kind l => exact h
  | unary op kind e =>
    simp only [Typed.Sound] at h
    rcases h with ⟨-, rfl, ⟨-, hk⟩ | ⟨-, hk⟩⟩ <;> simp [Typed.kind, Typed.static] at hk ⊢ <;>
      simp [hk, Assembly.isStorable]
  | binary op kind l r =>
    simp only [Typed.Sound] at h
    obtain ⟨-, -, -, hl, -, -, rfl⟩ := h
    show Assembly.isStorable (op.resultKind l.kind)
    unfold Operator.resultKind
    split
    · rfl
    · exact hl
  | call f args =>
    simp only [Typed.Sound] at h
    obtain ⟨-, -, storable, result⟩ := h
    obtain ⟨k, hk⟩ := isSome_iff_exists.mp result
    have := (Signature.isStorable_iff.mp storable).2 k hk
    unfold Signature.result? at hk
    split at hk
    · cases hk
    · cases hk
      exact this

theorem folded_eq {v : Value} {unfolded : Kind → Typed} :
    Typed.folded v unfolded = if v.isInit then .constant v else unfolded v.kind := rfl

theorem Typed.sound_folded {v : Value} {unfolded : Kind → Typed}
    (h : (folded v unfolded).isWritable)
    (rest : v.isInit = false → (unfolded v.kind).isWritable → (unfolded v.kind).Sound) :
    (folded v unfolded).Sound := by
  rw [folded_eq] at h ⊢
  cases known : v.isInit with
  | true => simpa only [known, if_true, Typed.Sound, isWritable] using h
  | false =>
    rw [known] at h
    exact rest known h

mutual

theorem Typed.sound_of_type? {Γ : Scopes} (good : Γ.Good) : (e : Expr) → {t : Typed} →
    Γ.type? e = some t → t.isWritable → t.Sound
  | .literal v, t, h, writable => by
    simp only [Scopes.type?] at h
    cases h
    simpa only [Typed.Sound, isWritable] using writable
  | .ref name, t, h, writable => by
    simp only [Scopes.type?] at h
    rcases Scopes.ref?_cases h with ⟨depth, form, id, v, slot, found, rfl⟩ |
      ⟨depth, form, id, v, slot, found, rfl⟩
    · simpa only [Typed.Sound, isWritable] using writable
    · simpa only [Typed.Sound, Symbol.Good] using (good.find? found).item
  | .unary op e, t, h, writable => by
    obtain ⟨te, v, he, hv, rfl⟩ := Scopes.type?_unary h
    refine sound_folded writable fun unknown writable => ?_
    obtain ⟨⟨hu, ha⟩, hi, hk⟩ := Value.unary_eq_ok hv
    have ih := Typed.sound_of_type? good e he (by simpa only [isWritable] using writable)
    have storable : Assembly.isStorable te.static.kind := ih.isStorable (hi ▸ unknown)
    simp only [Typed.Sound]
    refine ⟨ih, ?_⟩
    unfold Typed.kind
    cases op <;> simp [Operator.isUnary] at hu <;>
      cases hs : te.static.kind <;>
        simp_all [Operator.admits, Operator.resultKind, Operator.isRelational,
          Operator.isLogical, Assembly.isStorable]
  | .binary op l r, t, h, writable => by
    obtain ⟨tl, tr, v, hl, hr, hv, rfl⟩ := Scopes.type?_binary h
    refine sound_folded writable fun unknown writable => ?_
    obtain ⟨⟨hb, hk, ha⟩, -, -, kind⟩ := Value.binary_eq_ok hv
    simp only [isWritable, Bool.and_eq_true] at writable
    have ihl := Typed.sound_of_type? good l hl writable.1
    have ihr := Typed.sound_of_type? good r hr writable.2
    have storable : Assembly.isStorable tl.kind := by
      rcases Value.binary_uninit hv unknown with hi | hi
      · exact ihl.isStorable hi
      · have := ihr.isStorable hi
        rwa [Typed.kind, hk] at this
    simp only [Typed.Sound]
    exact ⟨ihl, ihr, hk, storable, hb, ha, kind⟩
  | .call name args, t, h, writable => by
    obtain ⟨f, ts, hf, hts, kinds, result, rfl⟩ := Scopes.type?_call h
    simp only [isWritable, Bool.and_eq_true] at writable
    simp only [Typed.Sound]
    exact ⟨areSound_of_types? good args hts writable.2, kinds, writable.1, result⟩

theorem areSound_of_types? {Γ : Scopes} (good : Γ.Good) : (es : List Expr) →
    {ts : List Typed} → Γ.types? es = some ts → areWritable ts → areSound ts
  | [], ts, h, _ => by
    simp only [Scopes.types?] at h
    cases h
    simp only [areSound]
  | e :: rest, ts, h, writable => by
    obtain ⟨t, others, he, hrest, rfl⟩ := Scopes.types?_cons h
    simp only [areWritable, Bool.and_eq_true] at writable
    simp only [areSound]
    exact ⟨Typed.sound_of_type? good e he writable.1,
      areSound_of_types? good rest hrest writable.2⟩

end

theorem Typed.sound_of_value? (good : Γ.Good) (h : Γ.value? e = some t) :
    Γ.type? e = some t ∧ t.Sound := by
  obtain ⟨type, writable⟩ := filter_eq_some_iff.mp h
  exact ⟨type, Typed.sound_of_type? good e type writable⟩

theorem Typed.sound_of_valueOf? (good : Γ.Good) {kind : Kind} (h : Γ.valueOf? kind e = some t) :
    Γ.type? e = some t ∧ t.Sound ∧ t.kind = kind := by
  obtain ⟨value, hk⟩ := filter_eq_some_iff.mp h
  obtain ⟨type, sound⟩ := sound_of_value? good value
  exact ⟨type, sound, by simpa using hk⟩

end Compile

end Jasm

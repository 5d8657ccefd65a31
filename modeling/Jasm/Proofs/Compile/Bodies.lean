import Mathlib.Data.List.Forall2
import Jasm.Proofs.Compile.Kinds

/-!
# The bodies of a class

The class of a program has one method for each function, in their order, and an entry point. What
holds of the code of statements wherever they are resolved holds of all these bodies.

Functions are resolved one after the other, each in the scopes that the ones before it left. These
scopes only grow: what a function sees when it is resolved is still there at the end, under the same
name.
-/

namespace Jasm.Compile

open Assembly

namespace Scopes

/-! ## Outside of methods -/

/-- The scopes outside of all methods. -/
structure Outside (Γ : Scopes) : Prop where
  good : Γ.Good
  inner : Γ.stack.inner = []
  bases : Γ.bases.length = 1

/-- All global declarations are those of `G`. -/
def Below (Γ : Scopes) (G : Scope Symbol) : Prop :=
  ∀ name e, Γ.stack.global.get? name = some e → G.get? name = some e

variable {Γ Γ' Γ'' : Scopes} {G : Scope Symbol} {x : Symbol} {slot : Option Nat}
  {f : Program.Function} {ms : List Method}

theorem Below.trans (h : Γ.Below Γ'.stack.global) (h' : Γ'.Below G) : Γ.Below G :=
  fun name e he => h' name e (h name e he)

theorem outside_empty : Outside ⟨{}, [0]⟩ := ⟨.empty _, rfl, rfl⟩

theorem Outside.get?_of_insert? (outside : Γ.Outside) (h : Γ.insert? x = some (slot, Γ')) :
    Γ.stack.global.get? x.name = none ∧ ∀ name, Γ'.stack.global.get? name =
      if name = x.name then some ⟨x.form, x, slot⟩ else Γ.stack.global.get? name := by
  obtain ⟨new, -, rfl⟩ := insert?_eq_some h
  have top : Γ.stack.top = Γ.stack.global := by
    rw [Stack.top, outside.inner]
    rfl
  rw [top] at new ⊢
  refine ⟨new, fun name => ?_⟩
  simp only [Stack.setTop, outside.inner]
  exact Scope.get?_push ..

theorem Outside.below_of_insert? (outside : Γ.Outside) (h : Γ.insert? x = some (slot, Γ')) :
    Γ.Below Γ'.stack.global := by
  obtain ⟨new, get?⟩ := outside.get?_of_insert? h
  intro name e he
  rw [get?, if_neg]
  · exact he
  · rintro rfl
    rw [new] at he
    cases he

theorem Outside.insert? (outside : Γ.Outside) (hx : x.Good) (h : Γ.insert? x = some (slot, Γ')) :
    Γ'.Outside := by
  refine ⟨outside.good.insert? hx h, inner_of_insert? outside.inner h, ?_⟩
  obtain ⟨-, -, rfl⟩ := insert?_eq_some h
  exact outside.bases

/-! ## Methods -/

variable {limit : Int} {stem : String}

/-- A method is the code of a function that was resolved with no more than `G` in sight. -/
def MethodOf (limit : Int) (stem : String) (G : Scope Symbol) (f : Program.Function) (m : Method) :
    Prop :=
  ∃ (Γ : Scopes) (Ts : List TypedStmt) (n : Nat), Γ.Outside ∧ Γ.Below G ∧
    Γ.body? limit f = some Ts ∧
    m = (method stem f.signature Ts n).1

theorem methods?_cons {rest : List Program.Function} {n n' : Nat}
    (h : Γ.methods? limit stem n (f :: rest) = some (ms, Γ'', n')) :
    ∃ slot Γ₁ Ts ms', Γ.insert? (.function f.signature) = some (slot, Γ₁) ∧
      Γ₁.body? limit f = some Ts ∧
      Γ₁.methods? limit stem (method stem f.signature Ts n).2 rest = some (ms', Γ'', n') ∧
      ms = (method stem f.signature Ts n).1 :: ms' := by
  simp only [methods?] at h
  split at h
  · next slot Γ₁ inserted =>
      split at h
      · next Ts resolved =>
          obtain ⟨⟨ms', Γ₂, n₂⟩, others, heq⟩ := Option.map_eq_some_iff.mp h
          cases heq
          exact ⟨slot, Γ₁, Ts, ms', inserted, resolved, others, rfl⟩
      · cases h
  · cases h

theorem Outside.methods? (outside : Γ.Outside) {fs : List Program.Function} {n n' : Nat}
    (h : Γ.methods? limit stem n fs = some (ms, Γ', n')) :
    Γ'.Outside ∧ Γ.Below Γ'.stack.global ∧
      List.Forall₂ (MethodOf limit stem Γ'.stack.global) fs ms := by
  induction fs generalizing Γ n ms with
  | nil =>
    cases h
    exact ⟨outside, fun _ _ he => he, .nil⟩
  | cons f rest ih =>
    obtain ⟨slot, Γ₁, Ts, ms', inserted, resolved, others, rfl⟩ := methods?_cons h
    have outside₁ := outside.insert? (x := .function f.signature) trivial inserted
    obtain ⟨outside', below, each⟩ := ih outside₁ others
    refine ⟨outside', (outside.below_of_insert? inserted).trans below, .cons ?_ each⟩
    exact ⟨Γ₁, Ts, n, outside₁, below, resolved, rfl⟩

theorem Outside.globals? (outside : Γ.Outside) {ds : List (Position × Program.Declaration)}
    {fields : List (String × Option Int32)} (h : Γ.globals? ds = some (fields, Γ')) :
    Γ'.Outside := by
  induction ds generalizing Γ fields with
  | nil =>
    cases h
    exact outside
  | cons d rest ih =>
    obtain ⟨first, Γ₁, others, h₁, h₂, -⟩ := globals?_cons h
    obtain ⟨x, slot, inserted, good, -⟩ := global?_eq_some h₁
    exact ih (outside.insert? good inserted) h₂

theorem class?_eq_some {p : Program} {k : Assembly.Class} (h : class? limit stem p = some k) :
    ∃ Γ Γ' n Ts last, globals? ⟨{}, [0]⟩ p.globals = some (k.fields, Γ) ∧
      Γ.methods? limit stem 0 p.functions = some (k.methods, Γ', n) ∧
      (Γ'.enter true).stmts? limit none p.main = some (Ts, last) ∧
      k.entry = (lowerAll stem Ts n).1 ++ [.ret] := by
  unfold class? at h
  split at h
  · next fields Γ declared =>
      split at h
      · next ms Γ' n methods =>
          split at h
          · next Ts last main =>
              cases h
              exact ⟨Γ, Γ', n, Ts, last, declared, methods, main, rfl⟩
          · cases h
      · cases h
  · cases h

theorem body?_eq_some {Ts : List TypedStmt} (h : Γ.body? limit f = some Ts) :
    ∃ Γ₁ Γ₂, parameters? limit (Γ.enter true) f.params = some Γ₁ ∧
      Γ₁.stmts? limit (some f.signature) f.body = some (Ts, Γ₂) ∧ f.signature.isStorable ∧
      (f.signature.result?.isSome → Program.Stmt.lastReturns f.body) := by
  unfold body? at h
  split at h
  · next Γ₁ declared =>
      split at h
      · next Ts' Γ₂ resolved =>
          split at h
          · next ok =>
              cases h
              exact ⟨Γ₁, Γ₂, declared, resolved, ok⟩
          · cases h
      · cases h
  · cases h

end Scopes

end Jasm.Compile

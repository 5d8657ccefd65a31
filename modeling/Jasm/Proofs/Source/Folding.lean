import Jasm.Proofs.Source.Layout

/-!
# Values known before the run

Typing an expression computes every part of it that is known. A part is known exactly if it is built
from literals and constants, and then a run finds the same value for it, wherever it gets there, and
changes nothing.
-/

namespace Jasm

theorem Compile.Typed.static_folded {v : Value} {unfolded : Kind → Typed}
    (h : ∀ k, (unfolded k).static = .uninit k) : (Typed.folded v unfolded).static = v := by
  rw [folded_eq]
  split
  · rfl
  · next hi => rw [h, ← Value.eq_uninit_of_not_isInit (by simpa using hi)]

namespace Source

open Compile (Scopes Typed)

variable {G : Scope Symbol} {Γ : Scopes} {env : Env} {ml : Nat → Option Int32}
  {mg : String → Option Int32}

theorem Agrees.knows_eq (agrees : Agrees G Γ env ml mg) (proper : Proper G Γ) :
    (e : Program.Expr) → {t : Typed} → Γ.type? e = some t → env.knows e = t.static.isInit
  | .literal v, t, h => by
    simp only [Scopes.type?] at h
    cases h
    rfl
  | .ref name, t, h => by
    rcases Scopes.ref?_cases (by simpa only [Scopes.type?] using h) with
      ⟨depth, form, id, v, slot, hf, rfl⟩ | ⟨depth, form, id, v, slot, hf, rfl⟩
    · have known : v.isInit := (proper.good.find? hf).item
      simp only [Env.knows, agrees.lookup_constant proper hf, Typed.static, known]
    · obtain ⟨w, hw, -⟩ := agrees.lookup_variable proper hf
      simp only [Env.knows, hw]
      rfl
  | .unary op e, t, h => by
    obtain ⟨te, v, he, hv, rfl⟩ := Scopes.type?_unary h
    rw [Env.knows, agrees.knows_eq proper e he, Typed.static_folded fun _ => rfl,
      Value.unary_isInit hv]
  | .binary op l r, t, h => by
    obtain ⟨tl, tr, v, hl, hr, hv, rfl⟩ := Scopes.type?_binary h
    rw [Env.knows, agrees.knows_eq proper l hl, agrees.knows_eq proper r hr,
      Typed.static_folded fun _ => rfl, Value.binary_isInit hv]
  | .call name args, t, h => by
    obtain ⟨f, ts, -, -, -, -, rfl⟩ := Scopes.type?_call h
    rfl

theorem Agrees.eval_known (p : Program) (agrees : Agrees G Γ env ml mg) (proper : Proper G Γ) :
    (e : Program.Expr) → {t : Typed} → Γ.type? e = some t → t.static.isInit → (n : Nat) →
      eval p n env e = .ok (t.static, env) ∨ eval p n env e = .error .outOfFuel
  | _, _, _, _, 0 => .inr (by rw [eval])
  | .literal v, t, h, _, n + 1 => by
    simp only [Scopes.type?] at h
    cases h
    exact .inl (by rw [eval]; rfl)
  | .ref name, t, h, known, n + 1 => by
    rcases Scopes.ref?_cases (by simpa only [Scopes.type?] using h) with
      ⟨depth, form, id, v, slot, hf, rfl⟩ | ⟨depth, form, id, v, slot, hf, rfl⟩
    · exact .inl (by simp only [eval, agrees.lookup_constant proper hf, Typed.static])
    · cases known
  | .unary op e, t, h, known, n + 1 => by
    obtain ⟨te, v, he, hv, rfl⟩ := Scopes.type?_unary h
    rw [Typed.static_folded fun _ => rfl] at known ⊢
    rw [Value.unary_isInit hv] at known
    rcases agrees.eval_known p proper e he known n with found | found
    · exact .inl (by simp only [eval, found, hv, result, Except.map])
    · exact .inr (by simp only [eval, found])
  | .binary op l r, t, h, known, n + 1 => by
    obtain ⟨tl, tr, v, hl, hr, hv, rfl⟩ := Scopes.type?_binary h
    rw [Typed.static_folded fun _ => rfl] at known ⊢
    rw [Value.binary_isInit hv, Bool.and_eq_true] at known
    rcases agrees.eval_known p proper l hl known.1 n with found | found
    · rcases agrees.eval_known p proper r hr known.2 n with found' | found'
      · refine .inl ?_
        simp only [eval, found, found', agrees.knows_eq proper l hl, agrees.knows_eq proper r hr,
          known.1, known.2, Bool.and_self, Bool.true_or, if_true, hv, result, Except.map]
      · exact .inr (by simp only [eval, found, found'])
    · exact .inr (by simp only [eval, found])
  | .call name args, t, h, known, n + 1 => by
    obtain ⟨f, ts, -, -, -, -, rfl⟩ := Scopes.type?_call h
    cases known

end Source

end Jasm

import Jasm.Proofs.Compile.Resolution

/-!
# Where control does not come

Code that ends with a jump or a return has no way behind it. Two places rely on this: a branch whose
first part ends so needs no jump over its second part, and a function with a result needs no return
behind its body.
-/

namespace Jasm.Compile

open Assembly Program TypedStmt List

theorem endsTerminal_append (a b : List Instruction) :
    endsTerminal (a ++ b) = if b = [] then endsTerminal a else endsTerminal b := by
  unfold endsTerminal
  rw [getLast?_append]
  cases b with
  | nil => simp
  | cons i rest => simp [getLast?_cons]

/-! ## The parts of a branch -/

/-- What stands between the two parts of a branch and behind them: nothing if control does not come
behind the first part or there is no second one, and otherwise a jump and its target. -/
inductive Joined (first : List Instruction) (elseBody : List TypedStmt) :
    List Instruction → List Instruction → Prop where
  | single : elseBody = [] → Joined first elseBody [] []
  | terminal : endsTerminal first → Joined first elseBody [] []
  | join (l : Label) : endsTerminal first = false → Joined first elseBody [.goto l] [.label l]

theorem lower_branch (stem : String) (cond : Typed) (thenBody elseBody : List TypedStmt) (n : Nat) :
    ∃ between behind m, Joined (lowerAll stem thenBody ((cond.lower stem n).2 + 1)).1 elseBody
        between behind ∧
      ((branch cond thenBody elseBody).lower stem n).1 =
        (cond.lower stem n).1 ++ (.branch .eq (labelOf stem (cond.lower stem n).2) ::
          ((lowerAll stem thenBody ((cond.lower stem n).2 + 1)).1 ++
            (between ++ (.label (labelOf stem (cond.lower stem n).2) ::
              ((lowerAll stem elseBody m).1 ++ behind))))) := by
  cases elseBody with
  | nil =>
    refine ⟨[], [], n, .single rfl, ?_⟩
    simp only [lower, lowerAll, append_assoc, cons_append, nil_append]
  | cons s rest =>
    cases h : endsTerminal (lowerAll stem thenBody ((cond.lower stem n).2 + 1)).1 with
    | true =>
      refine ⟨[], [], (lowerAll stem thenBody ((cond.lower stem n).2 + 1)).2, .terminal h, ?_⟩
      simp only [lower, h, if_true, append_assoc, cons_append,
        nil_append, append_nil]
    | false =>
      refine ⟨_, _, (lowerAll stem thenBody ((cond.lower stem n).2 + 1)).2 + 1,
        .join (labelOf stem (lowerAll stem thenBody ((cond.lower stem n).2 + 1)).2) h, ?_⟩
      simp only [lower, h, Bool.false_eq_true, if_false, append_assoc,
        cons_append, nil_append]

/-! ## Bodies that always return -/

/-- How a function returns, or main if there is none. -/
def returnOf (f : Option Signature) : Instruction :=
  if (f.bind Signature.result?).isSome then .retValue else .ret

theorem isTerminal_returnOf {f : Option Signature} : (returnOf f).isTerminal := by
  unfold returnOf
  split <;> rfl

theorem getLast?_append_right (a : List Instruction) {b : List Instruction} {i : Instruction}
    (h : b.getLast? = some i) : (a ++ b).getLast? = some i := by
  rw [getLast?_append, h]
  rfl

theorem endsTerminal_of_getLast? {code : List Instruction} {f : Option Signature}
    (h : code.getLast? = some (returnOf f)) : endsTerminal code := by
  rw [endsTerminal, h]
  exact isTerminal_returnOf

mutual

theorem getLast?_of_returns {limit : Int} {f : Option Signature} (stem : String) :
    (s : Stmt) → {Γ Γ' : Scopes} → {T : TypedStmt} → s.returns →
      Γ.stmt? limit f s = some (T, Γ') → (n : Nat) →
        (T.lower stem n).1.getLast? = some (returnOf f)
  | .ret _ e, Γ, Γ', T, _, h, n => by
    obtain ⟨-, ⟨none, -, rfl⟩ | ⟨want, e', t, some, -, -, rfl⟩⟩ := Scopes.stmt?_ret h
    · rw [lower, returnOf, none]
      rfl
    · rw [lower, returnOf, some]
      exact getLast?_append_right _ rfl
  | .block _ body, Γ, Γ', T, returns, h, n => by
    obtain ⟨inner, Γ₁, h₁, rfl, -⟩ := Scopes.stmt?_block h
    rw [lower]
    exact getLast?_of_lastReturns stem body (by simpa only [Stmt.returns] using returns) h₁ n
  | .branch _ cond thenBody elseBody, Γ, Γ', T, returns, h, n => by
    obtain ⟨t, first, Γ₁, second, Γ₂, -, h₁, h₂, rfl, -⟩ := Scopes.stmt?_branch h
    simp only [Stmt.returns, Bool.and_eq_true] at returns
    have ends₁ := getLast?_of_lastReturns stem thenBody returns.1 h₁
    have ends₂ := getLast?_of_lastReturns stem elseBody returns.2 h₂
    obtain ⟨between, behind, m, joined, code⟩ := lower_branch stem t first second n
    rw [code]
    -- The second part is there, since it returns, so nothing stands behind it.
    have nothing : behind = [] := by
      cases joined with
      | single _ => rfl
      | terminal _ => rfl
      | join l h => rw [endsTerminal_of_getLast? (ends₁ _)] at h; cases h
    subst nothing
    rw [append_nil]
    have whole := getLast?_append_right [.label (labelOf stem (t.lower stem n).2)] (ends₂ m)
    exact getLast?_append_right _ (getLast?_append_right [_]
      (getLast?_append_right _ (getLast?_append_right between whole)))

theorem getLast?_of_lastReturns {limit : Int} {f : Option Signature} (stem : String) :
    (ss : List Stmt) → {Γ Γ' : Scopes} → {Ts : List TypedStmt} → Stmt.lastReturns ss →
      Γ.stmts? limit f ss = some (Ts, Γ') → (n : Nat) →
        (lowerAll stem Ts n).1.getLast? = some (returnOf f)
  | [s], Γ, Γ', Ts, returns, h, n => by
    obtain ⟨T, Γ₁, others, h₁, h₂, rfl⟩ := Scopes.stmts?_cons h
    simp only [Scopes.stmts?] at h₂
    cases h₂
    simp only [lowerAll, append_nil]
    exact getLast?_of_returns stem s (by simpa only [Stmt.lastReturns] using returns) h₁ n
  | s :: s' :: rest, Γ, Γ', Ts, returns, h, n => by
    obtain ⟨T, Γ₁, others, h₁, h₂, rfl⟩ := Scopes.stmts?_cons h
    rw [lowerAll]
    refine getLast?_append_right _ ?_
    exact getLast?_of_lastReturns stem (s' :: rest)
      (by simpa only [Stmt.lastReturns] using returns) h₂ _

end

theorem endsTerminal_of_lastReturns {limit : Int} {f : Option Signature} (stem : String)
    (ss : List Stmt) {Γ Γ' : Scopes} {Ts : List TypedStmt} (returns : Stmt.lastReturns ss)
    (h : Γ.stmts? limit f ss = some (Ts, Γ')) (n : Nat) : endsTerminal (lowerAll stem Ts n).1 :=
  endsTerminal_of_getLast? (getLast?_of_lastReturns stem ss returns h n)

end Jasm.Compile

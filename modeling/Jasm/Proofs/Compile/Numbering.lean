import Jasm.Proofs.Assembly.Machine
import Jasm.Proofs.Compile.Lowering

/-!
# The labels of a body

The code of a statement defines only labels that are handed out for it, and each of them at most
once. So no label is defined twice in a body, and a jump leads to one place only.
-/

namespace Jasm.Compile

open Assembly TypedStmt List Option

/-- The labels that some code defines are numbered from `n` to below `n'`, and are distinct. -/
structure Numbered (stem : String) (code : List Instruction) (n n' : Nat) : Prop where
  le : n ≤ n'
  nodup : (labels code).Nodup
  range : ∀ l ∈ labels code, ∃ i, n ≤ i ∧ i < n' ∧ l = labelOf stem i

namespace Numbered

variable {stem : String} {code code₁ code₂ : List Instruction} {n n' a b c d : Nat}

theorem plain (h : labels code = []) (n : Nat) : Numbered stem code n n :=
  ⟨Nat.le_refl n, by simp [h], by simp [h]⟩

theorem one {n : Nat} : Numbered stem [.label (labelOf stem n)] n (n + 1) :=
  ⟨Nat.le_succ n, by simp [Instruction.label?],
    fun l hl => ⟨n, Nat.le_refl n, Nat.lt_succ_self n, by simpa [Instruction.label?] using hl⟩⟩

theorem union (first : Numbered stem code₁ a b) (second : Numbered stem code₂ c d)
    (apart : b ≤ c ∨ d ≤ a) (low : n ≤ a ∧ n ≤ c) (high : b ≤ n' ∧ d ≤ n') :
    Numbered stem (code₁ ++ code₂) n n' := by
  have h₁ := first.le
  refine ⟨by omega, ?_, fun l hl => ?_⟩
  · rw [labels_append, nodup_append]
    refine ⟨first.nodup, second.nodup, fun l hl l' hl' heq => ?_⟩
    obtain ⟨i, hi, hi', rfl⟩ := first.range l hl
    obtain ⟨j, hj, hj', rfl⟩ := second.range l' hl'
    have := labelOf_injective heq
    omega
  · rw [labels_append, mem_append] at hl
    rcases hl with hl | hl
    · obtain ⟨i, hi, hi', rfl⟩ := first.range l hl
      exact ⟨i, by omega, by omega, rfl⟩
    · obtain ⟨i, hi, hi', rfl⟩ := second.range l hl
      exact ⟨i, by omega, by omega, rfl⟩

theorem append (first : Numbered stem code₁ a b) (second : Numbered stem code₂ b c) :
    Numbered stem (code₁ ++ code₂) a c :=
  first.union second (.inl (Nat.le_refl b)) ⟨Nat.le_refl a, first.le⟩ ⟨second.le, Nat.le_refl c⟩

theorem perm (h : Numbered stem code₁ n n') (hp : (labels code).Perm (labels code₁)) :
    Numbered stem code n n' :=
  ⟨h.le, hp.nodup_iff.mpr h.nodup, fun l hl => h.range l (hp.mem_iff.mp hl)⟩

theorem cons {i : Instruction} (hi : i.label? = none) (h : Numbered stem code n n') :
    Numbered stem (i :: code) n n' :=
  h.perm (by simp [hi])

end Numbered

theorem labels_operationCode {op : Operator} :
    labels ((Emit.operationCode? op).getD []) = [] := by
  unfold Emit.operationCode?
  split
  · rfl
  · cases StackOp.ofOperator? op <;> rfl

theorem numbered_binaryCode {stem : String} {op : Operator} (n : Nat) :
    Numbered stem (binaryCode stem op n).1 n (binaryCode stem op n).2 := by
  unfold binaryCode
  split
  · cases Cond.ofOperator? op with
    | none => exact .plain rfl n
    | some c =>
      refine (Numbered.one.append .one).perm ?_
      simp [Emit.relationCode, Instruction.label?]
  · exact .plain labels_operationCode n

theorem label?_pushNumber (n : Int32) : (Emit.pushNumber n).label? = none := by
  unfold Emit.pushNumber
  split <;> rfl

theorem labels_constant (v : Value) : labels (Emit.constant? v).toList = [] := by
  cases v <;> first | rfl | simp [Emit.constant?, label?_pushNumber]

theorem label?_loadCode (name : String) (l : Location) : (loadCode name l).label? = none := by
  unfold loadCode
  split <;> rfl

theorem label?_storeCode (name : String) (l : Location) : (storeCode name l).label? = none := by
  unfold storeCode
  split <;> rfl

mutual

theorem Typed.numbered (stem : String) : (t : Typed) → (n : Nat) →
    Numbered stem (t.lower stem n).1 n (t.lower stem n).2
  | .constant v, n => by
    rw [Typed.lower]
    exact .plain (labels_constant v) n
  | .variable name _ l, n => by
    rw [Typed.lower]
    exact .plain (by simp [label?_loadCode]) n
  | .unary op _ e, n => by
    rw [Typed.lower]
    exact (e.numbered stem n).append (.plain labels_operationCode _)
  | .binary op _ l r, n => by
    rw [Typed.lower]
    exact (l.numbered stem n).append ((r.numbered stem _).append (numbered_binaryCode _))
  | .call f args, n => by
    rw [Typed.lower]
    exact (numbered_lowerArgs stem args n).append (.plain (by simp [Instruction.label?]) _)

theorem numbered_lowerArgs (stem : String) : (args : List Typed) → (n : Nat) →
    Numbered stem (lowerArgs stem args n).1 n (lowerArgs stem args n).2
  | [], n => by
    rw [lowerArgs]
    exact .plain rfl n
  | t :: rest, n => by
    rw [lowerArgs]
    exact (t.numbered stem n).append (numbered_lowerArgs stem rest _)

end

mutual

theorem TypedStmt.numbered (stem : String) : (T : TypedStmt) → (n : Nat) →
    Numbered stem (T.lower stem n).1 n (T.lower stem n).2
  | .skip, n => by
    rw [lower]
    exact .plain rfl n
  | .store t name l, n => by
    rw [lower]
    exact (t.numbered stem n).append (.plain (by simp [label?_storeCode]) _)
  | .print t newline, n => by
    rw [lower]
    refine .cons rfl ((t.numbered stem n).append (.plain ?_ _))
    cases Printed.ofKind? t.kind <;> rfl
  | .ret none, n => by
    rw [lower]
    exact .plain rfl n
  | .ret (some t), n => by
    rw [lower]
    exact (t.numbered stem n).append (.plain rfl _)
  | .call f args, n => by
    rw [lower]
    refine (numbered_lowerArgs stem args n).append (.plain ?_ _)
    split <;> rfl
  | .block body, n => by
    rw [lower]
    exact numbered_lowerAll stem body n
  | .loop cond body, n => by
    rw [lower]
    have test := cond.numbered stem (n + 2)
    have inner := numbered_lowerAll stem body (cond.lower stem (n + 2)).2
    have ends : Numbered stem _ n (n + 2) := Numbered.one.append .one
    refine (ends.append (test.append inner)).perm ?_
    simp only [labels_cons, labels_append, labels_nil, Instruction.label?, cons_append,
      toList_some, toList_none, nil_append, append_assoc]
    refine .cons _ ?_
    rw [← append_assoc]
    exact perm_append_comm
  | .branch cond thenBody elseBody, n => by
    have test := cond.numbered stem n
    have first := numbered_lowerAll stem thenBody ((cond.lower stem n).2 + 1)
    have second (m : Nat) := numbered_lowerAll stem elseBody m
    have head := test.append (Numbered.one.append first)
    cases elseBody with
    | nil =>
      rw [lower]
      refine head.perm ?_
      simp only [labels_cons, labels_append, labels_nil, Instruction.label?, nil_append,
        toList_some, toList_none, append_assoc, append_nil]
      exact perm_append_comm.append_left _
    | cons s rest =>
      rw [lower]
      split
      · refine (head.append (second _)).perm ?_
        simp only [labels_cons, labels_append, Instruction.label?, cons_append,
           nil_append, toList_some, toList_none, append_assoc]
        exact perm_middle.append_left _
      · refine (head.append (Numbered.one.append (second _))).perm ?_
        simp only [labels_cons, labels_append, labels_nil, Instruction.label?,
          cons_append, nil_append, toList_some, toList_none,
          append_assoc, append_nil]
        refine .append_left _ (perm_middle.trans (.cons _ (.append_left _ ?_)))
        exact perm_append_comm

theorem numbered_lowerAll (stem : String) : (Ts : List TypedStmt) → (n : Nat) →
    Numbered stem (lowerAll stem Ts n).1 n (lowerAll stem Ts n).2
  | [], n => by
    rw [lowerAll]
    exact .plain rfl n
  | T :: rest, n => by
    rw [lowerAll]
    exact (T.numbered stem n).append (numbered_lowerAll stem rest _)

end

end Jasm.Compile

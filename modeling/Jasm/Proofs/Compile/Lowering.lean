import Jasm.Compile.Typing
import Jasm.Proofs.Assembly.Extension

/-!
# The code of resolved programs

The code of a program is described here without the state it is written in. Expressions with their
names resolved are there already (`Typed`); `TypedStmt` does the same for statements. Labels are
numbers until they are named: `lower stem x n` is the code of `x` if `n` labels were handed out
before it, together with the number of labels handed out behind it.

The first result says that writing a typed expression, if it is carried out, writes this code. It is
carried out only for expressions that the target can express: `Typed.isWritable`.
-/

namespace Jasm

open Assembly Emit

def Signature.isStorable (f : Signature) : Bool :=
  f.params.all Assembly.isStorable && f.result?.all Assembly.isStorable

theorem Signature.isStorable_iff {f : Signature} : f.isStorable ↔
    (∀ k ∈ f.params, Assembly.isStorable k) ∧
      ∀ k, f.result? = some k → Assembly.isStorable k := by
  unfold Signature.isStorable
  cases f.result? <;> simp

namespace Compile

open Typed

/-- A statement whose names are resolved. -/
inductive TypedStmt where
  /-- A declaration that needs no code. -/
  | skip
  | store (value : Typed) (name : String) (location : Location)
  | print (value : Typed) (newline : Bool)
  | branch (cond : Typed) (thenBody elseBody : List TypedStmt)
  | loop (cond : Typed) (body : List TypedStmt)
  | ret (value : Option Typed)
  | call (f : Signature) (args : List Typed)
  | block (body : List TypedStmt)

mutual

/-- Whether the target can express an expression: it has instructions for the constants in it, and
the functions called take and give only what can be stored. -/
def Typed.isWritable : Typed → Bool
  | .constant v => (constant? v).isSome
  | .variable .. => true
  | .unary _ _ e => e.isWritable
  | .binary _ _ l r => l.isWritable && r.isWritable
  | .call f args => f.isStorable && areWritable args

def areWritable : List Typed → Bool
  | [] => true
  | t :: rest => t.isWritable && areWritable rest

end

def loadCode (name : String) (location : Location) : Instruction :=
  if location.isGlobal then .loadGlobal name else .loadLocal location.slot.toNat

def storeCode (name : String) (location : Location) : Instruction :=
  if location.isGlobal then .storeGlobal name else .storeLocal location.slot.toNat

variable (stem : String)

/-- The code of an operator of two operands that are on the stack. -/
def binaryCode (op : Operator) (n : Nat) : List Instruction × Nat :=
  if op.isRelational then
    match Cond.ofOperator? op with
    | some c => (relationCode c (labelOf stem n) (labelOf stem (n + 1)), n + 2)
    | none => ([], n)
  else ((operationCode? op).getD [], n)

mutual

def Typed.lower : Typed → Nat → List Instruction × Nat
  | .constant v, n => ((constant? v).toList, n)
  | .variable name _ location, n => ([loadCode name location], n)
  | .unary op _ e, n => ((e.lower n).1 ++ (operationCode? op).getD [], (e.lower n).2)
  | .binary op _ l r, n =>
    let left := l.lower n
    let right := r.lower left.2
    let operator := binaryCode stem op right.2
    (left.1 ++ (right.1 ++ operator.1), operator.2)
  | .call f args, n =>
    let pushed := lowerArgs args n
    (pushed.1 ++ [.invoke f.name f.arity f.result?.isSome], pushed.2)

def lowerArgs : List Typed → Nat → List Instruction × Nat
  | [], n => ([], n)
  | t :: rest, n =>
    let first := t.lower n
    let others := lowerArgs rest first.2
    (first.1 ++ others.1, others.2)

end

/-- Whether control never comes behind some code. -/
def endsTerminal (code : List Instruction) : Bool := code.getLast?.elim false Instruction.isTerminal

mutual

def TypedStmt.lower : TypedStmt → Nat → List Instruction × Nat
  | .skip, n => ([], n)
  | .store t name location, n =>
    ((t.lower stem n).1 ++ [storeCode name location], (t.lower stem n).2)
  | .print t newline, n =>
    (.pushStream :: (t.lower stem n).1 ++
      ((Printed.ofKind? t.kind).map (.print · newline)).toList, (t.lower stem n).2)
  | .branch cond thenBody elseBody, n =>
    let test := cond.lower stem n
    let falseTarget := labelOf stem test.2
    let first := lowerAll thenBody (test.2 + 1)
    let head := test.1 ++ .branch .eq falseTarget :: first.1
    match elseBody with
    | [] => (head ++ [.label falseTarget], first.2)
    | s :: rest =>
      -- A jump over the second part is needed only if control comes behind the first.
      if endsTerminal first.1 then
        let second := lowerAll (s :: rest) first.2
        (head ++ .label falseTarget :: second.1, second.2)
      else
        let join := labelOf stem first.2
        let second := lowerAll (s :: rest) (first.2 + 1)
        (head ++ .goto join :: .label falseTarget :: second.1 ++ [.label join], second.2)
  | .loop cond body, n =>
    let test := cond.lower stem (n + 2)
    let body := lowerAll body test.2
    (.label (labelOf stem n) :: test.1 ++ .branch .eq (labelOf stem (n + 1)) :: body.1 ++
      [.goto (labelOf stem n), .label (labelOf stem (n + 1))], body.2)
  | .ret none, n => ([.ret], n)
  | .ret (some t), n => ((t.lower stem n).1 ++ [.retValue], (t.lower stem n).2)
  | .call f args, n =>
    let pushed := lowerArgs stem args n
    (pushed.1 ++ .invoke f.name f.arity f.result?.isSome ::
      (if f.result?.isSome then [.pop] else []), pushed.2)
  | .block body, n => lowerAll body n

def lowerAll : List TypedStmt → Nat → List Instruction × Nat
  | [], n => ([], n)
  | s :: rest, n =>
    let first := s.lower n
    let others := lowerAll rest first.2
    (first.1 ++ others.1, others.2)

end

/-! ## Writing expressions -/

section

open Emit (Adds)

variable {stem} {g g' : Generator} {n : Nat} {name : String} {location : Location} {op : Operator}

theorem adds_of_load (h : (load name location).Writes g () g') (hn : g.labels.counter = n) :
    Adds g [loadCode name location] n g' := by
  unfold load at h
  unfold loadCode
  split at h
  · obtain ⟨-, rfl⟩ := writes_loadGlobal.mp h
    simp only [*, if_true]
    exact .pushInstr hn _
  · obtain ⟨-, -, rfl⟩ := writes_loadLocal.mp h
    simp only [*]
    exact .pushInstr hn _

theorem adds_of_store (h : (store name location).Writes g () g') (hn : g.labels.counter = n) :
    Adds g [storeCode name location] n g' := by
  unfold store at h
  unfold storeCode
  split at h
  · obtain ⟨-, rfl⟩ := writes_storeGlobal.mp h
    simp only [*, if_true]
    exact .pushInstr hn _
  · obtain ⟨-, -, rfl⟩ := writes_storeLocal.mp h
    simp only [*]
    exact .pushInstr hn _

theorem adds_of_operation (h : (operation op).Writes g () g') (hn : g.labels.counter = n) :
    Adds g ((operationCode? op).getD []) n g' := by
  obtain ⟨code, hcode, -, rfl⟩ := writes_operation.mp h
  rw [hcode]
  exact .foldl_pushInstr hn

theorem adds_of_binary
    (h : (if op.isRelational then relation op else operation op).Writes g () g')
    (hn : g.labels.counter = n) (hs : g.labels.stem = stem) :
    Adds g (binaryCode stem op n).1 (binaryCode stem op n).2 g' := by
  subst hs
  unfold binaryCode
  cases hr : op.isRelational with
  | false =>
    rw [hr] at h
    exact adds_of_operation h hn
  | true =>
    rw [hr] at h
    obtain ⟨c, hc, e⟩ := adds_of_relation hn h
    rw [hc]
    exact e

theorem adds_of_invoke {f : Signature} {given : Int}
    (h : (invoke (some f) given).Writes g () g') (hn : g.labels.counter = n) :
    Adds g [.invoke f.name f.arity f.result?.isSome] n g' := by
  obtain ⟨-, -, -, rfl⟩ := writes_invoke.mp h
  exact .pushInstr hn _

mutual

theorem Typed.spec_of_emit : (t : Typed) → {g g' : Generator} → {n : Nat} →
    t.emit.Writes g () g' → g.labels.counter = n → g.labels.stem = stem →
    t.isWritable ∧ Adds g (t.lower stem n).1 (t.lower stem n).2 g'
  | .constant v, g, g', n, h, hn, _ => by
    rw [emit] at h
    obtain ⟨i, hi, -, rfl⟩ := writes_loadConst.mp h
    rw [isWritable, lower, hi]
    exact ⟨rfl, .pushInstr hn i⟩
  | .variable name _ location, g, g', n, h, hn, _ => by
    rw [emit] at h
    rw [isWritable, lower]
    exact ⟨rfl, adds_of_load h hn⟩
  | .unary op _ e, g, g', n, h, hn, hs => by
    rw [emit] at h
    obtain ⟨_, g₁, h₁, h₂⟩ := writes_bind.mp h
    obtain ⟨writable, e₁⟩ := e.spec_of_emit h₁ hn hs
    rw [isWritable, lower]
    exact ⟨writable, e₁.trans (adds_of_operation h₂ e₁.counter)⟩
  | .binary op _ l r, g, g', n, h, hn, hs => by
    rw [emit] at h
    obtain ⟨_, g₁, h₁, h⟩ := writes_bind.mp h
    obtain ⟨_, g₂, h₂, h₃⟩ := writes_bind.mp h
    obtain ⟨writable₁, e₁⟩ := l.spec_of_emit h₁ hn hs
    obtain ⟨writable₂, e₂⟩ := r.spec_of_emit h₂ e₁.counter (e₁.stem.trans hs)
    have e₃ := adds_of_binary h₃ e₂.counter (e₂.stem.trans (e₁.stem.trans hs))
    rw [isWritable, Bool.and_eq_true, lower]
    exact ⟨⟨writable₁, writable₂⟩, e₁.trans (e₂.trans e₃)⟩
  | .call f args, g, g', n, h, hn, hs => by
    rw [emit] at h
    obtain ⟨_, g₁, h₁, h₂⟩ := writes_bind.mp h
    obtain ⟨writable, e₁⟩ := spec_of_emitArgs args h₁ hn hs
    obtain ⟨-, -, storable, -⟩ := writes_invoke.mp h₂
    rw [isWritable, Bool.and_eq_true, lower]
    exact ⟨⟨Signature.isStorable_iff.mpr storable, writable⟩,
      e₁.trans (adds_of_invoke h₂ e₁.counter)⟩

theorem spec_of_emitArgs : (args : List Typed) → {g g' : Generator} → {n : Nat} →
    (emitArgs args).Writes g () g' → g.labels.counter = n → g.labels.stem = stem →
    areWritable args ∧ Adds g (lowerArgs stem args n).1 (lowerArgs stem args n).2 g'
  | [], g, g', n, h, hn, _ => by
    rw [emitArgs] at h
    obtain ⟨-, rfl⟩ := writes_pure.mp h
    rw [areWritable, lowerArgs]
    exact ⟨rfl, .refl hn⟩
  | t :: rest, g, g', n, h, hn, hs => by
    rw [emitArgs] at h
    obtain ⟨_, g₁, h₁, h₂⟩ := writes_bind.mp h
    obtain ⟨writable₁, e₁⟩ := t.spec_of_emit h₁ hn hs
    obtain ⟨writable₂, e₂⟩ := spec_of_emitArgs rest h₂ e₁.counter (e₁.stem.trans hs)
    rw [areWritable, Bool.and_eq_true, lowerArgs]
    exact ⟨⟨writable₁, writable₂⟩, e₁.trans e₂⟩

end

theorem Typed.adds_of_emit (t : Typed) {g g' : Generator} {n : Nat} (h : t.emit.Writes g () g')
    (hn : g.labels.counter = n) (hs : g.labels.stem = stem) :
    Adds g (t.lower stem n).1 (t.lower stem n).2 g' :=
  (t.spec_of_emit h hn hs).2

end

end Compile

end Jasm

import Mathlib.Data.List.Forall2
import Mathlib.Data.Nat.Init
import Jasm.Program.Check

/-!
# What a description means

The fields of a description may be missing, and which of them are meant depends on tags. `Means`
relates a description to the program that it stands for, one rule for each form, and a rule applies
only if all fields that its form needs are there. A description that passes its check means the
program that the check gives: no operand, value or condition of it is missing.
-/

namespace Jasm

namespace Checked

variable {α β : Type}

@[simp] theorem result_ok {a b : α} : (ok a).result = some b ↔ a = b := by simp [ok]

@[simp] theorem result_problem {code : Code} {pos : Position} {message : String} {b : α} :
    ¬ (problem code pos message : Checked α).result = some b := by simp [problem]

@[simp] theorem result_seq {f : Checked (α → β)} {x : Checked α} {b : β} :
    (f <*> x).result = some b ↔ ∃ g a, f.result = some g ∧ x.result = some a ∧ g a = b := by
  show (f.result.bind fun g => x.result.map g) = some b ↔ _
  cases f.result <;> cases x.result <;> simp

@[simp] theorem result_map {f : α → β} {x : Checked α} {b : β} :
    (f <$> x).result = some b ↔ ∃ a, x.result = some a ∧ f a = b := by
  show ((ok f : Checked (α → β)) <*> x).result = some b ↔ _
  simp

end Checked

namespace Draft

open Checked

variable {pos : Position} {name : String} {s : Stmt} {e : Option Expr} {d : Program.Declaration}
  {f : Function}

/-! ## Meanings -/

/-- What an expression stands for. -/
inductive Expr.Means : Expr → Program.Expr → Prop where
  | literal {e : Expr} {v : Value} : e.form = .literal → e.literal = .ok v → Means e (.literal v)
  | ref {e : Expr} : e.form = .ref → Means e (.ref e.ref)
  | unary {e l : Expr} {op : Operator} {l' : Program.Expr} : e.form = .op →
      Operator.parse? e.op = some op → op.isUnary = true → e.left = some l → e.right = none →
      Means l l' → Means e (.unary op l')
  | binary {e l r : Expr} {op : Operator} {l' r' : Program.Expr} : e.form = .op →
      Operator.parse? e.op = some op → op.isUnary = false → e.left = some l → e.right = some r →
      Means l l' → Means r r' → Means e (.binary op l' r')
  | call {e : Expr} {args' : List Program.Expr} : e.form = .call →
      List.Forall₂ Means e.args args' → Means e (.call e.call args')

/-- What an expression stands for that may be left out. -/
inductive MeansOptional : Option Expr → Option Program.Expr → Prop where
  | none : MeansOptional none none
  | some {e : Expr} {e' : Program.Expr} : e.Means e' → MeansOptional (some e) (some e')

/-- The declaration that a statement stands for. -/
inductive Stmt.Declares (s : Stmt) : Program.Declaration → Prop where
  | variable {kind : Kind} {init : Option Program.Expr} : s.tag = "var" → s.name ≠ "" →
      Kind.parse? s.kind = some kind → MeansOptional s.value init →
      Declares s (.variable s.name kind init)
  | constant {kind : Option Kind} {e : Expr} {e' : Program.Expr} : s.tag = "const" → s.name ≠ "" →
      (∀ k ∈ kind, Kind.parse? s.kind = some k) → (kind = none ↔ s.kind = "") →
      s.value = some e → e.Means e' → Declares s (.constant s.name kind e')
  | array {kind : Kind} {length : Nat} {values : List Value} : s.tag = "array" → s.name ≠ "" →
      Kind.parse? s.kind = some kind → s.length = length → values.length ≤ length → 0 < length →
      List.Forall₂ (fun l v => l.toValue = .ok v) s.values values →
      Declares s (.array s.name kind length values)

/-- What a statement stands for. -/
inductive Stmt.Means : Stmt → Program.Stmt → Prop where
  | declare {s : Stmt} {d : Program.Declaration} : s.Declares d → Means s (.declare s.pos d)
  | assign {s : Stmt} {e : Expr} {e' : Program.Expr} : s.tag = "assign" → s.name ≠ "" →
      s.value = some e → e.Means e' → Means s (.assign s.pos s.name e')
  | print {s : Stmt} {e : Expr} {e' : Program.Expr} (newline : Bool) :
      s.tag = (if newline then "println" else "print") → s.value = some e → e.Means e' →
      Means s (.print s.pos newline e')
  | branch {s : Stmt} {e : Expr} {e' : Program.Expr} {thenBody elseBody : List Program.Stmt} :
      s.tag = "if" → s.cond = some e → e.Means e' → List.Forall₂ Means s.thenBody thenBody →
      List.Forall₂ Means s.elseBody elseBody → Means s (.branch s.pos e' thenBody elseBody)
  | loop {s : Stmt} {e : Expr} {e' : Program.Expr} {body : List Program.Stmt} :
      s.tag = "while" → s.cond = some e → e.Means e' → List.Forall₂ Means s.body body →
      Means s (.loop s.pos e' body)
  | ret {s : Stmt} {e' : Option Program.Expr} : s.tag = "return" → MeansOptional s.value e' →
      Means s (.ret s.pos e')
  | call {s : Stmt} {args : List Program.Expr} : s.tag = "call" → s.name ≠ "" →
      List.Forall₂ Expr.Means s.args args → Means s (.call s.pos s.name args)
  | block {s : Stmt} {body : List Program.Stmt} : s.tag = "block" →
      List.Forall₂ Means s.body body → Means s (.block s.pos body)

/-- What a parameter stands for. -/
structure Param.Means (p : Param) (p' : String × Kind) : Prop where
  name : p.name = p'.1 ∧ p'.1 ≠ ""
  kind : Kind.parse? p.kind = some p'.2

/-- What a function stands for. -/
structure Function.Means (f : Function) (f' : Program.Function) : Prop where
  pos : f'.pos = f.pos
  name : f'.name = f.name ∧ f.name ≠ "" ∧ f.name ≠ "main"
  params : List.Forall₂ Param.Means f.params f'.params
  ret : if f.returns = "" then f'.ret = .none else Kind.parse? f.returns = some f'.ret
  body : List.Forall₂ Stmt.Means f.body f'.body

/-- What a description stands for. -/
structure Means (d : Draft) (p : Program) : Prop where
  name : p.name = d.program ∧ d.program ≠ ""
  globals : List.Forall₂ (fun s g => g.1 = s.pos ∧ s.Declares g.2) d.globals p.globals
  functions : List.Forall₂ Function.Means d.functions p.functions
  main : List.Forall₂ Stmt.Means d.main p.main
  mainPos : p.mainPos = d.mainPos

/-! ## Checks -/

theorem parse?_of_checkKind {k : Kind} (h : (checkKind pos name).result = some k) :
    Kind.parse? name = some k := by
  unfold checkKind at h
  cases hk : Kind.parse? name with
  | none => simp [hk] at h
  | some k' => simpa [hk] using h

theorem name_of_checkName (h : (checkName s).result = some name) :
    name = s.name ∧ s.name ≠ "" := by
  unfold checkName missing at h
  split at h
  · simp at h
  · next hn => exact ⟨(result_ok.mp h).symm, hn⟩

theorem parse?_of_checkDeclaredKind {k : Kind} (h : (checkDeclaredKind s).result = some k) :
    Kind.parse? s.kind = some k := by
  unfold checkDeclaredKind missing at h
  split at h
  · simp at h
  · exact parse?_of_checkKind h

mutual

theorem means_of_checkExpr {pos : Position} : (e : Expr) → {e' : Program.Expr} →
    (checkExpr pos e).result = some e' → e.Means e'
  | ⟨int, float, char, str, bool, ref, op, left, right, call, args⟩, e', h => by
    rw [checkExpr] at h
    split at h
    · next form =>
        split at h
        · next v hv =>
            obtain rfl := result_ok.mp h
            exact .literal form hv
        · simp at h
    · next form =>
        obtain rfl := result_ok.mp h
        exact .ref form
    · next form =>
        split at h
        · simp at h
        · next op' parsed =>
            match left with
            | none => simp at h
            | some l =>
              have hl {l' : Program.Expr} (h : (checkExpr pos l).result = some l') :=
                means_of_checkExpr l h
              match right with
              | none =>
                cases unary : op'.isUnary with
                | false => simp [unary] at h
                | true =>
                  simp only [unary] at h
                  obtain ⟨l', left, rfl⟩ := result_map.mp h
                  exact .unary form parsed unary rfl rfl (hl left)
              | some r =>
                have hr {r' : Program.Expr} (h : (checkExpr pos r).result = some r') :=
                  means_of_checkExpr r h
                cases binary : op'.isUnary with
                | true => simp [binary] at h
                | false =>
                  simp only [binary] at h
                  obtain ⟨f, r', hf, right, rfl⟩ := result_seq.mp h
                  obtain ⟨l', left, rfl⟩ := result_map.mp hf
                  exact .binary form parsed binary rfl rfl (hl left) (hr right)
    · next form =>
        obtain ⟨args', all, rfl⟩ := result_map.mp h
        exact .call form (means_of_checkExprs args all)
    · simp at h

theorem means_of_checkExprs {pos : Position} : (es : List Expr) → {es' : List Program.Expr} →
    (checkExprs pos es).result = some es' → List.Forall₂ Expr.Means es es'
  | [], es', h => by
    rw [checkExprs] at h
    obtain rfl := result_ok.mp h
    exact .nil
  | e :: rest, es', h => by
    rw [checkExprs] at h
    obtain ⟨f, others, hf, hrest, rfl⟩ := result_seq.mp h
    obtain ⟨e', he, rfl⟩ := result_map.mp hf
    exact .cons (means_of_checkExpr e he) (means_of_checkExprs rest hrest)

end

theorem means_of_checkOptional {e' : Option Program.Expr}
    (h : (checkOptional pos e).result = some e') : MeansOptional e e' := by
  cases e with
  | none =>
    obtain rfl := result_ok.mp h
    exact .none
  | some e =>
    obtain ⟨e', he, rfl⟩ := result_map.mp h
    exact .some (means_of_checkExpr e he)

theorem means_of_checkNeeded {field : String} {e' : Program.Expr}
    (h : (checkNeeded s field e).result = some e') : ∃ e₀, e = some e₀ ∧ e₀.Means e' := by
  cases e with
  | none => simp [checkNeeded, missing] at h
  | some e => exact ⟨e, rfl, means_of_checkExpr e h⟩

theorem length_of_checkLength {n : Nat} (h : (checkLength s).result = some n) :
    s.length = n ∧ 0 < n ∧ s.values.length ≤ n := by
  unfold checkLength at h
  split at h
  · simp at h
  · split at h
    · simp at h
    · obtain rfl := result_ok.mp h
      omega

theorem values_of_checkValues : {ls : List Literal} → {vs : List Value} →
    (checkValues s ls).result = some vs → List.Forall₂ (fun l v => l.toValue = .ok v) ls vs
  | [], vs, h => by
    obtain rfl := result_ok.mp h
    exact .nil
  | l :: rest, vs, h => by
    obtain ⟨f, others, hf, hrest, rfl⟩ := result_seq.mp h
    obtain ⟨v, hv, rfl⟩ := result_map.mp hf
    refine .cons ?_ (values_of_checkValues hrest)
    cases ht : l.toValue with
    | error f => simp [ht] at hv
    | ok v' => simpa [ht] using hv

theorem declares_variable (tag : s.tag = "var")
    (h : (Program.Declaration.variable <$> checkName s <*> checkDeclaredKind s <*>
      checkOptional s.pos s.value).result = some d) : s.Declares d := by
  obtain ⟨f₁, init, h₁, hi, rfl⟩ := result_seq.mp h
  obtain ⟨f₂, kind, h₂, hk, rfl⟩ := result_seq.mp h₁
  obtain ⟨name, hn, rfl⟩ := result_map.mp h₂
  obtain ⟨rfl, named⟩ := name_of_checkName hn
  exact .variable tag named (parse?_of_checkDeclaredKind hk) (means_of_checkOptional hi)

theorem declares_constant (tag : s.tag = "const")
    (h : (Program.Declaration.constant <$> checkName s <*>
      (if s.kind = "" then ok none else some <$> checkKind s.pos s.kind) <*>
      checkNeeded s "value" s.value).result = some d) : s.Declares d := by
  obtain ⟨f₁, init, h₁, hi, rfl⟩ := result_seq.mp h
  obtain ⟨f₂, kind, h₂, hk, rfl⟩ := result_seq.mp h₁
  obtain ⟨name, hn, rfl⟩ := result_map.mp h₂
  obtain ⟨rfl, named⟩ := name_of_checkName hn
  obtain ⟨e, value, means⟩ := means_of_checkNeeded hi
  split at hk
  · next none =>
      obtain rfl := result_ok.mp hk
      exact .constant tag named (by simp) (by simp [none]) value means
  · next some =>
      obtain ⟨k, checked, rfl⟩ := result_map.mp hk
      have parsed := parse?_of_checkKind checked
      exact .constant tag named (by simpa using parsed) (by simp [some]) value means

theorem declares_array (tag : s.tag = "array")
    (h : (Program.Declaration.array <$> checkName s <*> checkDeclaredKind s <*> checkLength s <*>
      checkValues s s.values).result = some d) : s.Declares d := by
  obtain ⟨f₁, values, h₁, hv, rfl⟩ := result_seq.mp h
  obtain ⟨f₂, length, h₂, hl, rfl⟩ := result_seq.mp h₁
  obtain ⟨f₃, kind, h₃, hk, rfl⟩ := result_seq.mp h₂
  obtain ⟨name, hn, rfl⟩ := result_map.mp h₃
  obtain ⟨rfl, named⟩ := name_of_checkName hn
  obtain ⟨length, positive, room⟩ := length_of_checkLength hl
  have values := values_of_checkValues hv
  exact .array tag named (parse?_of_checkDeclaredKind hk) length (values.length_eq ▸ room)
    positive values

theorem declares_of_checkDeclaration? {check : Checked Program.Declaration}
    (h : checkDeclaration? s = some check) (passed : check.result = some d) : s.Declares d := by
  unfold checkDeclaration? at h
  split at h
  · next tag =>
      cases h
      exact declares_variable tag passed
  · next tag =>
      cases h
      exact declares_constant tag passed
  · next tag =>
      cases h
      exact declares_array tag passed
  · cases h

mutual

theorem means_of_checkStmt : (s : Stmt) → {s' : Program.Stmt} →
    (checkStmt s).result = some s' → s.Means s'
  | ⟨tag, name, kind, length, values, value, args, cond, thenBody, elseBody, body, pos⟩, s', h => by
    unfold checkStmt at h
    split at h
    · next check hc =>
        obtain ⟨d, hd, rfl⟩ := result_map.mp h
        exact .declare (declares_of_checkDeclaration? hc hd)
    · have hthen {ss' : List Program.Stmt} (h : (checkStmts thenBody).result = some ss') :=
        means_of_checkStmts thenBody h
      have helse {ss' : List Program.Stmt} (h : (checkStmts elseBody).result = some ss') :=
        means_of_checkStmts elseBody h
      have hbody {ss' : List Program.Stmt} (h : (checkStmts body).result = some ss') :=
        means_of_checkStmts body h
      split at h
      · obtain ⟨f, e', hf, he, rfl⟩ := result_seq.mp h
        obtain ⟨name, hn, rfl⟩ := result_map.mp hf
        obtain ⟨rfl, named⟩ := name_of_checkName hn
        obtain ⟨e, value, means⟩ := means_of_checkNeeded he
        exact .assign rfl named value means
      · obtain ⟨e', he, rfl⟩ := result_map.mp h
        obtain ⟨e, value, means⟩ := means_of_checkNeeded he
        exact .print false rfl value means
      · obtain ⟨e', he, rfl⟩ := result_map.mp h
        obtain ⟨e, value, means⟩ := means_of_checkNeeded he
        exact .print true rfl value means
      · obtain ⟨f₁, elseBody', h₁, he, rfl⟩ := result_seq.mp h
        obtain ⟨f₂, thenBody', h₂, ht, rfl⟩ := result_seq.mp h₁
        obtain ⟨e', hc, rfl⟩ := result_map.mp h₂
        obtain ⟨e, cond, means⟩ := means_of_checkNeeded hc
        exact .branch rfl cond means (hthen ht) (helse he)
      · obtain ⟨f, body', hf, hb, rfl⟩ := result_seq.mp h
        obtain ⟨e', hc, rfl⟩ := result_map.mp hf
        obtain ⟨e, cond, means⟩ := means_of_checkNeeded hc
        exact .loop rfl cond means (hbody hb)
      · obtain ⟨e', he, rfl⟩ := result_map.mp h
        exact .ret rfl (means_of_checkOptional he)
      · obtain ⟨f, args', hf, ha, rfl⟩ := result_seq.mp h
        obtain ⟨name, hn, rfl⟩ := result_map.mp hf
        obtain ⟨rfl, named⟩ := name_of_checkName hn
        exact .call rfl named (means_of_checkExprs args ha)
      · obtain ⟨body', hb, rfl⟩ := result_map.mp h
        exact .block rfl (hbody hb)
      · simp at h
      · simp at h

theorem means_of_checkStmts : (ss : List Stmt) → {ss' : List Program.Stmt} →
    (checkStmts ss).result = some ss' → List.Forall₂ Stmt.Means ss ss'
  | [], ss', h => by
    rw [checkStmts] at h
    obtain rfl := result_ok.mp h
    exact .nil
  | s :: rest, ss', h => by
    rw [checkStmts] at h
    obtain ⟨f, others, hf, hrest, rfl⟩ := result_seq.mp h
    obtain ⟨s', hs, rfl⟩ := result_map.mp hf
    exact .cons (means_of_checkStmt s hs) (means_of_checkStmts rest hrest)

end

theorem forall₂_of_checkEach {α β : Type} {check : Nat → α → Checked β} {P : α → β → Prop}
    (hP : ∀ i a b, (check i a).result = some b → P a b) :
    {i : Nat} → {as : List α} → {bs : List β} → (checkEach check i as).result = some bs →
      List.Forall₂ P as bs
  | _, [], bs, h => by
    obtain rfl := result_ok.mp h
    exact .nil
  | i, a :: rest, bs, h => by
    obtain ⟨f, others, hf, hrest, rfl⟩ := result_seq.mp h
    obtain ⟨b, hb, rfl⟩ := result_map.mp hf
    exact .cons (hP i a b hb) (forall₂_of_checkEach hP hrest)

theorem declares_of_checkGlobal {g : Position × Program.Declaration}
    (h : (checkGlobal s).result = some g) : g.1 = s.pos ∧ s.Declares g.2 := by
  unfold checkGlobal at h
  split at h
  · next check hc =>
      obtain ⟨d, hd, rfl⟩ := result_map.mp h
      exact ⟨rfl, declares_of_checkDeclaration? hc hd⟩
  · simp at h

theorem means_of_checkParam {i : Nat} {p : Param} {p' : String × Kind}
    (h : (checkParam pos i p).result = some p') : p.Means p' := by
  obtain ⟨f, kind, hf, hk, rfl⟩ := result_seq.mp h
  obtain ⟨name, hn, rfl⟩ := result_map.mp hf
  split at hn
  · simp at hn
  · next named =>
      obtain rfl := result_ok.mp hn
      exact ⟨⟨rfl, named⟩, parse?_of_checkKind hk⟩

theorem name_of_checkFunctionName (h : (checkFunctionName f).result = some name) :
    name = f.name ∧ f.name ≠ "" ∧ f.name ≠ "main" := by
  unfold checkFunctionName at h
  split at h
  · simp at h
  · simp at h
  · next named notMain => exact ⟨(result_ok.mp h).symm, named, notMain⟩

theorem means_of_checkFunction {f' : Program.Function} (h : (checkFunction f).result = some f') :
    f.Means f' := by
  obtain ⟨k₁, body, h₁, hbody, rfl⟩ := result_seq.mp h
  obtain ⟨k₂, ret, h₂, hret, rfl⟩ := result_seq.mp h₁
  obtain ⟨k₃, params, h₃, hparams, rfl⟩ := result_seq.mp h₂
  obtain ⟨name, hname, rfl⟩ := result_map.mp h₃
  refine ⟨rfl, name_of_checkFunctionName hname,
    forall₂_of_checkEach (P := Param.Means) (fun _ _ _ h => means_of_checkParam h) hparams, ?_,
    means_of_checkStmts f.body hbody⟩
  split at hret
  · next none =>
      rw [if_pos none]
      exact (result_ok.mp hret).symm
  · next some =>
      rw [if_neg some]
      exact parse?_of_checkKind hret

theorem means_of_check {d : Draft} {p : Program} (h : d.check.result = some p) : d.Means p := by
  obtain ⟨f₁, main, h₁, hmain, rfl⟩ := result_seq.mp h
  obtain ⟨f₂, functions, h₂, hfunctions, rfl⟩ := result_seq.mp h₁
  obtain ⟨f₃, globals, h₃, hglobals, rfl⟩ := result_seq.mp h₂
  obtain ⟨name, hname, rfl⟩ := result_map.mp h₃
  refine ⟨?_, forall₂_of_checkEach (P := fun s g => g.1 = s.pos ∧ s.Declares g.2)
      (fun _ _ _ h => declares_of_checkGlobal h) hglobals,
    forall₂_of_checkEach (P := Function.Means) (fun _ _ _ h => means_of_checkFunction h) hfunctions,
    means_of_checkStmts d.main hmain, rfl⟩
  split at hname
  · simp at hname
  · next named => exact ⟨(result_ok.mp hname).symm, named⟩

theorem exists_of_forall₂ {α β : Type} {P : α → β → Prop} {as : List α} {bs : List β}
    (h : List.Forall₂ P as bs) {b : β} (hb : b ∈ bs) : ∃ a, P a b := by
  induction h with
  | nil => cases hb
  | cons first _ ih =>
    rcases List.mem_cons.mp hb with rfl | hb
    · exact ⟨_, first⟩
    · exact ih hb

end Draft

end Jasm

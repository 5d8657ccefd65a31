import Jasm.Proofs.Compile.Abstraction
import Jasm.Proofs.Source.Simulation

/-!
# The code of an expression

An expression without calls is typed, and its code is written somewhere in a method. Wherever
control comes to that code with the variables in their places, whatever is on the operand stack, it
comes to the end of the code with the value of the expression on top, and nothing else has changed.

Typing computes the parts whose values are known, but the number does not depend on this: `Unfolds`
relates an expression to all trees in which some of these parts are computed and the others are left
to the machine, and the code of every such tree pushes the same number. Only operators on texts and
on floating-point numbers are never left to the machine, as it has no instructions for them.
-/

namespace Jasm

open Assembly Value Emit
open Program (Expr)

/-- Whether values of a kind are held as whole numbers. -/
def Kind.isWord : Kind → Bool
  | .integer | .boolean | .char => true
  | _ => false

theorem Kind.isWord_of_isStorable {k : Kind} (h : isStorable k) : k.isWord := by
  cases k <;> first | rfl | cases h

/-! ## Operators -/

namespace Value

variable {op : Operator} {a b v : Value}

theorem unary_cases (unary : op.isUnary) {k : Kind} (admits : op.admits k) (word : k.isWord) :
    op = .neg ∧ k = .integer ∨ op = .not ∧ k = .boolean := by
  cases op <;> cases unary <;> cases k <;> cases word <;> simp [Operator.admits] at admits ⊢

theorem exists_constant?_of_isWord (word : v.kind.isWord) (held : v.isInit) :
    ∃ i n, constant? v = some i ∧ v.operand? = some (.int n) := by
  cases v <;> first | exact ⟨_, _, rfl, rfl⟩ | cases word | cases held

theorem operand?_of_isWord {o : Operand} (word : v.kind.isWord) (h : v.operand? = some o) :
    ∃ n, v.operand? = some (.int n) ∧ o = .int n := by
  cases v with
  | int n | char n => exact ⟨n, rfl, by cases h; rfl⟩
  | bool b => exact ⟨_, rfl, by cases h; rfl⟩
  | uninit => cases h
  | str | float => cases word

end Value

namespace Source

open Compile

theorem binaryTurns_char {stem : String} {op : Operator} {a b : Int32} (binary : op.isBinary)
    (admits : op.admits .char) : BinaryTurns stem op (.char a) (.char b) (.int a) (.int b) := by
  have equality : op = .eq ∨ op = .notEq := by
    cases op <;> cases binary <;> simp [Operator.admits] at admits ⊢
  rcases equality with rfl | rfl
  · exact ⟨rfl, _, rfl, fun k ml s n => turns_comparison rfl rfl (.inl rfl)⟩
  · exact ⟨rfl, _, rfl, fun k ml s n => turns_comparison rfl rfl (.inr (.inl rfl))⟩

theorem binaryTurns_of_isWord (stem : String) {op : Operator} {a b : Value} {oa ob : Operand}
    (ha : a.operand? = some oa) (hb : b.operand? = some ob) (word : a.kind.isWord)
    (kinds : b.kind = a.kind) (binary : op.isBinary) (admits : op.admits a.kind)
    (fits : comparable op a b) : BinaryTurns stem op a b oa ob := by
  cases storable : isStorable a.kind with
  | true => exact binaryTurns stem ha hb storable kinds binary admits fits
  | false =>
    obtain ⟨code, rfl⟩ : ∃ code, a = .char code := by
      cases a with
      | char code => exact ⟨code, rfl⟩
      | int | bool => cases storable
      | uninit => cases ha
      | str | float => cases word
    cases b <;> cases hb <;> cases kinds
    cases ha
    exact binaryTurns_char binary admits

end Source

namespace Compile

open Typed
open Source (Turns BinaryTurns)

/-! ## Trees with some of the known parts computed -/

/-- All variables keep the values `σ`. -/
def Encounter.steady (σ : String → Value) : Encounter := ⟨fun _ => σ, fun _ _ => .int 0⟩

/-- The value of a tree without calls. -/
def Typed.evaluate (σ : String → Value) : Typed → Except Value.Fault Value
  | .constant v => .ok v
  | .variable name _ _ => .ok (σ name)
  | .unary op _ e => do
    let v ← e.evaluate σ
    Value.unary op v
  | .binary op _ l r => do
    let a ← l.evaluate σ
    let b ← r.evaluate σ
    Value.binary op a b
  | .call f _ => .ok (.uninit f.ret)

/-- In every comparison of the tree the sign of the difference tells the answer. -/
def Typed.Comparable (σ : String → Value) : Typed → Prop
  | .constant _ | .variable .. | .call .. => True
  | .unary _ _ e => e.Comparable σ
  | .binary op _ l r => l.Comparable σ ∧ r.Comparable σ ∧
    ∀ a b, l.evaluate σ = .ok a → r.evaluate σ = .ok b → Source.comparable op a b

/-- A tree for an expression without calls, in which parts that are known may be computed or not. -/
inductive Unfolds (Γ : Scopes) : Expr → Typed → Prop where
  | known {e : Expr} {v : Value} : Γ.type? e = some (.constant v) → v.isInit →
    Unfolds Γ e (.constant v)
  | var {name : String} {kind : Kind} {l : Location} :
    Γ.ref? name = some (.variable name kind l) → Unfolds Γ (.ref name) (.variable name kind l)
  | unary {op : Operator} {e : Expr} {t u : Typed} : Γ.type? (.unary op e) = some t →
    Unfolds Γ e u → Unfolds Γ (.unary op e) (.unary op t.kind u)
  | binary {op : Operator} {l r : Expr} {t u w : Typed} :
    Γ.type? (.binary op l r) = some t → u.kind.isWord → Unfolds Γ l u → Unfolds Γ r w →
    Unfolds Γ (.binary op l r) (.binary op t.kind u w)

/-- The machine holds the number of a variable where the variable lives. -/
def Scopes.Holds (Γ : Scopes) (σ : String → Value) (locals : Nat → Option Int32)
    (globals : String → Option Int32) (name : String) : Prop :=
  ∀ kind l, Γ.ref? name = some (.variable name kind l) → (σ name).kind = kind ∧
    ∃ n, (σ name).intImage? = some n ∧
      (l = .global ∧ globals name = some n ∨ ∃ i : Nat, l = .frame i ∧ locals i = some n)

variable {Γ : Scopes} {σ : String → Value} {locals : Nat → Option Int32}
  {globals : String → Option Int32} {e : Expr} {t u : Typed}

theorem Scopes.Holds.isStorable {name : String} {kind : Kind} {l : Location}
    (holds : Γ.Holds σ locals globals name) (h : Γ.ref? name = some (.variable name kind l)) :
    isStorable kind := by
  obtain ⟨rfl, n, image, -⟩ := holds kind l h
  generalize σ name = v at image
  cases v <;> first | rfl | cases image

theorem Scopes.evaluate_known {ρ : Encounter} : (e : Expr) → {t : Typed} →
    Γ.type? e = some t → t.static.isInit → (place : List Nat) →
      Γ.evaluate ρ place e = .ok t.static
  | .literal v, t, h, _, place => by
    simp only [type?] at h
    cases h
    rw [evaluate]
    rfl
  | .ref name, t, h, known, place => by
    simp only [type?] at h
    rcases Scopes.ref?_cases h with ⟨depth, form, id, v, slot, found, rfl⟩ |
      ⟨depth, form, id, v, slot, found, rfl⟩
    · simp [evaluate, read, found, Typed.static]
    · cases known
  | .unary op e, t, h, known, place => by
    obtain ⟨te, v, he, hv, rfl⟩ := Scopes.type?_unary h
    rw [static_folded fun _ => rfl] at known ⊢
    rw [unary_isInit hv] at known
    rw [evaluate, evaluate_known e he known]
    exact hv
  | .binary op l r, t, h, known, place => by
    obtain ⟨tl, tr, v, hl, hr, hv, rfl⟩ := Scopes.type?_binary h
    rw [static_folded fun _ => rfl] at known ⊢
    rw [binary_isInit hv, Bool.and_eq_true] at known
    rw [evaluate, evaluate_known l hl known.1, evaluate_known r hr known.2]
    exact hv
  | .call name args, t, h, known, place => by
    obtain ⟨f, ts, -, -, -, -, rfl⟩ := Scopes.type?_call h
    cases known

theorem Scopes.unfolds_of_type? (constant : Γ.Constant) : (e : Expr) → e.Complete →
    e.isCallFree → (∀ name ∈ e.names, Γ.Holds σ locals globals name) → {t : Typed} →
      Γ.type? e = some t → Unfolds Γ e t
  | e, complete, callFree, holds, t, h => by
    cases known : t.static.isInit with
    | true =>
      obtain ⟨v, rfl⟩ := Source.exists_constant_of_known known
      exact .known h known
    | false =>
      cases e with
      | literal v =>
        simp only [type?] at h
        cases h
        simp only [Expr.Complete] at complete
        exact absurd (complete.symm.trans known) (by simp)
      | ref name =>
        simp only [type?] at h
        rcases Scopes.ref?_cases h with ⟨depth, form, id, v, slot, found, rfl⟩ |
          ⟨depth, form, id, v, slot, found, rfl⟩
        · exact absurd ((constant name v h).symm.trans known) (by simp)
        · exact .var h
      | unary op e =>
        simp only [Expr.Complete] at complete
        simp only [Expr.isCallFree] at callFree
        simp only [Expr.names] at holds
        obtain ⟨te, v, he, hv, rfl⟩ := Scopes.type?_unary h
        rw [static_folded fun _ => rfl] at known
        rw [folded_eq, if_neg (by simp [known])] at h ⊢
        exact .unary h (unfolds_of_type? constant e complete callFree holds he)
      | binary op l r =>
        simp only [Expr.Complete] at complete
        simp only [Expr.isCallFree, Bool.and_eq_true] at callFree
        simp only [Expr.names, List.forall_mem_append] at holds
        obtain ⟨tl, tr, v, hl, hr, hv, rfl⟩ := Scopes.type?_binary h
        rw [static_folded fun _ => rfl] at known
        obtain ⟨⟨-, kinds, -⟩, -⟩ := binary_eq_ok hv
        have operand : isStorable tl.kind := by
          unfold Typed.kind
          rcases binary_uninit hv known with unknown | unknown
          · exact isStorable_of_unknown constant l complete.1
              (fun name mem kind l ref => (holds.1 name mem).isStorable ref)
              (.inl callFree.1) hl unknown
          · exact kinds ▸ isStorable_of_unknown constant r complete.2
              (fun name mem kind l ref => (holds.2 name mem).isStorable ref)
              (.inl callFree.2) hr unknown
        rw [folded_eq, if_neg (by simp [known])] at h ⊢
        exact .binary h (Kind.isWord_of_isStorable operand)
          (unfolds_of_type? constant l complete.1 callFree.1 holds.1 hl)
          (unfolds_of_type? constant r complete.2 callFree.2 holds.2 hr)
      | call name args => cases callFree

namespace Unfolds

variable {op : Operator} {g : Generator}

theorem kind_eq (h : Unfolds Γ e u) (type : Γ.type? e = some t) : u.kind = t.kind := by
  cases h with
  | var ref =>
    simp only [Scopes.type?] at type
    cases ref.symm.trans type
    rfl
  | known type' | unary type' | binary type' =>
    cases type'.symm.trans type
    rfl

theorem evaluate_eq (h : Unfolds Γ e u) (place : List Nat) :
    u.evaluate σ = Γ.evaluate (.steady σ) place e := by
  induction h generalizing place with
  | known type held =>
    rw [Scopes.evaluate_known _ type held, evaluate]
    rfl
  | var ref =>
    rcases Scopes.ref?_cases ref with ⟨depth, form, id, v, slot, found, same⟩ |
      ⟨depth, form, id, v, slot, found, -⟩
    · cases same
    · simp [evaluate, Scopes.evaluate, Scopes.read, found, Encounter.steady]
  | unary _ _ ih => rw [evaluate, Scopes.evaluate, ih]
  | binary _ _ _ _ ihl ihr => rw [evaluate, Scopes.evaluate, ihl, ihr]

theorem operand_of_unary (type : Γ.type? (.unary op e) = some t) (h : Unfolds Γ e u)
    (word : t.kind.isWord) : u.kind = t.kind ∧
      (op = .neg ∧ u.kind = .integer ∨ op = .not ∧ u.kind = .boolean) := by
  obtain ⟨te, v, he, hv, rfl⟩ := Scopes.type?_unary type
  obtain ⟨⟨unary, admits⟩, -, kind⟩ := unary_eq_ok hv
  have result : op.resultKind te.static.kind = te.static.kind := by
    cases op <;> cases unary <;> rfl
  have same : (Typed.folded v (.unary op · te)).kind = te.kind := by
    rw [Typed.kind, static_folded fun _ => rfl, kind, result, Typed.kind]
  rw [same] at word ⊢
  rw [h.kind_eq he]
  exact ⟨rfl, unary_cases unary admits word⟩

theorem operands_of_binary {l r : Expr} {w : Typed}
    (type : Γ.type? (.binary op l r) = some t) (left : Unfolds Γ l u) (right : Unfolds Γ r w) :
    op.isBinary ∧ w.kind = u.kind ∧ op.admits u.kind ∧ t.kind = op.resultKind u.kind := by
  obtain ⟨tl, tr, v, hl, hr, hv, rfl⟩ := Scopes.type?_binary type
  have kind : (Typed.folded v (.binary op · tl tr)).kind = v.kind := by
    rw [Typed.kind, static_folded fun _ => rfl]
  rw [left.kind_eq hl, right.kind_eq hr, kind]
  obtain ⟨⟨hop, kinds, admits⟩, -, -, result⟩ := binary_eq_ok hv
  exact ⟨hop, kinds, admits, result⟩

/-! ## The code of a tree -/

/-- A value that is held as a number, and code that pushes it and changes nothing else. -/
def Pushes (locals : Nat → Option Int32) (globals : String → Option Int32) (u : Typed) (v : Value) :
    Prop :=
  v.kind = u.kind ∧ ∃ n, v.operand? = some (.int n) ∧ ∀ stem m k out,
    Turns k locals (u.lower stem m).1 (globals, out) (globals, out) [] [.int n]

theorem pushes_constant {v : Value} (word : v.kind.isWord) (held : v.isInit) :
    Pushes locals globals (.constant v) v := by
  obtain ⟨i, n, constant, number⟩ := exists_constant?_of_isWord word held
  refine ⟨rfl, n, number, fun stem m k out => ?_⟩
  obtain ⟨o, same, turns⟩ := Source.turns_constant constant
  cases number.symm.trans same
  rw [lower, constant]
  exact turns

theorem pushes (h : Unfolds Γ e u) (holds : ∀ name ∈ e.names, Γ.Holds σ locals globals name)
    (comparable : u.Comparable σ) (word : u.kind.isWord) :
    (∃ v, u.evaluate σ = .ok v ∧ Pushes locals globals u v) ∨
      ∃ f, u.evaluate σ = .error f ∧ f.isMismatch = false := by
  induction h with
  | @known e v type held => exact .inl ⟨v, by rw [evaluate], pushes_constant word held⟩
  | @var name kind l ref =>
    obtain ⟨same, n, image, lives⟩ := holds name (by simp [Expr.names]) kind l ref
    refine .inl ⟨σ name, by rw [evaluate], same, n, operand?_of_intImage? image,
      fun stem m k out => ?_⟩
    rw [lower]
    rcases lives with ⟨rfl, stored⟩ | ⟨i, rfl, stored⟩
    · exact Source.turns_loadGlobal stored
    · exact Source.turns_loadLocal stored
  | @unary op e t u type tree ih =>
    simp only [Expr.names] at holds
    simp only [Comparable] at comparable
    obtain ⟨same, ops⟩ := operand_of_unary type tree word
    rw [evaluate]
    rcases ih holds comparable (same ▸ word) with ⟨v, found, kind, n, operand, turns⟩ |
      ⟨f, failed, division⟩
    · rw [← kind] at ops
      obtain ⟨w, o, applied, kind', operand', turns'⟩ := Source.turns_unary operand ops
      have result : w.kind = t.kind := by rw [kind', kind, same]
      obtain ⟨n', number, rfl⟩ := operand?_of_isWord (result ▸ word) operand'
      rw [found]
      refine .inl ⟨w, applied, result, n', number, fun stem m k out => ?_⟩
      rw [lower]
      exact (turns stem m k out).append (turns' k locals (globals, out))
    · rw [failed]
      exact .inr ⟨f, rfl, division⟩
  | @binary op l r t u w type operand left right ihl ihr =>
    simp only [Expr.names, List.forall_mem_append] at holds
    simp only [Comparable] at comparable
    obtain ⟨binary, kinds, admits, result⟩ := operands_of_binary type left right
    rw [evaluate]
    rcases ihl holds.1 comparable.1 operand with ⟨a, foundl, kindl, n, numberl, turnsl⟩ |
      ⟨f, failed, division⟩
    · rcases ihr holds.2 comparable.2.1 (kinds ▸ operand) with
        ⟨b, foundr, kindr, m, numberr, turnsr⟩ | ⟨f, failed, division⟩
      · have applied (stem : String) := Source.binaryTurns_of_isWord stem numberl numberr
          (kindl ▸ operand) (by rw [kindr, kinds, kindl]) binary (kindl ▸ admits)
          (comparable.2.2 a b foundl foundr)
        rw [foundl, foundr]
        show (∃ v, Value.binary op a b = .ok v ∧ _) ∨ ∃ f, Value.binary op a b = .error f ∧ _
        unfold BinaryTurns at applied
        cases hv : Value.binary op a b with
        | error f =>
          simp only [hv] at applied
          exact .inr ⟨f, rfl, applied ""⟩
        | ok v =>
          simp only [hv] at applied
          obtain ⟨kind, o, operand', -⟩ := applied ""
          have kind' : v.kind = t.kind := by rw [kind, kindl, result]
          obtain ⟨i, number, -⟩ := operand?_of_isWord (kind' ▸ word) operand'
          refine .inl ⟨v, rfl, kind', i, number, fun stem j k out => ?_⟩
          obtain ⟨-, o, same, turns⟩ := applied stem
          cases number.symm.trans same
          rw [lower]
          exact (turnsl stem j k out).append
            (((turnsr stem _ k out).above [.int n]).append (turns k locals (globals, out) _))
      · rw [foundl, failed]
        exact .inr ⟨f, rfl, division⟩
    · rw [failed]
      exact .inr ⟨f, rfl, division⟩

theorem exists_writes_binary (binary : op.isBinary) (hg : g.phase = .method) :
    ∃ g', (if op.isRelational then Emit.relation op else operation op).Writes g () g' := by
  cases relational : op.isRelational with
  | true =>
    obtain ⟨c, hc⟩ := Cond.exists_ofOperator? relational
    exact exists_writes_relation hc hg
  | false =>
    obtain ⟨code, hcode⟩ : ∃ code, operationCode? op = some code := by
      rcases Source.isBinary_cases binary relational with
        rfl | rfl | rfl | rfl | rfl | rfl | rfl <;> exact ⟨_, rfl⟩
    exact ⟨_, writes_operation.mpr ⟨code, hcode, hg, rfl⟩⟩

theorem exists_writes (h : Unfolds Γ e u) (holds : ∀ name ∈ e.names, Γ.Holds σ locals globals name)
    (word : u.kind.isWord) (hg : g.phase = .method) :
    ∃ g', u.emit.Writes g () g' := by
  induction h generalizing g with
  | @known e v type held =>
    obtain ⟨i, -, constant, -⟩ := exists_constant?_of_isWord word held
    rw [emit]
    exact ⟨_, writes_loadConst.mpr ⟨i, constant, hg, rfl⟩⟩
  | @var name kind l ref =>
    obtain ⟨-, n, -, lives⟩ := holds name (by simp [Expr.names]) kind l ref
    rw [emit]
    rcases lives with ⟨rfl, -⟩ | ⟨i, rfl, -⟩
    · exact ⟨_, writes_loadGlobal.mpr ⟨hg, rfl⟩⟩
    · exact ⟨_, writes_loadLocal.mpr ⟨hg, Int.natCast_nonneg i, rfl⟩⟩
  | @unary op e t u type tree ih =>
    simp only [Expr.names] at holds
    obtain ⟨same, ops⟩ := operand_of_unary type tree word
    obtain ⟨g₁, writes⟩ := ih holds (same ▸ word) hg
    have phase : g₁.phase = .method := (u.adds_of_emit writes rfl rfl).phase.trans hg
    obtain ⟨code, hcode⟩ : ∃ code, operationCode? op = some code := by
      rcases ops with ⟨rfl, -⟩ | ⟨rfl, -⟩ <;> exact ⟨_, rfl⟩
    rw [emit]
    exact ⟨_, writes_bind.mpr ⟨(), g₁, writes,
      writes_operation.mpr ⟨code, hcode, phase, rfl⟩⟩⟩
  | @binary op l r t u w type operand left right ihl ihr =>
    simp only [Expr.names, List.forall_mem_append] at holds
    obtain ⟨binary, kinds, -, -⟩ := operands_of_binary type left right
    obtain ⟨g₁, writes₁⟩ := ihl holds.1 operand hg
    have phase₁ : g₁.phase = .method := (u.adds_of_emit writes₁ rfl rfl).phase.trans hg
    obtain ⟨g₂, writes₂⟩ := ihr holds.2 (kinds ▸ operand) phase₁
    have phase₂ : g₂.phase = .method := (w.adds_of_emit writes₂ rfl rfl).phase.trans phase₁
    obtain ⟨g₃, writes₃⟩ := exists_writes_binary binary phase₂
    rw [emit]
    exact ⟨g₃, writes_bind.mpr ⟨(), g₁, writes₁,
      writes_bind.mpr ⟨(), g₂, writes₂, writes₃⟩⟩⟩

end Unfolds

/-! ## Expressions in a walk -/

namespace Walk

variable (cfg : Config) (pos : Position)

/-- An expression without calls was typed as a whole number or a truth value, and its variables are
where the machine looks for them. If it divides by no zero, all trees for it, with more or fewer of
the known parts computed, can be written into a method. Wherever it stands, the code takes the
machine from its start to its end and pushes the number of the value of the expression, provided
that no comparison that is left to the machine has operands too far apart. Nothing else changes. -/
theorem code_pushes_value {c : State} {e : Expr} {t : Typed} (complete : e.Complete)
    (callFree : e.isCallFree) (constant : c.scopes.Constant)
    (typed : ((typeExpr cfg pos e).run c).1 = some t)
    (kind : t.kind = .integer ∨ t.kind = .boolean) (σ : String → Value)
    (locals : Nat → Option Int32) (globals : String → Option Int32)
    (holds : ∀ name ∈ e.names, c.scopes.Holds σ locals globals name)
    (divides : ∀ op n, c.scopes.evaluate (.steady σ) [] e ≠ .error (.divisionByZero op n)) :
    Unfolds c.scopes e t ∧ ∀ u, Unfolds c.scopes e u → u.Comparable σ →
      ∃ v n, c.scopes.evaluate (.steady σ) [] e = .ok v ∧ v.kind = t.kind ∧
        v.intImage? = some n ∧ ∀ g : Generator, g.phase = .method → ∃ g' code,
          u.emit.Writes g () g' ∧
          g'.lines.toList = g.lines.toList ++ code.map (fun i => (g.depth, .instr i)) ∧
          Numbered g.labels.stem code g.labels.counter g'.labels.counter ∧
          ∀ (k : Assembly.Class) (f : Frame) fs rest stack out, f.locals = locals →
            f.EndsWith (code ++ rest) →
            Machine.Runs k ⟨f.set (code ++ rest) stack :: fs, globals, out⟩
              ⟨f.set rest (.int n :: stack) :: fs, globals, out⟩ := by
  have type := type?_of_typeExpr cfg pos typed
  have storable : isStorable t.kind := by
    rcases kind with kind | kind <;> rw [kind] <;> rfl
  refine ⟨Scopes.unfolds_of_type? constant e complete callFree holds type,
    fun u tree comparable => ?_⟩
  have same : u.kind = t.kind := tree.kind_eq type
  have word : u.kind.isWord := Kind.isWord_of_isStorable (same ▸ storable)
  have value := tree.evaluate_eq (σ := σ) []
  rcases tree.pushes holds comparable word with ⟨v, found, kind', n, operand, turns⟩ |
    ⟨f, failed, division⟩
  · have kindv : v.kind = t.kind := kind'.trans same
    obtain ⟨m, image, number⟩ := Value.exists_intImage? (kindv ▸ storable) operand
    cases number
    refine ⟨v, n, value ▸ found, kindv, image, fun g hg => ?_⟩
    obtain ⟨g', writes⟩ := tree.exists_writes holds word hg
    have adds := u.adds_of_emit writes rfl rfl
    refine ⟨g', _, writes, adds.lines, ?_, fun k f fs rest stack out hl ends => ?_⟩
    · rw [adds.counter]
      exact u.numbered g.labels.stem g.labels.counter
    · exact turns _ _ k out f fs rest stack hl ends
  · cases f with
    | divisionByZero op n => exact absurd (value ▸ failed) (divides op n)
    | _ => cases division

/-- Whether `n` is below two times four. -/
def below : Expr :=
  .binary .less (.ref "n") (.binary .mul (.literal (.int 2)) (.literal (.int 4)))

/-- With five in `n` both trees push one: the one with the product computed, and the one in which
the machine multiplies. -/
theorem code_pushes_value_below :
    let n : Typed := .variable "n" .integer .global
    let product : Typed := .binary .mul .integer (.constant (.int 2)) (.constant (.int 4))
    let globals : String → Option Int32 := fun _ => some 5
    ((typeExpr ⟨"", 3⟩ {} below).run (holdingN ⟨"", 3⟩)).1 =
      some (.binary .less .boolean n (.constant (.int 8))) ∧
    ∀ right ∈ [.constant (.int 8), product], ∃ g' code,
      (Typed.binary .less .boolean n right).emit.Writes Emit.inMethod () g' ∧
      ∀ (k : Assembly.Class) (f : Frame) fs rest stack out, f.locals = (fun _ => none) →
        f.EndsWith (code ++ rest) →
        Machine.Runs k ⟨f.set (code ++ rest) stack :: fs, globals, out⟩
          ⟨f.set rest (.int 1 :: stack) :: fs, globals, out⟩ := by
  intro n product globals
  have typed : ((typeExpr ⟨"", 3⟩ {} below).run (holdingN ⟨"", 3⟩)).1 =
      some (.binary .less .boolean n (.constant (.int 8))) := rfl
  have value : (holdingN ⟨"", 3⟩).scopes.evaluate (.steady fun _ => .int 5) [] below =
      .ok (.bool true) := rfl
  have holds : ∀ name ∈ below.names,
      (holdingN ⟨"", 3⟩).scopes.Holds (fun _ => .int 5) (fun _ => none) globals name := by
    intro name mem kind l ref
    cases List.mem_singleton.mp (show name ∈ ["n"] from mem)
    cases (show some (Typed.variable "n" .integer .global) = some (.variable "n" kind l) from ref)
    exact ⟨rfl, 5, rfl, .inl ⟨rfl, rfl⟩⟩
  obtain ⟨tree, pushes⟩ := code_pushes_value ⟨"", 3⟩ {} (e := below)
    (by simp [below, Expr.Complete, Value.isInit]) rfl constant_holdingN typed (.inr rfl)
    (fun _ => .int 5) (fun _ => none) globals holds (by simp [value])
  have multiplied : Unfolds (holdingN ⟨"", 3⟩).scopes below (.binary .less .boolean n product) :=
    .binary (t := .binary .less .boolean n (.constant (.int 8))) rfl rfl (.var rfl)
      (.binary (t := .constant (.int 8)) rfl rfl (.known rfl rfl) (.known rfl rfl))
  refine ⟨typed, fun right mem => ?_⟩
  have tree : Unfolds (holdingN ⟨"", 3⟩).scopes below (.binary .less .boolean n right) := by
    rcases List.mem_pair.mp mem with rfl | rfl
    · exact tree
    · exact multiplied
  have comparable : (Typed.binary .less .boolean n right).Comparable fun _ => .int 5 := by
    rcases List.mem_pair.mp mem with rfl | rfl
    · exact ⟨trivial, trivial, by rintro _ _ ⟨⟩ ⟨⟩; decide⟩
    · refine ⟨trivial, ⟨trivial, trivial, ?_⟩, ?_⟩ <;> rintro _ _ ⟨⟩ ⟨⟩ <;> decide
  obtain ⟨v, m, found, -, image, code⟩ := pushes _ tree comparable
  cases value.symm.trans found
  cases image
  obtain ⟨g', code, writes, -, -, runs⟩ := code Emit.inMethod rfl
  exact ⟨g', code, writes, runs⟩

end Walk

end Compile

end Jasm

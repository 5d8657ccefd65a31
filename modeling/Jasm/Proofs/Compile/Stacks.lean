import Jasm.Proofs.Assembly.Verification
import Jasm.Proofs.Compile.Bodies
import Jasm.Proofs.Compile.Classes
import Jasm.Proofs.Compile.Endings
import Jasm.Proofs.Compile.Numbering
import Jasm.Proofs.Compile.Trails

/-!
# Operand stacks of resolved programs

The code of an expression leaves one operand more than it finds, and the code of a statement starts
and ends with an empty stack. So all that a verifier has to know about the code of a program can be
read off its resolved form: which operands stand where, and how many of them there are at most.
-/

namespace Jasm.Compile

open Assembly TypedStmt Signature Scopes List Option
open Program (Stmt)

/-! ## Expressions -/

/-- How a value of a kind is seen on an operand stack. -/
def operandType : Kind → OperandType
  | .string => .string
  | _ => .int

theorem operandType_of_isStorable {kind : Kind} (h : isStorable kind) :
    operandType kind = .int := by
  cases kind <;> first | rfl | cases h

theorem operandType_of_ofKind? {kind : Kind} {what : Printed}
    (h : Printed.ofKind? kind = some what) :
    operandType kind = what.operandType := by
  cases kind <;> cases h <;> rfl

mutual

/-- How many operands the code of an expression needs room for, its result among them. -/
def Typed.need : Typed → Nat
  | .constant _ | .variable .. => 1
  | .unary op _ e => if op = .not then max e.need 2 else e.need
  | .binary _ _ l r => max l.need (r.need + 1)
  | .call _ args => max (needArgs args) 1

def needArgs : List Typed → Nat
  | [] => 0
  | t :: rest => max t.need (needArgs rest + 1)

end

theorem Typed.need_pos (t : Typed) : 1 ≤ t.need := by
  cases t with
  | constant | «variable» => simp [Typed.need]
  | unary op kind e =>
    have := e.need_pos
    rw [Typed.need]
    split <;> omega
  | _ =>
    rw [Typed.need]
    omega

theorem length_le_needArgs (args : List Typed) : args.length ≤ needArgs args := by
  induction args with
  | nil => exact Nat.zero_le _
  | cons t rest ih =>
    rw [length_cons, needArgs]
    omega

section

variable {returns : Bool} {stem : String} {σ : StackType}

theorem verifiable_constant {v : Value} {i : Instruction} (h : Emit.constant? v = some i) :
    Verifiable returns [i] σ (operandType v.kind :: σ) (σ.length + 1) [] := by
  have effect : i.effect? returns σ = some (operandType v.kind :: σ) ∧ i.target? = none := by
    cases v <;> cases h
    case int n | char n =>
      unfold Emit.pushNumber
      split <;> exact ⟨rfl, rfl⟩
    all_goals exact ⟨rfl, rfl⟩
  have none : i.label? = none := by
    have := labels_constant v
    rw [h] at this
    simpa using this
  exact .plain effect.1 effect.2 none (by simp)

theorem verifiable_load (name : String) (l : Location) :
    Verifiable returns [loadCode name l] σ (.int :: σ) (σ.length + 1) [] := by
  unfold loadCode
  split <;> exact .plain rfl rfl rfl (by simp)

theorem verifiable_unary {op : Operator} {kind : Kind}
    (h : op = .neg ∧ kind = .integer ∨ op = .not ∧ kind = .boolean) :
    Verifiable returns ((Emit.operationCode? op).getD []) (.int :: σ) (.int :: σ)
      (σ.length + if op = .not then 2 else 1) [] := by
  rcases h with ⟨rfl, -⟩ | ⟨rfl, -⟩
  · exact .plain rfl rfl rfl (by simp)
  · have pushed : Verifiable returns [.pushBool true] (.int :: σ) (.int :: .int :: σ) _ [] :=
      .plain rfl rfl rfl rfl
    exact (pushed.append (.plain rfl rfl rfl rfl)).congr (by simp)

theorem verifiable_binary {op : Operator} (h : op.isBinary) (n : Nat) :
    Verifiable returns (binaryCode stem op n).1 (.int :: .int :: σ) (.int :: σ) (σ.length + 2)
      [] := by
  unfold binaryCode
  split
  · next hr =>
      obtain ⟨c, hc⟩ : ∃ c, Cond.ofOperator? op = some c := by
        cases op <;> cases hr <;> exact ⟨_, rfl⟩
      rw [hc]
      refine ⟨[(labelOf stem n, σ), (labelOf stem (n + 1), .int :: σ)], ?_, fun K hK => ?_⟩
      · simp [Emit.relationCode, Instruction.label?]
      · exact .relation c (hK (labelOf stem n, σ) (by simp))
          (hK (labelOf stem (n + 1), .int :: σ) (by simp))
  · next hr =>
      cases op <;> first | cases h; done | exact absurd rfl hr |
        exact .plain rfl rfl rfl (by simp)

theorem verifiable_invoke (returns : Bool) (σ : StackType) {f : Signature} (args : List Typed)
    (kinds : args.map Typed.kind = f.params) :
    Verifiable returns [.invoke f.name f.arity f.result?.isSome]
      (List.replicate args.length .int ++ σ) (if f.result?.isSome then .int :: σ else σ)
      (σ.length + max args.length (if f.result?.isSome then 1 else 0)) [] := by
  have arity : f.arity = args.length := by rw [arity, ← kinds, length_map]
  refine .plain ?_ rfl rfl ?_
  · show (takeInts f.arity _).map _ = _
    rw [arity, takeInts_replicate]
    rfl
  · cases f.result?.isSome <;> simp <;> omega

end

mutual

theorem Typed.verifiable (returns : Bool) (stem : String) : (t : Typed) → t.Sound → (n : Nat) →
    (σ : StackType) → Verifiable returns (t.lower stem n).1 σ (operandType t.kind :: σ)
      (σ.length + t.need) []
  | .constant v, sound, n, σ => by
    obtain ⟨i, hi⟩ := isSome_iff_exists.mp (by simpa only [Typed.Sound] using sound)
    rw [Typed.lower, hi]
    exact verifiable_constant hi
  | .variable name kind l, sound, n, σ => by
    have storable : isStorable kind := by simpa only [Typed.Sound] using sound
    rw [Typed.lower, show operandType (Typed.variable name kind l).kind = .int from
      operandType_of_isStorable storable]
    exact verifiable_load name l
  | .unary op kind e, sound, n, σ => by
    simp only [Typed.Sound] at sound
    obtain ⟨he, rfl, hop⟩ := sound
    have int : operandType e.kind = .int := by
      rcases hop with ⟨-, hk⟩ | ⟨-, hk⟩ <;> rw [hk] <;> rfl
    have inner := e.verifiable returns stem he n σ
    rw [int] at inner
    rw [Typed.lower, show operandType (Typed.unary op e.kind e).kind = .int from int]
    have pos := e.need_pos
    refine (inner.append (verifiable_unary hop)).congr ?_
    rw [Typed.need]
    split <;> omega
  | .binary op kind l r, sound, n, σ => by
    simp only [Typed.Sound] at sound
    obtain ⟨hl, hr, hk, storable, hb, -, rfl⟩ := sound
    have int : operandType (Typed.binary op (op.resultKind l.kind) l r).kind = .int := by
      show operandType (op.resultKind l.kind) = .int
      unfold Operator.resultKind
      split
      · rfl
      · exact operandType_of_isStorable storable
    have left := l.verifiable returns stem hl n σ
    have right := r.verifiable returns stem hr (l.lower stem n).2 (.int :: σ)
    rw [operandType_of_isStorable storable] at left
    rw [hk, operandType_of_isStorable storable, length_cons] at right
    have pos := r.need_pos
    rw [Typed.lower, int, Typed.need]
    exact (left.append (right.append (verifiable_binary hb _))).congr (by omega)
  | .call f args, sound, n, σ => by
    simp only [Typed.Sound] at sound
    obtain ⟨hargs, kinds, storable, result⟩ := sound
    have ⟨params, given⟩ := isStorable_iff.mp storable
    have int : operandType (Typed.call f args).kind = .int := by
      obtain ⟨k, hk⟩ := isSome_iff_exists.mp result
      have := given k hk
      unfold result? at hk
      split at hk <;> cases hk
      exact operandType_of_isStorable this
    have pushed := verifiable_lowerArgs returns stem args hargs (kinds ▸ params) n σ
    have called := verifiable_invoke returns σ args kinds
    rw [Typed.lower, int, Typed.need]
    rw [result] at called ⊢
    have enough := length_le_needArgs args
    exact (pushed.append called).congr (by simp only [if_true]; omega)

theorem verifiable_lowerArgs (returns : Bool) (stem : String) : (args : List Typed) →
    areSound args → (∀ k ∈ args.map Typed.kind, isStorable k) → (n : Nat) → (σ : StackType) →
    Verifiable returns (lowerArgs stem args n).1 σ (List.replicate args.length .int ++ σ)
      (σ.length + needArgs args) []
  | [], _, _, n, σ => by
    rw [lowerArgs]
    exact .of_piece (fun K => .nil σ) rfl
  | t :: rest, sound, storable, n, σ => by
    simp only [areSound] at sound
    have first := t.verifiable returns stem sound.1 n σ
    rw [operandType_of_isStorable (storable _ (by simp))] at first
    have others := verifiable_lowerArgs returns stem rest sound.2
      (fun k hk => storable k (mem_cons_of_mem _ hk)) (t.lower stem n).2 (.int :: σ)
    rw [length_cons] at others
    rw [lowerArgs, needArgs, length_cons, replicate_succ', append_assoc]
    exact (first.append others).congr (by omega)

end

/-! ## Statements -/

mutual

def TypedStmt.need : TypedStmt → Nat
  | .skip | .ret none => 0
  | .store t _ _ | .ret (some t) => t.need
  | .print t _ => t.need + 1
  | .branch cond thenBody elseBody => max cond.need (max (needAll thenBody) (needAll elseBody))
  | .loop cond body => max cond.need (needAll body)
  | .call f args => max (needArgs args) (if f.result?.isSome then 1 else 0)
  | .block body => needAll body

def needAll : List TypedStmt → Nat
  | [] => 0
  | T :: rest => max T.need (needAll rest)

end

mutual

/-- Where in the code of a statement the statements inside it begin and end, as numbers of the
instructions before. -/
def TypedStmt.boundaries (stem : String) : TypedStmt → Nat → List Nat
  | .branch cond thenBody elseBody, n =>
    let test := cond.lower stem n
    let first := lowerAll stem thenBody (test.2 + 1)
    (boundariesAll stem thenBody (test.2 + 1)).map (test.1.length + 1 + ·) ++
      match elseBody with
      | [] => []
      | s :: rest =>
        let behind := test.1.length + 1 + first.1.length
        if endsTerminal first.1 then
          (boundariesAll stem (s :: rest) first.2).map (behind + 1 + ·)
        else (boundariesAll stem (s :: rest) (first.2 + 1)).map (behind + 2 + ·)
  | .loop cond body, n =>
    let test := cond.lower stem (n + 2)
    (boundariesAll stem body test.2).map (test.1.length + 2 + ·)
  | .block body, n => boundariesAll stem body n
  | .skip, _ | .store .., _ | .print .., _ | .ret _, _ | .call .., _ => []

/-- Where in the code of some statements each of them begins and ends, and each of those inside
them. -/
def boundariesAll (stem : String) : List TypedStmt → Nat → List Nat
  | [], _ => [0]
  | T :: rest, n =>
    let first := T.lower stem n
    0 :: T.boundaries stem n ++ (boundariesAll stem rest first.2).map (first.1.length + ·)

end

section

variable {stem : String} {returns : Bool} {t cond : Typed}

theorem verifiable_store (sound : t.Sound) (storable : isStorable t.kind) (name : String)
    (l : Location) (n : Nat) :
    Verifiable returns ((store t name l).lower stem n).1 [] [] t.need [] := by
  have value := t.verifiable returns stem sound n []
  rw [operandType_of_isStorable storable] at value
  have stored : Verifiable returns [storeCode name l] [.int] [] 1 [] := by
    unfold storeCode
    split <;> exact .plain rfl rfl rfl rfl
  have pos := t.need_pos
  rw [lower]
  exact (value.append stored).congr (by rw [length_nil]; omega)

theorem verifiable_print {what : Printed} (sound : t.Sound)
    (hw : Printed.ofKind? t.kind = some what) (newline : Bool) (n : Nat) :
    Verifiable returns ((print t newline).lower stem n).1 [] [] (t.need + 1) [] := by
  have stream : Verifiable returns [.pushStream] [] [.stream] 1 [] := .plain rfl rfl rfl rfl
  have value := t.verifiable returns stem sound n [.stream]
  have shown : Verifiable returns [.print what newline] [operandType t.kind, .stream] [] 2 [] :=
    .plain (if_pos (operandType_of_ofKind? hw)) rfl rfl rfl
  have pos := t.need_pos
  rw [lower, hw]
  exact (stream.append (value.append shown)).congr (by rw [length_singleton]; omega)

theorem verifiable_ret (sound : t.Sound) (storable : isStorable t.kind) (n : Nat) :
    Verifiable true ((ret (some t)).lower stem n).1 [] [] t.need [] := by
  have value := t.verifiable true stem sound n []
  rw [operandType_of_isStorable storable] at value
  have returned : Verifiable true [.retValue] [.int] [] 1 [] := .plain rfl rfl rfl rfl
  have pos := t.need_pos
  rw [lower]
  exact (value.append returned).congr (by rw [length_nil]; omega)

theorem verifiable_call {f : Signature} {args : List Typed} (sound : areSound args)
    (kinds : args.map Typed.kind = f.params) (storable : f.isStorable) (n : Nat) :
    Verifiable returns ((call f args).lower stem n).1 [] [] (call f args).need
      [] := by
  have pushed := verifiable_lowerArgs returns stem args sound
    (kinds ▸ (isStorable_iff.mp storable).1) n []
  have called := verifiable_invoke returns [] args kinds
  have enough := length_le_needArgs args
  rw [lower, need]
  cases hr : f.result?.isSome with
  | false =>
    rw [hr] at called
    exact (pushed.append called).congr (by simp [enough])
  | true =>
    rw [hr] at called
    have popped : Verifiable returns [.pop] [.int] [] 1 [] := .plain rfl rfl rfl rfl
    refine (pushed.append (called.append popped)).congr ?_
    simp only [length_nil, if_true]
    omega

theorem verifiable_branch {thenBody elseBody : List TypedStmt} (sound : cond.Sound)
    (kind : cond.kind = .boolean)
    (first : ∀ m, Verifiable returns (lowerAll stem thenBody m).1 [] [] (needAll thenBody)
      (boundariesAll stem thenBody m))
    (second : ∀ m, Verifiable returns (lowerAll stem elseBody m).1 [] [] (needAll elseBody)
      (boundariesAll stem elseBody m))
    (n : Nat) :
    let T := branch cond thenBody elseBody
    Verifiable returns (T.lower stem n).1 [] [] T.need (T.boundaries stem n) := by
  intro T
  have test := cond.verifiable returns stem sound n []
  rw [kind, length_nil, Nat.zero_add] at test
  have first := first ((cond.lower stem n).2 + 1)
  have skipping {code : List Instruction} {depth : Nat} {bs : List Nat}
      (behind : Verifiable returns code [] [] depth bs) :=
    test.testing first behind [] [] [] rfl (fun _ _ => ⟨.nil [], .nil [], .nil []⟩)
      (labelOf stem (cond.lower stem n).2)
  cases elseBody with
  | nil =>
    simpa [T, lower, boundaries, need, needAll] using skipping .nil
  | cons s rest =>
    cases ends : endsTerminal (lowerAll stem thenBody ((cond.lower stem n).2 + 1)).1 with
    | true =>
      simpa [T, lower, boundaries, need, ends] using
        skipping (second (lowerAll stem thenBody ((cond.lower stem n).2 + 1)).2)
    | false =>
      let next := (lowerAll stem thenBody ((cond.lower stem n).2 + 1)).2
      have choosing := test.testing first (second (next + 1)) [] [.goto (labelOf stem next)]
        [.label (labelOf stem next)] rfl (fun K hK =>
          have joined := hK (labelOf stem next) (by simp [Instruction.label?])
          ⟨.nil [], .goto joined [], .label joined⟩) (labelOf stem (cond.lower stem n).2)
      simpa [T, lower, boundaries, need, ends] using choosing

theorem verifiable_loop {body : List TypedStmt} (sound : cond.Sound) (kind : cond.kind = .boolean)
    (inner : ∀ m, Verifiable returns (lowerAll stem body m).1 [] [] (needAll body)
      (boundariesAll stem body m))
    (n : Nat) :
    let T := loop cond body
    Verifiable returns (T.lower stem n).1 [] [] T.need (T.boundaries stem n) := by
  intro T
  have test := cond.verifiable returns stem sound (n + 2) []
  rw [kind, length_nil, Nat.zero_add] at test
  have looping := test.testing (inner (cond.lower stem (n + 2)).2) .nil [.label (labelOf stem n)]
    [.goto (labelOf stem n)] [] rfl (fun K hK =>
      have again := hK (labelOf stem n) (by simp [Instruction.label?])
      ⟨.label again, .goto again [], .nil []⟩) (labelOf stem (n + 1))
  simpa [T, lower, boundaries, need, Nat.add_comm 1] using looping

end

mutual

/-- The code of a statement passes the verifier, one case for each form. -/
theorem verifiable_stmt {limit : Int} {f : Option Signature} (stem : String)
    (storable : ∀ g ∈ f, g.isStorable) : (s : Stmt) → {Γ Γ' : Scopes} → {T : TypedStmt} →
      Γ.Good → Γ.stmt? limit f s = some (T, Γ') → (n : Nat) →
      Verifiable (f.bind result?).isSome (T.lower stem n).1 [] [] T.need
        (T.boundaries stem n)
  | .declare _ d, Γ, Γ', T, good, h, n => by
    obtain ⟨-, -, -, -, -, rfl | ⟨name, kind, e, t, l, hk, value, -, rfl⟩⟩ :=
      declare?_eq_some (by simpa only [stmt?] using h)
    · rw [lower, need, boundaries]
      exact .nil
    · obtain ⟨-, sound, rfl⟩ := Typed.sound_of_valueOf? good value
      rw [need, boundaries]
      exact verifiable_store sound hk ..
  | .assign _ name e, Γ, Γ', T, good, h, n => by
    obtain ⟨depth, form, id, v, slot, t, found, value, rfl, -⟩ := stmt?_assign h
    obtain ⟨-, sound, kind⟩ := Typed.sound_of_valueOf? good value
    have storable : isStorable v.kind := (good.find? found).item
    rw [need, boundaries]
    exact verifiable_store sound (kind ▸ storable) ..
  | .print _ newline e, Γ, Γ', T, good, h, n => by
    obtain ⟨t, what, value, printed, rfl, -⟩ := stmt?_print h
    obtain ⟨-, sound⟩ := Typed.sound_of_value? good value
    rw [need, boundaries]
    exact verifiable_print sound printed ..
  | .branch _ cond thenBody elseBody, Γ, Γ', T, good, h, n => by
    obtain ⟨t, first, Γ₁, second, Γ₂, value, h₁, h₂, rfl, -⟩ := stmt?_branch h
    obtain ⟨-, sound, kind⟩ := Typed.sound_of_valueOf? good value
    exact verifiable_branch sound kind
      (verifiable_stmts stem storable thenBody good.enter h₁)
      (verifiable_stmts stem storable elseBody good.enter h₂) n
  | .loop _ cond body, Γ, Γ', T, good, h, n => by
    obtain ⟨t, inner, Γ₁, value, h₁, rfl, -⟩ := stmt?_loop h
    obtain ⟨-, sound, kind⟩ := Typed.sound_of_valueOf? good value
    exact verifiable_loop sound kind (verifiable_stmts stem storable body good.enter h₁) n
  | .ret _ e, Γ, Γ', T, good, h, n => by
    obtain ⟨-, ⟨none, -, rfl⟩ | ⟨want, e', t, result, -, value, rfl⟩⟩ := stmt?_ret h
    · rw [none, lower, need, boundaries]
      exact .plain rfl rfl rfl rfl
    · obtain ⟨-, sound, kind⟩ := Typed.sound_of_valueOf? good value
      obtain ⟨g, hg, hr⟩ := bind_eq_some_iff.mp result
      have given := (isStorable_iff.mp (storable g hg)).2 want hr
      rw [result, need, boundaries]
      exact verifiable_ret sound (kind ▸ given) n
  | .call _ name args, Γ, Γ', T, good, h, n => by
    obtain ⟨g, ts, called, rfl, -⟩ := stmt?_call h
    obtain ⟨-, types, kinds, given, writable⟩ := call?_eq_some called
    rw [boundaries]
    exact verifiable_call (areSound_of_types? good args types writable) kinds given n
  | .block _ body, Γ, Γ', T, good, h, n => by
    obtain ⟨inner, Γ₁, h₁, rfl, -⟩ := stmt?_block h
    rw [lower, need, boundaries]
    exact verifiable_stmts stem storable body good.enter h₁ n

theorem verifiable_stmts {limit : Int} {f : Option Signature} (stem : String)
    (storable : ∀ g ∈ f, g.isStorable) : (ss : List Stmt) → {Γ Γ' : Scopes} →
      {Ts : List TypedStmt} → Γ.Good → Γ.stmts? limit f ss = some (Ts, Γ') → (n : Nat) →
      Verifiable (f.bind result?).isSome (lowerAll stem Ts n).1 [] [] (needAll Ts)
        (boundariesAll stem Ts n)
  | [], Γ, Γ', Ts, good, h, n => by
    simp only [stmts?] at h
    cases h
    rw [lowerAll, needAll, boundariesAll]
    exact .of_piece (fun K => (Piece.nil []).start) rfl
  | s :: rest, Γ, Γ', Ts, good, h, n => by
    obtain ⟨T, Γ₁, others, h₁, h₂, rfl⟩ := stmts?_cons h
    have first := verifiable_stmt stem storable s good h₁ n
    have second := verifiable_stmts stem storable rest (good.stmt? h₁) h₂ (T.lower stem n).2
    rw [lowerAll, needAll, boundariesAll]
    exact (first.append second).start

end

/-! ## Programs -/

/-- The body of a method: the code of its statements, and a return behind it if it gives no
result. -/
def bodyCode (stem : String) (returns : Bool) (Ts : List TypedStmt) (n : Nat) : List Instruction :=
  (lowerAll stem Ts n).1 ++ if returns then [] else [.ret]

/-- A body passes the verifier with an empty stack at the boundaries of its statements, and the
deepest of its stacks is as deep as its statements need. -/
def BodyVerified (stem : String) (returns : Bool) (Ts : List TypedStmt) (n : Nat) : Prop :=
  ∃ typing, Verified returns (bodyCode stem returns Ts n) (boundariesAll stem Ts n) typing ∧
    (∀ i < (bodyCode stem returns Ts n).length, (typing i).length ≤ needAll Ts) ∧
    ∃ i < (bodyCode stem returns Ts n).length, (typing i).length = needAll Ts

theorem exists_last_of_endsTerminal {code : List Instruction} (h : endsTerminal code) :
    ∃ front i, code = front ++ [i] ∧ i.isTerminal := by
  unfold endsTerminal at h
  cases last : code.getLast? with
  | none =>
    rw [last] at h
    cases h
  | some i =>
    rw [last] at h
    obtain ⟨front, rfl⟩ := getLast?_eq_some_iff.mp last
    exact ⟨front, i, rfl, h⟩

theorem bodyVerified {limit : Int} {f : Option Signature} (stem : String)
    (storable : ∀ g ∈ f, g.isStorable) {ss : List Stmt} {Γ Γ' : Scopes}
    {Ts : List TypedStmt} (good : Γ.Good) (h : Γ.stmts? limit f ss = some (Ts, Γ'))
    (returns : (f.bind result?).isSome → Stmt.lastReturns ss) (n : Nat) :
    BodyVerified stem (f.bind result?).isSome Ts n := by
  have code := verifiable_stmts stem storable ss good h n
  have numbered := numbered_lowerAll stem Ts n
  -- The last instruction is a return, written behind the body or by its last statement.
  obtain ⟨front, i, split, ends, whole⟩ : ∃ front i,
      bodyCode stem (f.bind result?).isSome Ts n = front ++ [i] ∧ i.isTerminal ∧
      Verifiable (f.bind result?).isSome
        (bodyCode stem (f.bind result?).isSome Ts n) [] [] (needAll Ts)
        (boundariesAll stem Ts n) := by
    cases hr : (f.bind result?).isSome with
    | true =>
      obtain ⟨front, i, split, ends⟩ := exists_last_of_endsTerminal
        (endsTerminal_of_lastReturns stem ss (returns hr) h n)
      rw [hr] at code
      refine ⟨front, i, by simpa [bodyCode] using split, ends, by simpa [bodyCode] using code⟩
    | false =>
      rw [hr] at code
      have last : Verifiable false [.ret] [] [] 0 [] := .plain rfl rfl rfl rfl
      exact ⟨_, .ret, rfl, rfl, by simpa [bodyCode] using code.append last⟩
  have nodup : (labels (bodyCode stem (f.bind result?).isSome Ts n)).Nodup := by
    rw [bodyCode, labels_append]
    split <;> simpa [Instruction.label?] using numbered.nodup
  rw [split] at whole nodup
  unfold BodyVerified
  rw [split]
  exact whole.verified nodup ends

/-- A class is that of a program: its methods are those of the functions, in their order, and each
of its bodies is the code of some resolved statements, of which `P` holds. -/
structure EachBody (limit : Int) (stem : String) (p : Program) (k : Assembly.Class)
    (P : Bool → List TypedStmt → Nat → Prop) : Prop where
  methods : List.Forall₂ (fun f m => ∃ Γ Ts n, body? limit Γ f = some Ts ∧
    m = (method stem f.signature Ts n).1 ∧ P m.returns Ts n) p.functions k.methods
  entry : ∃ Γ Γ' Ts n, stmts? limit none Γ p.main = some (Ts, Γ') ∧
    k.entry = bodyCode stem false Ts n ∧ P false Ts n

variable {limit : Int} {stem : String} {p : Program} {k : Assembly.Class}

theorem EachBody.mono {P P' : Bool → List TypedStmt → Nat → Prop} (h : EachBody limit stem p k P)
    (weaker : ∀ returns Ts n, P returns Ts n → P' returns Ts n) : EachBody limit stem p k P' := by
  obtain ⟨Γ, Γ', Ts, n, resolved, code, holds⟩ := h.entry
  refine ⟨h.methods.imp ?_, Γ, Γ', Ts, n, resolved, code, weaker _ _ _ holds⟩
  rintro f m ⟨Γ, Ts, n, resolved, rfl, holds⟩
  exact ⟨Γ, Ts, n, resolved, rfl, weaker _ _ _ holds⟩

theorem eachBody_verified (h : class? limit stem p = some k) :
    EachBody limit stem p k (BodyVerified stem) := by
  obtain ⟨Γ, Γ', n, Ts, last, declared, methods, main, entry⟩ := class?_eq_some h
  have outside := outside_empty.globals? declared
  obtain ⟨outside', -, each⟩ := outside.methods? methods
  constructor
  · refine each.imp ?_
    rintro f m ⟨Γ₁, Ts, n, outside₁, -, resolved, rfl⟩
    obtain ⟨Γ₂, Γ₃, params, body, storable, returns⟩ := body?_eq_some resolved
    have good : Γ₂.Good := outside₁.good.enter.parameters?
      (isStorable_iff.mp storable).1 params
    have verified := bodyVerified stem (by simpa using storable) good body
      (by simpa using returns) n
    exact ⟨Γ₁, Ts, n, resolved, rfl, verified⟩
  · refine ⟨_, last, Ts, n, main, entry, ?_⟩
    exact bodyVerified (f := none) stem (by simp) outside'.good.enter main (by simp) n

namespace Walk

variable (cfg : Config) {c : State} {className : String} {o : Assembly.Options}

theorem exists_named_class {p : Program} (fresh : c.Fresh className o)
    (clean : (behind (program cfg p) c).Clean) :
    ∃ k, class? cfg.maxLocals o.withDefaults.labelStem p = some k ∧
      (behind (program cfg p) c).generator.lines.toList.map (·.2) = k.lines o.withDefaults ∧
      (behind (program cfg p) c).generator.className = className :=
  (ensures_program cfg).holds c () (behind (program cfg p) c) (Prod.ext rfl rfl) clean className o
    fresh

theorem exists_class (p : Program) (fresh : c.Fresh className o)
    (clean : (behind (program cfg p) c).Clean) :
    ∃ k, class? cfg.maxLocals o.withDefaults.labelStem p = some k ∧
      (behind (program cfg p) c).generator.lines.toList.map (·.2) = k.lines o.withDefaults := by
  obtain ⟨k, resolved, lines, -⟩ := exists_named_class cfg fresh clean
  exact ⟨k, resolved, lines⟩

/-- All that is written passes the verifier: each place in a body has one operand stack, whatever
way control comes there, it is empty where the body starts and between statements, and every
instruction finds what it needs. -/
theorem code_verified (p : Program) (fresh : c.Fresh className o)
    (clean : (behind (program cfg p) c).Clean) :
    ∃ k : Assembly.Class,
      (behind (program cfg p) c).generator.lines.toList.map (·.2) = k.lines o.withDefaults ∧
      EachBody cfg.maxLocals o.withDefaults.labelStem p k fun returns Ts n => ∃ typing,
        Verified returns (bodyCode o.withDefaults.labelStem returns Ts n)
          (boundariesAll o.withDefaults.labelStem Ts n) typing := by
  obtain ⟨k, resolved, lines⟩ := exists_class cfg p fresh clean
  refine ⟨k, lines, (eachBody_verified resolved).mono ?_⟩
  rintro returns Ts n ⟨typing, verified, -⟩
  exact ⟨typing, verified⟩

/-- A function that calls itself in one body of a branch, called in a loop. -/
def factorials : Program where
  name := "factorials"
  globals := [({}, .variable "i" .integer none)]
  functions := [{
    pos := {}
    name := "factorial"
    params := [("n", .integer)]
    ret := .integer
    body := [.branch {} (.binary .eq (.ref "n") (.literal (.int 0)))
      [.ret {} (some (.literal (.int 1)))]
      [.ret {} (some (.binary .mul (.ref "n")
        (.call "factorial" [.binary .sub (.ref "n") (.literal (.int 1))])))]] }]
  main := [.loop {} (.binary .less (.ref "i") (.literal (.int 3))) [
    .assign {} "i" (.binary .add (.ref "i") (.literal (.int 1))),
    .print {} true (.call "factorial" [.ref "i"])]]
  mainPos := {}

theorem code_verified_factorials :
    let cfg : Config := ⟨"", 3⟩
    let c : State := { generator := .new "factorials" {}, reporter := .collecting 10 }
    let o : Assembly.Options := Assembly.Options.withDefaults {}
    c.Fresh "factorials" {} ∧ (behind (program cfg factorials) c).Clean ∧
      ∃ k : Assembly.Class,
        (behind (program cfg factorials) c).generator.lines.toList.map (·.2) = k.lines o ∧
        EachBody 3 o.labelStem factorials k fun returns Ts n => ∃ typing,
          Verified returns (bodyCode o.labelStem returns Ts n) (boundariesAll o.labelStem Ts n)
            typing := by
  intro cfg c o
  have fresh : c.Fresh "factorials" {} := ⟨rfl, rfl, rfl, rfl, rfl, rfl⟩
  have clean : (behind (program cfg factorials) c).Clean := ⟨by decide +kernel, by decide +kernel⟩
  exact ⟨fresh, clean, code_verified cfg factorials fresh clean⟩

/-- The depth of the operand stack at a place does not depend on the way control comes there. The
deepest stack of a body has the depth that its statements need; nothing compares it with the number
that is declared for the body. -/
theorem depth_is_need (p : Program) (fresh : c.Fresh className o)
    (clean : (behind (program cfg p) c).Clean) :
    ∃ k : Assembly.Class,
      (behind (program cfg p) c).generator.lines.toList.map (·.2) = k.lines o.withDefaults ∧
      EachBody cfg.maxLocals o.withDefaults.labelStem p k fun returns Ts n =>
        let body := bodyCode o.withDefaults.labelStem returns Ts n
        (∀ i d, Reaches body i d → d ≤ needAll Ts) ∧
        ∃ typing, Verified returns body (boundariesAll o.withDefaults.labelStem Ts n) typing ∧
          (∀ i d, Reaches body i d → d = (typing i).length) ∧
          ∃ i < body.length, (typing i).length = needAll Ts := by
  obtain ⟨k, resolved, lines⟩ := exists_class cfg p fresh clean
  refine ⟨k, lines, (eachBody_verified resolved).mono ?_⟩
  rintro returns Ts n ⟨typing, verified, deep, i, inside, attained⟩
  have some_code : bodyCode o.withDefaults.labelStem returns Ts n ≠ [] := by
    rintro nothing
    rw [nothing] at inside
    cases inside
  refine ⟨fun i d path => ?_, typing, verified, fun i d path => ?_, i, inside, attained⟩
  · obtain ⟨rfl, lt⟩ := verified.of_reaches some_code path
    exact deep i lt
  · exact (verified.of_reaches some_code path).1

/-- The sum of a variable with itself, again and again, the last sum first. -/
def deepSum : Nat → Program.Expr
  | 0 => .ref "x"
  | n + 1 => .binary .add (.ref "x") (deepSum n)

def summing (n : Nat) : Program where
  name := "summing"
  globals := [({}, .variable "x" .integer none)]
  functions := []
  main := [.print {} true (deepSum n)]
  mainPos := {}

theorem depth_is_need_summing :
    let cfg : Config := ⟨"", 15⟩
    let c : State := { generator := .new "summing" {}, reporter := .collecting 10 }
    let o : Assembly.Options := Assembly.Options.withDefaults {}
    c.Fresh "summing" {} ∧ (behind (program cfg (summing 2)) c).Clean ∧
      ∃ k : Assembly.Class,
        (behind (program cfg (summing 2)) c).generator.lines.toList.map (·.2) = k.lines o ∧
        EachBody 15 o.labelStem (summing 2) k fun returns Ts n =>
          let body := bodyCode o.labelStem returns Ts n
          (∀ i d, Reaches body i d → d ≤ needAll Ts) ∧
          ∃ typing, Verified returns body (boundariesAll o.labelStem Ts n) typing ∧
            (∀ i d, Reaches body i d → d = (typing i).length) ∧
            ∃ i < body.length, (typing i).length = needAll Ts := by
  intro cfg c o
  have fresh : c.Fresh "summing" {} := ⟨rfl, rfl, rfl, rfl, rfl, rfl⟩
  have clean : (behind (program cfg (summing 2)) c).Clean :=
    ⟨by decide +kernel, by decide +kernel⟩
  exact ⟨fresh, clean, depth_is_need cfg (summing 2) fresh clean⟩

/-- With all options as they are by default, the sum of fifteen numbers is compiled without an
error, though it needs one operand more than the fifteen that its method declares. -/
theorem depth_exceeds_declared :
    let cfg : Config := ⟨"", 15⟩
    let c : State := { generator := .new "summing" {}, reporter := .collecting 10 }
    let o : Assembly.Options := Assembly.Options.withDefaults {}
    let entry : List Instruction := .pushStream :: (List.replicate 15 (.loadGlobal "x") ++
      (List.replicate 14 (.op .add) ++ [.print .int true, .ret]))
    (behind (program cfg (summing 14)) c).Clean ∧
      (behind (program cfg (summing 14)) c).generator.lines.toList.map (·.2) =
        Assembly.Class.lines o ⟨[("x", none)], [], entry⟩ ∧
      Reaches entry 16 16 ∧ o.maxStack = 15 := by
  intro cfg c o entry
  refine ⟨⟨by decide +kernel, by decide +kernel⟩, by decide +kernel, ?_, rfl⟩
  exact Reaches.straight (.pushStream :: List.replicate 15 (.loadGlobal "x")) _ (by decide)

end Walk

end Jasm.Compile

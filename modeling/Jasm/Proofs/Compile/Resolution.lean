import Jasm.Compile.Walk
import Jasm.Proofs.Assembly.Machine
import Jasm.Proofs.Compile.Lowering

/-!
# Resolving programs

What a walk does apart from writing and reporting: it finds out what names stand for and where
variables live, computes what is known, and declares names. Here this is a function of the open
scopes alone. It gives nothing where a walk would report an error, and otherwise the resolved
statements and the scopes behind them.
-/

namespace Jasm

theorem ArrayVar.name_of_new {a : ArrayVar} {name : String} {kind : Kind} {length : Int}
    (h : ArrayVar.new name kind length = .ok a) : a.name = name := by
  unfold ArrayVar.new at h
  split at h
  · cases h
  · split at h
    · cases h
      rfl
    · cases h

theorem ArrayVar.name_of_set {a a' : ArrayVar} {i : Int} {v : Value} (h : a.set i v = .ok a') :
    a'.name = a.name := by
  unfold ArrayVar.set at h
  cases hg : a.get i with
  | error fault => simp [hg, bind, Except.bind] at h
  | ok old =>
    simp only [hg, bind, Except.bind] at h
    split at h
    · cases h
      rfl
    · cases h

/-- What can be declared: variables of kinds that can be stored, and constants that hold
something. -/
def Symbol.Good : Symbol → Prop
  | .variable _ v => Assembly.isStorable v.kind
  | .constant _ v => v.isInit
  | _ => True

theorem Scope.get?_push {σ : Type} (s : Scope σ) (d : Declaration σ) (slot : Option Nat)
    (name : String) : (s.push d slot).get? name =
      if name = d.name then some ⟨d.form, d.item, slot⟩ else s.get? name := by
  unfold Scope.get? Scope.push
  by_cases h : name = d.name
  · subst h
    simp
  · rw [if_neg h, Std.TreeMap.getElem?_insert, if_neg]
    rw [Std.compare_eq_iff_eq]
    exact fun heq => h heq.symm

theorem Scope.insert_eq_ok {σ : Type} {s s' : Scope σ} {d : Declaration σ} {slot : Option Nat}
    (h : s.insert (some d) = .ok (slot, s')) :
    s.get? d.name = none ∧ slot = (if d.form = .variable then some s.slots else none) ∧
      s' = s.push d slot := by
  simp only [Scope.insert] at h
  split at h
  · cases h
  · next hc =>
      have new : s.get? d.name = none := by simpa [Scope.contains] using hc
      split at h
      · split at h
        · cases h
          simp [*]
        · cases h
      · cases h
        simp [*]

end Jasm

namespace Jasm.Compile

open Assembly
open Program (Expr Stmt)

theorem name_of_fillArray {a a' : ArrayVar} {i : Nat} {vs : List Value}
    (h : Walk.fillArray a i vs = .ok a') : a'.name = a.name := by
  induction vs generalizing a i with
  | nil =>
    cases h
    rfl
  | cons v rest ih =>
    simp only [Walk.fillArray] at h
    split at h
    · next a₁ set => rw [ih h, ArrayVar.name_of_set set]
    · cases h

def variableName? : Program.Declaration → Option String
  | .variable name .. => some name
  | _ => none

/-- The open scopes, with the frame slot of the first variable of each of them. -/
structure Scopes where
  stack : Stack Symbol
  bases : List Nat

def State.scopes (c : State) : Scopes := ⟨c.stack, c.bases⟩

namespace Scopes

/-- Where a declaration found at a depth lives in the current frame. -/
def location (Γ : Scopes) (depth : Nat) (e : Entry Symbol) : Location :=
  match Stack.locationOf depth e with
  | .frame slot => .frame (Γ.bases.reverse.getD depth 0 + slot)
  | l => l

def enter (Γ : Scopes) (method : Bool) : Scopes :=
  ⟨Γ.stack.enter, (if method then 0 else Γ.bases.headD 0 + Γ.stack.top.slots) :: Γ.bases⟩

def leave (Γ : Scopes) : Scopes := ⟨{ Γ.stack with inner := Γ.stack.inner.tail }, Γ.bases.tail⟩

/-- Declares a symbol in the innermost scope; gives its slot. -/
def insert? (Γ : Scopes) (s : Symbol) : Option (Option Nat × Scopes) :=
  match Γ.stack.insert (some s.declaration) with
  | .ok (slot, stack) => some (slot, { Γ with stack := stack })
  | .error _ => none

/-- Declares a variable of the current frame, which has a limited number of slots. -/
def insertLocal? (limit : Int) (Γ : Scopes) (name : String) (kind : Kind) : Option Scopes :=
  match Γ.insert? (.newVariable name kind) with
  | some (slot, Γ') => if Γ'.bases.headD 0 + slot.getD 0 < limit then some Γ' else none
  | none => none

def locate? (Γ : Scopes) (name : String) : Option Location :=
  (Γ.stack.find? name).map fun (depth, e) => Γ.location depth e

/-! ## Expressions -/

/-- A name used as a value. -/
def ref? (Γ : Scopes) (name : String) : Option Typed :=
  match Γ.stack.find? name with
  | some (depth, e) =>
    match e.item with
    | .constant _ v => some (.constant v)
    | .variable _ v => some (.variable name v.kind (Γ.location depth e))
    | _ => none
  | none => none

def function? (Γ : Scopes) (name : String) : Option Signature :=
  match Γ.stack.find? name with
  | some (_, e) =>
    match e.item with
    | .function f => some f
    | _ => none
  | none => none

mutual

/-- The resolved form of an expression. -/
def type? (Γ : Scopes) : Expr → Option Typed
  | .literal v => some (.constant v)
  | .ref name => Γ.ref? name
  | .unary op e =>
    match Γ.type? e with
    | some t =>
      match Value.unary op t.static with
      | .ok v => some (.folded v (.unary op · t))
      | .error _ => none
    | none => none
  | .binary op l r =>
    match Γ.type? l, Γ.type? r with
    | some tl, some tr =>
      match Value.binary op tl.static tr.static with
      | .ok v => some (.folded v (.binary op · tl tr))
      | .error _ => none
    | _, _ => none
  | .call name args =>
    match Γ.function? name, Γ.types? args with
    | some f, some ts =>
      if ts.map Typed.kind = f.params ∧ f.result?.isSome then some (.call f ts) else none
    | _, _ => none

def types? (Γ : Scopes) : List Expr → Option (List Typed)
  | [] => some []
  | e :: rest =>
    match Γ.type? e, Γ.types? rest with
    | some t, some ts => some (t :: ts)
    | _, _ => none

end

def value? (Γ : Scopes) (e : Expr) : Option Typed := (Γ.type? e).filter Typed.isWritable

/-- The resolved form of an expression that is written and has to be of a kind. -/
def valueOf? (Γ : Scopes) (kind : Kind) (e : Expr) : Option Typed :=
  (Γ.value? e).filter (·.kind = kind)

/-- A function and the resolved arguments of a call of it. -/
def call? (Γ : Scopes) (name : String) (args : List Expr) :
    Option (Signature × List Typed) :=
  match Γ.function? name, Γ.types? args with
  | some f, some ts =>
    if ts.map Typed.kind = f.params ∧ f.isStorable ∧ areWritable ts then some (f, ts) else none
  | _, _ => none

/-! ## Statements -/

def constant? (Γ : Scopes) (name : String) (kind : Option Kind) (init : Expr) :
    Option Scopes :=
  match Γ.type? init with
  | some t =>
    if (∀ k ∈ kind, k = t.kind) ∧ t.static.isInit then
      (Γ.insert? (.constant name t.static)).map (·.2)
    else none
  | none => none

def array? (Γ : Scopes) (name : String) (kind : Kind) (length : Nat) (values : List Value) :
    Option Scopes :=
  match ArrayVar.new name kind length with
  | .ok a =>
    match Walk.fillArray a 0 values with
    | .ok a => (Γ.insert? (.array a)).map (·.2)
    | .error _ => none
  | .error _ => none

def local? (limit : Int) (Γ : Scopes) (name : String) (kind : Kind) :
    Option Expr → Option (TypedStmt × Scopes)
  | none => (Γ.insertLocal? limit name kind).map (.skip, ·)
  | some e =>
    match Γ.valueOf? kind e, Γ.insertLocal? limit name kind with
    | some t, some Γ' => (Γ'.locate? name).map fun l => (.store t name l, Γ')
    | _, _ => none

def declare? (limit : Int) (Γ : Scopes) : Program.Declaration → Option (TypedStmt × Scopes)
  | .variable name kind init => if isStorable kind then Γ.local? limit name kind init else none
  | .constant name kind init => (Γ.constant? name kind init).map (.skip, ·)
  | .array name kind length values => (Γ.array? name kind length values).map (.skip, ·)

def assign? (Γ : Scopes) (name : String) (e : Expr) : Option TypedStmt :=
  match Γ.stack.find? name with
  | some (depth, entry) =>
    match entry.item with
    | .variable _ v => (Γ.valueOf? v.kind e).map (.store · name (Γ.location depth entry))
    | _ => none
  | none => none

/-- A return from a function, or from main if there is none around. -/
def ret? (f : Option Signature) (Γ : Scopes) (e : Option Expr) : Option TypedStmt :=
  match f.bind Signature.result?, e with
  | none, none => some (.ret none)
  | some want, some e => (Γ.valueOf? want e).map fun t => .ret (some t)
  | _, _ => none

mutual

/-- The resolved form of a statement in the function `f`, with the scopes behind it. -/
def stmt? (limit : Int) (f : Option Signature) (Γ : Scopes) :
    Stmt → Option (TypedStmt × Scopes)
  | .declare _ d => Γ.declare? limit d
  | .assign _ name e => (Γ.assign? name e).map (·, Γ)
  | .print _ newline e =>
    ((Γ.value? e).filter fun t => (Printed.ofKind? t.kind).isSome).map fun t =>
      (.print t newline, Γ)
  | .branch _ cond thenBody elseBody =>
    match Γ.valueOf? .boolean cond, stmts? limit f (Γ.enter false) thenBody,
      stmts? limit f (Γ.enter false) elseBody with
    | some t, some (first, _), some (second, _) => some (.branch t first second, Γ)
    | _, _, _ => none
  | .loop _ cond body =>
    match Γ.valueOf? .boolean cond, stmts? limit f (Γ.enter false) body with
    | some t, some (inner, _) => some (.loop t inner, Γ)
    | _, _ => none
  | .ret _ e => (Γ.ret? f e).map (·, Γ)
  | .call _ name args => (Γ.call? name args).map fun (f, ts) => (.call f ts, Γ)
  | .block _ body =>
    match stmts? limit f (Γ.enter false) body with
    | some (inner, _) => some (.block inner, Γ)
    | none => none

def stmts? (limit : Int) (f : Option Signature) (Γ : Scopes) :
    List Stmt → Option (List TypedStmt × Scopes)
  | [] => some ([], Γ)
  | s :: rest =>
    match stmt? limit f Γ s with
    | some (t, Γ') =>
      match stmts? limit f Γ' rest with
      | some (ts, Γ'') => some (t :: ts, Γ'')
      | none => none
    | none => none

end

/-! ## Programs -/

/-- The first value of a global variable has to be known and to have a whole number for it. -/
def image? (Γ : Scopes) (kind : Kind) : Option Expr → Option (Option Int32)
  | none => some none
  | some e => ((Γ.type? e).filter (·.kind = kind)).bind fun t => t.static.intImage?.map some

def global? (Γ : Scopes) : Program.Declaration → Option (List (String × Option Int32) × Scopes)
  | .variable name kind init =>
    match Γ.image? kind init, Γ.insert? (.newVariable name kind) with
    | some n, some (_, Γ') => if isStorable kind then some ([(name, n)], Γ') else none
    | _, _ => none
  | .constant name kind init => (Γ.constant? name kind init).map ([], ·)
  | .array name kind length values => (Γ.array? name kind length values).map ([], ·)

def globals? (Γ : Scopes) :
    List (Position × Program.Declaration) → Option (List (String × Option Int32) × Scopes)
  | [] => some ([], Γ)
  | (_, d) :: rest =>
    match Γ.global? d with
    | some (fields, Γ') =>
      match globals? Γ' rest with
      | some (others, Γ'') => some (fields ++ others, Γ'')
      | none => none
    | none => none

def parameters? (limit : Int) (Γ : Scopes) : List (String × Kind) → Option Scopes
  | [] => some Γ
  | (name, kind) :: rest =>
    match Γ.insertLocal? limit name kind with
    | some Γ' => parameters? limit Γ' rest
    | none => none

/-- The resolved body of a function that is already declared. A function with a result has to end
with a return. -/
def body? (limit : Int) (Γ : Scopes) (f : Program.Function) : Option (List TypedStmt) :=
  match parameters? limit (Γ.enter true) f.params with
  | some Γ' =>
    match stmts? limit (some f.signature) Γ' f.body with
    | some (ts, _) =>
      if f.signature.isStorable ∧
          (f.signature.result?.isSome → Stmt.lastReturns f.body) then some ts
      else none
    | none => none
  | none => none

/-- The method of a function, if `n` labels were handed out before it, and the number handed out
behind it. -/
def method (stem : String) (f : Signature) (body : List TypedStmt) (n : Nat) : Method × Nat :=
  let code := lowerAll stem body n
  (⟨f.name, f.arity, f.result?.isSome, code.1 ++ if f.result?.isSome then [] else [.ret]⟩, code.2)

/-- The methods of some functions, with the scopes and the number of labels behind them. -/
def methods? (limit : Int) (stem : String) (Γ : Scopes) (n : Nat) :
    List Program.Function → Option (List Method × Scopes × Nat)
  | [] => some ([], Γ, n)
  | f :: rest =>
    match Γ.insert? (.function f.signature) with
    | some (_, Γ') =>
      match Γ'.body? limit f with
      | some ts =>
        let m := method stem f.signature ts n
        (methods? limit stem Γ' m.2 rest).map fun (ms, last) => (m.1 :: ms, last)
      | none => none
    | none => none

def class? (limit : Int) (stem : String) (p : Program) : Option Assembly.Class :=
  match globals? ⟨{}, [0]⟩ p.globals with
  | some (fields, Γ) =>
    match methods? limit stem Γ 0 p.functions with
    | some (methods, Γ', n) =>
      match stmts? limit none (Γ'.enter true) p.main with
      | some (ts, _) => some ⟨fields, methods, (lowerAll stem ts n).1 ++ [.ret]⟩
      | none => none
    | none => none
  | none => none

/-! ## What declarations change -/

/-- Only the innermost scope has changed, and it is the scope of a method. -/
structure Declares (Γ Γ' : Scopes) : Prop where
  bases : Γ'.bases = Γ.bases
  global : Γ'.stack.global = Γ.stack.global
  outer : Γ'.stack.inner.tail = Γ.stack.inner.tail
  inner : Γ'.stack.inner ≠ []

namespace Declares

variable {Γ Γ₁ Γ₂ : Scopes}

theorem refl (inner : Γ.stack.inner ≠ []) : Declares Γ Γ := ⟨rfl, rfl, rfl, inner⟩

theorem trans (first : Declares Γ Γ₁) (second : Declares Γ₁ Γ₂) : Declares Γ Γ₂ :=
  ⟨second.bases.trans first.bases, second.global.trans first.global,
    second.outer.trans first.outer, second.inner⟩

theorem leave_eq (h : Declares Γ Γ₁) : Γ₁.leave = Γ.leave := by
  simp only [leave, h.bases, h.outer, h.global]

theorem leave_enter {method : Bool} (h : Declares (Γ.enter method) Γ₁) : Γ₁.leave = Γ :=
  h.leave_eq

end Declares

variable {limit : Int} {f : Option Signature} {Γ Γ' : Scopes} {x : Symbol} {slot : Option Nat}
  {name : String} {kind : Kind} {T : TypedStmt} {d : Program.Declaration} {t : Typed}
  {op : Operator} {e : Expr} {s : Stmt}

theorem inner_enter_ne (Γ : Scopes) (method : Bool) : (Γ.enter method).stack.inner ≠ [] := by
  simp [enter, Stack.enter]

theorem insert?_eq_some (h : Γ.insert? x = some (slot, Γ')) :
    Γ.stack.top.get? x.name = none ∧
      slot = (if x.form = .variable then some Γ.stack.top.slots else none) ∧
      Γ' = ⟨Γ.stack.setTop (Γ.stack.top.push x.declaration slot), Γ.bases⟩ := by
  unfold insert? Stack.insert at h
  rcases ht : Γ.stack.top.insert (some x.declaration) with fault | ⟨slot', top⟩
  · simp [ht, bind, Except.bind] at h
  · simp only [ht, bind, Except.bind, pure, Except.pure, Option.some.injEq, Prod.mk.injEq] at h
    obtain ⟨rfl, rfl⟩ := h
    obtain ⟨new, hslot, rfl⟩ := Scope.insert_eq_ok ht
    exact ⟨new, hslot, rfl⟩

theorem find?_of_insert? (h : Γ.insert? x = some (slot, Γ')) :
    ∃ depth, Γ'.stack.find? x.name = some (depth, ⟨x.form, x, slot⟩) := by
  obtain ⟨-, -, rfl⟩ := insert?_eq_some h
  have found : (Γ.stack.top.push x.declaration slot).get? x.name = some ⟨x.form, x, slot⟩ := by
    rw [Scope.get?_push]
    exact if_pos rfl
  obtain ⟨⟨_ | ⟨s, rest⟩, global⟩, bases⟩ := Γ
  · exact ⟨0, by simp only [Stack.find?, Stack.setTop, Stack.findIn, found]; rfl⟩
  · exact ⟨_, by simp only [Stack.find?, Stack.setTop, Stack.findIn, found]; rfl⟩

theorem declares_of_insert? (inner : Γ.stack.inner ≠ []) (h : Γ.insert? x = some (slot, Γ')) :
    Declares Γ Γ' := by
  obtain ⟨-, -, rfl⟩ := insert?_eq_some h
  obtain ⟨⟨_ | ⟨s, rest⟩, global⟩, bases⟩ := Γ
  · exact absurd rfl inner
  · exact ⟨rfl, rfl, rfl, List.cons_ne_nil _ _⟩

theorem insert?_of_insertLocal? (h : Γ.insertLocal? limit name kind = some Γ') :
    ∃ slot, Γ.insert? (.newVariable name kind) = some (slot, Γ') ∧
      Γ'.bases.headD 0 + slot.getD 0 < limit := by
  unfold insertLocal? at h
  split at h
  · next slot Γ₁ hi =>
      split at h
      · next fits =>
          cases h
          exact ⟨slot, hi, fits⟩
      · cases h
  · cases h

theorem insert?_of_constant? {kind : Option Kind} {init : Expr}
    (h : Γ.constant? name kind init = some Γ') :
    ∃ t slot, Γ.type? init = some t ∧ t.static.isInit ∧
      Γ.insert? (.constant name t.static) = some (slot, Γ') := by
  unfold constant? at h
  split at h
  · next t ht =>
      split at h
      · next known =>
          obtain ⟨⟨slot, Γ₁⟩, hi, rfl⟩ := Option.map_eq_some_iff.mp h
          exact ⟨t, slot, ht, known.2, hi⟩
      · cases h
  · cases h

theorem insert?_of_array? {length : Nat} {values : List Value}
    (h : Γ.array? name kind length values = some Γ') :
    ∃ a slot, Γ.insert? (.array a) = some (slot, Γ') ∧ a.name = name := by
  unfold array? at h
  split at h
  · next a₀ new =>
      split at h
      · next a filled =>
          obtain ⟨⟨slot, Γ₁⟩, hi, rfl⟩ := Option.map_eq_some_iff.mp h
          exact ⟨a, slot, hi, (name_of_fillArray filled).trans (ArrayVar.name_of_new new)⟩
      · cases h
  · cases h

theorem insertLocal?_of_local? {init : Option Expr}
    (h : Γ.local? limit name kind init = some (T, Γ')) :
    Γ.insertLocal? limit name kind = some Γ' ∧
      match init with
      | none => T = .skip
      | some e => ∃ t l, Γ.valueOf? kind e = some t ∧ Γ'.locate? name = some l ∧
        T = .store t name l := by
  cases init with
  | none =>
    obtain ⟨Γ₁, hi, heq⟩ := Option.map_eq_some_iff.mp h
    cases heq
    exact ⟨hi, rfl⟩
  | some e =>
    simp only [local?] at h
    split at h
    · next t Γ₁ ht hi =>
        obtain ⟨l, hl, heq⟩ := Option.map_eq_some_iff.mp h
        cases heq
        exact ⟨hi, t, l, ht, hl, rfl⟩
    · cases h

theorem declare?_eq_some (h : Γ.declare? limit d = some (T, Γ')) :
    ∃ x slot, Γ.insert? x = some (slot, Γ') ∧ x.Good ∧ x.form ≠ .function ∧
      (T = .skip ∨ ∃ name kind e t l, isStorable kind ∧ Γ.valueOf? kind e = some t ∧
        Γ'.locate? name = some l ∧ T = .store t name l) := by
  cases d with
  | «variable» name kind init =>
    simp only [declare?] at h
    split at h
    · next storable =>
        obtain ⟨declared, code⟩ := insertLocal?_of_local? h
        obtain ⟨slot, hi, -⟩ := insert?_of_insertLocal? declared
        refine ⟨.newVariable name kind, slot, hi, storable, nofun, ?_⟩
        cases init with
        | none => exact .inl code
        | some e =>
          obtain ⟨t, l, value, located, rfl⟩ := code
          exact .inr ⟨name, kind, e, t, l, storable, value, located, rfl⟩
    · cases h
  | constant name kind init =>
    obtain ⟨Γ₁, hc, heq⟩ := Option.map_eq_some_iff.mp h
    cases heq
    obtain ⟨t, slot, -, known, hi⟩ := insert?_of_constant? hc
    exact ⟨_, slot, hi, known, nofun, .inl rfl⟩
  | array name kind length values =>
    obtain ⟨Γ₁, ha, heq⟩ := Option.map_eq_some_iff.mp h
    cases heq
    obtain ⟨a, slot, hi, -⟩ := insert?_of_array? ha
    exact ⟨_, slot, hi, trivial, nofun, .inl rfl⟩

/-! ## Resolved expressions by their form -/

theorem ref?_cases (h : Γ.ref? name = some t) :
    (∃ depth form id v slot, Γ.stack.find? name = some (depth, ⟨form, .constant id v, slot⟩) ∧
      t = .constant v) ∨
    (∃ depth form id v slot, Γ.stack.find? name = some (depth, ⟨form, .variable id v, slot⟩) ∧
      t = .variable name v.kind (Γ.location depth ⟨form, .variable id v, slot⟩)) := by
  unfold ref? at h
  split at h
  · next depth e hf =>
      obtain ⟨form, item, slot⟩ := e
      cases item with
      | constant id v =>
        cases h
        exact .inl ⟨depth, form, id, v, slot, hf, rfl⟩
      | «variable» id v =>
        cases h
        exact .inr ⟨depth, form, id, v, slot, hf, rfl⟩
      | _ => cases h
  · cases h

theorem type?_unary (h : Γ.type? (.unary op e) = some t) :
    ∃ te v, Γ.type? e = some te ∧ Value.unary op te.static = .ok v ∧
      t = .folded v (.unary op · te) := by
  simp only [type?] at h
  split at h
  · next te he =>
      split at h
      · next v hv =>
          cases h
          exact ⟨te, v, he, hv, rfl⟩
      · cases h
  · cases h

theorem type?_binary {l r : Expr} (h : Γ.type? (.binary op l r) = some t) :
    ∃ tl tr v, Γ.type? l = some tl ∧ Γ.type? r = some tr ∧
      Value.binary op tl.static tr.static = .ok v ∧ t = .folded v (.binary op · tl tr) := by
  simp only [type?] at h
  split at h
  · next tl tr hl hr =>
      split at h
      · next v hv =>
          cases h
          exact ⟨tl, tr, v, hl, hr, hv, rfl⟩
      · cases h
  · cases h

theorem type?_call {args : List Expr} (h : Γ.type? (.call name args) = some t) :
    ∃ f ts, Γ.function? name = some f ∧ Γ.types? args = some ts ∧
      ts.map Typed.kind = f.params ∧ f.result?.isSome ∧ t = .call f ts := by
  simp only [type?] at h
  split at h
  · next f ts hf hts =>
      split at h
      · next fits =>
          cases h
          exact ⟨f, ts, hf, hts, fits.1, fits.2, rfl⟩
      · cases h
  · cases h

theorem types?_cons {rest : List Expr} {ts : List Typed}
    (h : Γ.types? (e :: rest) = some ts) :
    ∃ t others, Γ.type? e = some t ∧ Γ.types? rest = some others ∧ ts = t :: others := by
  simp only [types?] at h
  split at h
  · next t others ht hothers =>
      cases h
      exact ⟨t, others, ht, hothers, rfl⟩
  · cases h

/-! ## Resolved statements by their form -/

section

-- The equations are made here, once for all the forms.
attribute [local simp] stmt? stmts?

variable {T : TypedStmt} {pos : Position} {name : String} {e cond : Expr}
  {body : List Stmt} {args : List Expr}

theorem stmt?_assign (h : stmt? limit f Γ (.assign pos name e) = some (T, Γ')) :
    ∃ depth form id v slot t, Γ.stack.find? name = some (depth, ⟨form, .variable id v, slot⟩) ∧
      Γ.valueOf? v.kind e = some t ∧
      T = .store t name (Γ.location depth ⟨form, .variable id v, slot⟩) ∧ Γ' = Γ := by
  simp only [stmt?] at h
  obtain ⟨T, ha, heq⟩ := Option.map_eq_some_iff.mp h
  cases heq
  unfold assign? at ha
  split at ha
  · next depth entry hf =>
      obtain ⟨form, item, slot⟩ := entry
      cases item with
      | «variable» id v =>
        obtain ⟨t, ht, rfl⟩ := Option.map_eq_some_iff.mp ha
        exact ⟨depth, form, id, v, slot, t, hf, ht, rfl, rfl⟩
      | _ => cases ha
  · cases ha

theorem stmt?_print {newline : Bool} (h : stmt? limit f Γ (.print pos newline e) = some (T, Γ')) :
    ∃ t what, Γ.value? e = some t ∧ Printed.ofKind? t.kind = some what ∧
      T = .print t newline ∧ Γ' = Γ := by
  simp only [stmt?] at h
  obtain ⟨t, ht, heq⟩ := Option.map_eq_some_iff.mp h
  cases heq
  obtain ⟨ht, hk⟩ := Option.filter_eq_some_iff.mp ht
  obtain ⟨what, hw⟩ := Option.isSome_iff_exists.mp hk
  exact ⟨t, what, ht, hw, rfl, rfl⟩

theorem stmt?_branch {thenBody elseBody : List Stmt}
    (h : stmt? limit f Γ (.branch pos cond thenBody elseBody) = some (T, Γ')) :
    ∃ t first Γ₁ second Γ₂, Γ.valueOf? .boolean cond = some t ∧
      stmts? limit f (Γ.enter false) thenBody = some (first, Γ₁) ∧
      stmts? limit f (Γ.enter false) elseBody = some (second, Γ₂) ∧
      T = .branch t first second ∧ Γ' = Γ := by
  simp only [stmt?] at h
  split at h
  · next t first Γ₁ second Γ₂ ht h₁ h₂ =>
      cases h
      exact ⟨t, first, Γ₁, second, Γ₂, ht, h₁, h₂, rfl, rfl⟩
  · cases h

theorem stmt?_loop (h : stmt? limit f Γ (.loop pos cond body) = some (T, Γ')) :
    ∃ t inner Γ₁, Γ.valueOf? .boolean cond = some t ∧
      stmts? limit f (Γ.enter false) body = some (inner, Γ₁) ∧ T = .loop t inner ∧ Γ' = Γ := by
  simp only [stmt?] at h
  split at h
  · next t inner Γ₁ ht h₁ =>
      cases h
      exact ⟨t, inner, Γ₁, ht, h₁, rfl, rfl⟩
  · cases h

theorem stmt?_ret {e : Option Expr} (h : stmt? limit f Γ (.ret pos e) = some (T, Γ')) :
    Γ' = Γ ∧ ((f.bind Signature.result? = none ∧ e = none ∧ T = .ret none) ∨
      ∃ want e' t, f.bind Signature.result? = some want ∧ e = some e' ∧
        Γ.valueOf? want e' = some t ∧ T = .ret (some t)) := by
  simp only [stmt?] at h
  obtain ⟨T, hr, heq⟩ := Option.map_eq_some_iff.mp h
  cases heq
  unfold ret? at hr
  split at hr
  · next hf =>
      cases hr
      exact ⟨rfl, .inl ⟨hf, rfl, rfl⟩⟩
  · next want e' hf =>
      obtain ⟨t, ht, rfl⟩ := Option.map_eq_some_iff.mp hr
      exact ⟨rfl, .inr ⟨want, e', t, hf, rfl, ht, rfl⟩⟩
  · cases hr

theorem function?_eq_some {f : Signature} (h : Γ.function? name = some f) :
    ∃ depth form slot, Γ.stack.find? name = some (depth, ⟨form, .function f, slot⟩) := by
  unfold function? at h
  split at h
  · next depth e found =>
      obtain ⟨form, item, slot⟩ := e
      cases item with
      | function g =>
        cases h
        exact ⟨depth, form, slot, found⟩
      | _ => cases h
  · cases h

theorem call?_eq_some {g : Signature} {ts : List Typed} (h : Γ.call? name args = some (g, ts)) :
    Γ.function? name = some g ∧ Γ.types? args = some ts ∧ ts.map Typed.kind = g.params ∧
      g.isStorable ∧ areWritable ts := by
  unfold call? at h
  split at h
  · next g' ts' hf ht =>
      split at h
      · next ok =>
          cases h
          exact ⟨hf, ht, ok⟩
      · cases h
  · cases h

theorem stmt?_call (h : stmt? limit f Γ (.call pos name args) = some (T, Γ')) :
    ∃ g ts, Γ.call? name args = some (g, ts) ∧ T = .call g ts ∧ Γ' = Γ := by
  simp only [stmt?] at h
  obtain ⟨⟨g, ts⟩, hc, heq⟩ := Option.map_eq_some_iff.mp h
  cases heq
  exact ⟨g, ts, hc, rfl, rfl⟩

theorem stmt?_block (h : stmt? limit f Γ (.block pos body) = some (T, Γ')) :
    ∃ inner Γ₁, stmts? limit f (Γ.enter false) body = some (inner, Γ₁) ∧ T = .block inner ∧
      Γ' = Γ := by
  simp only [stmt?] at h
  split at h
  · next inner Γ₁ h₁ =>
      cases h
      exact ⟨inner, Γ₁, h₁, rfl, rfl⟩
  · cases h

theorem stmts?_cons {s : Stmt} {rest : List Stmt} {Ts : List TypedStmt}
    (h : stmts? limit f Γ (s :: rest) = some (Ts, Γ')) :
    ∃ T Γ₁ others, stmt? limit f Γ s = some (T, Γ₁) ∧
      stmts? limit f Γ₁ rest = some (others, Γ') ∧ Ts = T :: others := by
  simp only [stmts?] at h
  split at h
  · next T Γ₁ h₁ =>
      split at h
      · next others Γ₂ h₂ =>
          cases h
          exact ⟨T, Γ₁, others, h₁, h₂, rfl⟩
      · cases h
  · cases h

end

theorem stmt?_eq_of_not_declare (h : stmt? limit f Γ s = some (T, Γ'))
    (other : ∀ pos d, s ≠ .declare pos d) : Γ' = Γ := by
  cases s with
  | declare pos d => exact absurd rfl (other pos d)
  | assign _ name e =>
    obtain ⟨_, _, _, _, _, _, -, -, -, heq⟩ := stmt?_assign h
    exact heq
  | print _ newline e =>
    obtain ⟨_, _, -, -, -, heq⟩ := stmt?_print h
    exact heq
  | branch _ cond thenBody elseBody =>
    obtain ⟨_, _, _, _, _, -, -, -, -, heq⟩ := stmt?_branch h
    exact heq
  | loop _ cond body =>
    obtain ⟨_, _, _, -, -, -, heq⟩ := stmt?_loop h
    exact heq
  | ret _ e => exact (stmt?_ret h).1
  | call _ name args =>
    obtain ⟨_, _, -, -, heq⟩ := stmt?_call h
    exact heq
  | block _ body =>
    obtain ⟨_, _, -, -, heq⟩ := stmt?_block h
    exact heq

theorem declares_of_stmt? (inner : Γ.stack.inner ≠ []) (h : stmt? limit f Γ s = some (T, Γ')) :
    Declares Γ Γ' := by
  cases s with
  | declare _ d =>
    obtain ⟨x, slot, hi, -⟩ := declare?_eq_some (by simpa only [stmt?] using h)
    exact declares_of_insert? inner hi
  | _ =>
    rw [stmt?_eq_of_not_declare h (by simp)]
    exact .refl inner

theorem declares_of_stmts? {ss : List Stmt} {Ts : List TypedStmt}
    (inner : Γ.stack.inner ≠ []) (h : stmts? limit f Γ ss = some (Ts, Γ')) : Declares Γ Γ' := by
  induction ss generalizing Γ Ts with
  | nil =>
    simp only [stmts?] at h
    cases h
    exact .refl inner
  | cons s rest ih =>
    obtain ⟨T, Γ₁, others, h₁, h₂, -⟩ := stmts?_cons h
    have first := declares_of_stmt? inner h₁
    exact first.trans (ih first.inner h₂)

theorem parameters?_cons {param : String × Kind} {rest : List (String × Kind)}
    (h : parameters? limit Γ (param :: rest) = some Γ') :
    ∃ Γ₁ slot, Γ.insert? (.newVariable param.1 param.2) = some (slot, Γ₁) ∧
      parameters? limit Γ₁ rest = some Γ' := by
  simp only [parameters?] at h
  split at h
  · next Γ₁ hi =>
      obtain ⟨slot, hi, -⟩ := insert?_of_insertLocal? hi
      exact ⟨Γ₁, slot, hi, h⟩
  · cases h

theorem declares_of_parameters? {params : List (String × Kind)} (inner : Γ.stack.inner ≠ [])
    (h : parameters? limit Γ params = some Γ') : Declares Γ Γ' := by
  induction params generalizing Γ with
  | nil =>
    cases h
    exact .refl inner
  | cons param rest ih =>
    obtain ⟨Γ₁, slot, hi, h⟩ := parameters?_cons h
    have first := declares_of_insert? inner hi
    exact first.trans (ih first.inner h)

/-! ## The global scope -/

theorem inner_of_insert? (top : Γ.stack.inner = []) (h : Γ.insert? x = some (slot, Γ')) :
    Γ'.stack.inner = [] := by
  obtain ⟨-, -, rfl⟩ := insert?_eq_some h
  simp [Stack.setTop, top]

variable {fields : List (String × Option Int32)}

theorem global?_eq_some (h : Γ.global? d = some (fields, Γ')) :
    ∃ x slot, Γ.insert? x = some (slot, Γ') ∧ x.Good ∧ x.form ≠ .function ∧
      (x.form ≠ .variable ∧ variableName? d = none ∧ fields = [] ∨
        variableName? d = some x.name ∧ ∃ n, fields = [(x.name, n)]) := by
  cases d with
  | «variable» name kind init =>
    simp only [global?] at h
    split at h
    · next n slot Γ₁ _ hi =>
        split at h
        · next storable =>
            cases h
            exact ⟨.newVariable name kind, slot, hi, storable, nofun, .inr ⟨rfl, n, rfl⟩⟩
        · cases h
    · cases h
  | constant name kind init =>
    obtain ⟨Γ₁, hc, heq⟩ := Option.map_eq_some_iff.mp h
    cases heq
    obtain ⟨t, slot, -, known, hi⟩ := insert?_of_constant? hc
    exact ⟨_, slot, hi, known, nofun, .inl ⟨nofun, rfl, rfl⟩⟩
  | array name kind length values =>
    obtain ⟨Γ₁, ha, heq⟩ := Option.map_eq_some_iff.mp h
    cases heq
    obtain ⟨a, slot, hi, -⟩ := insert?_of_array? ha
    exact ⟨_, slot, hi, trivial, nofun, .inl ⟨nofun, rfl, rfl⟩⟩

theorem inner_of_global? (top : Γ.stack.inner = []) (h : Γ.global? d = some (fields, Γ')) :
    Γ'.stack.inner = [] := by
  obtain ⟨x, slot, hi, -⟩ := global?_eq_some h
  exact inner_of_insert? top hi

theorem globals?_cons {d : Position × Program.Declaration}
    {ds : List (Position × Program.Declaration)} (h : Γ.globals? (d :: ds) = some (fields, Γ')) :
    ∃ first Γ₁ others, Γ.global? d.2 = some (first, Γ₁) ∧ Γ₁.globals? ds = some (others, Γ') ∧
      fields = first ++ others := by
  simp only [globals?] at h
  split at h
  · next first Γ₁ h₁ =>
      split at h
      · next others Γ₂ h₂ =>
          cases h
          exact ⟨first, Γ₁, others, h₁, h₂, rfl⟩
      · cases h
  · cases h

end Scopes

end Jasm.Compile

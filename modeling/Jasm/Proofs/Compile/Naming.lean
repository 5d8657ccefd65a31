import Jasm.Proofs.Compile.Bodies

/-!
# The names in the code of a program

The code of a program names its global variables and its functions, and the labels that were handed
out, which all begin with one stem. Other names are gone: a local variable is its place in the
frame, and constants are replaced by their values.
-/

namespace Jasm.Compile

open Assembly TypedStmt Scopes List Option
open Program (Expr Stmt)

/-- The global variables and functions that code may name, and the stem of its labels. -/
structure Vocabulary where
  fields : String → Prop
  functions : String → Prop
  stem : String

/-- An instruction that only has names of a vocabulary. -/
def Vocabulary.Has (W : Vocabulary) : Instruction → Prop
  | .loadGlobal id | .storeGlobal id => W.fields id
  | .invoke name .. => W.functions name
  | .branch _ l | .goto l | .label l => ∃ n, l = labelOf W.stem n
  | _ => True

/-- Code that only has names of a vocabulary. -/
def Vocabulary.HasAll (W : Vocabulary) (code : List Instruction) : Prop := ∀ i ∈ code, W.Has i

namespace Vocabulary

variable {W : Vocabulary} {name : String} {l : Location}

theorem hasAll_nil : W.HasAll [] := by simp [HasAll]

theorem hasAll_cons {i : Instruction} {code : List Instruction} :
    W.HasAll (i :: code) ↔ W.Has i ∧ W.HasAll code := by
  simp [HasAll]

theorem hasAll_append {a b : List Instruction} : W.HasAll (a ++ b) ↔ W.HasAll a ∧ W.HasAll b := by
  simp [HasAll, or_imp, forall_and]

theorem hasAll_constant {v : Value} : W.HasAll (Emit.constant? v).toList := by
  have number (n : Int32) : W.HasAll [Emit.pushNumber n] := by
    unfold Emit.pushNumber
    split <;> simp [HasAll, Has]
  cases v with
  | int n => exact number n
  | char code => exact number code
  | _ => simp [Emit.constant?, HasAll, Has]

theorem hasAll_operationCode {op : Operator} : W.HasAll ((Emit.operationCode? op).getD []) := by
  unfold Emit.operationCode?
  split
  · simp [HasAll, Has]
  · cases StackOp.ofOperator? op <;> simp [HasAll, Has]

theorem hasAll_binaryCode {op : Operator} (n : Nat) : W.HasAll (binaryCode W.stem op n).1 := by
  unfold binaryCode
  split
  · cases Cond.ofOperator? op with
    | none => exact hasAll_nil
    | some c =>
      simp only [Emit.relationCode, hasAll_cons]
      exact ⟨trivial, ⟨_, rfl⟩, trivial, ⟨_, rfl⟩, ⟨_, rfl⟩, trivial, ⟨_, rfl⟩, hasAll_nil⟩
  · exact hasAll_operationCode

theorem hasAll_loadCode (h : l.isGlobal → W.fields name) :
    W.HasAll [loadCode name l] := by
  unfold loadCode
  split <;> simp_all [HasAll, Has]

theorem hasAll_storeCode (h : l.isGlobal → W.fields name) :
    W.HasAll [storeCode name l] := by
  unfold storeCode
  split <;> simp_all [HasAll, Has]

end Vocabulary

/-! ## What can be seen -/

/-- All functions that can be seen, and all variables in the global scope, are in a vocabulary. -/
structure Scopes.Known (W : Vocabulary) (Γ : Scopes) : Prop where
  fields : ∀ name e, Γ.stack.global.get? name = some e → e.form = .variable → W.fields name
  functions : ∀ s ∈ Γ.stack.global :: Γ.stack.inner, ∀ name e f, s.get? name = some e →
    e.item = .function f → W.functions f.name

namespace Scopes.Known

variable {W : Vocabulary} {Γ Γ' : Scopes} {limit : Int} {x : Symbol} {slot : Option Nat}
  {name : String} {T : TypedStmt}

theorem empty (bases : List Nat) : Known W ⟨{}, bases⟩ := by
  constructor <;> simp [Scope.get?]

section

variable (known : Γ.Known W)
include known

theorem enter (method : Bool) : (Γ.enter method).Known W := by
  refine ⟨known.fields, ?_⟩
  simp only [Scopes.enter, Stack.enter, mem_cons, forall_eq_or_imp]
  exact ⟨known.functions _ (by simp), by simp [Scope.get?],
    fun s hs => known.functions s (by simp [hs])⟩

theorem insert? (h : Γ.insert? x = some (slot, Γ'))
    (function : ∀ f, x = .function f → W.functions f.name)
    (field : Γ.stack.inner = [] → x.form = .variable → W.fields x.name) : Γ'.Known W := by
  obtain ⟨-, -, rfl⟩ := insert?_eq_some h
  have declared (s : Scope Symbol) (hs : s ∈ Γ.stack.global :: Γ.stack.inner) (name : String)
      (e : Entry Symbol) (f : Signature) (he : (s.push x.declaration slot).get? name = some e)
      (item : e.item = .function f) : W.functions f.name := by
    rw [Scope.get?_push] at he
    split at he
    · cases he
      exact function f item
    · exact known.functions s hs name e f he item
  unfold Stack.setTop Stack.top
  cases hi : Γ.stack.inner with
  | nil =>
    refine ⟨fun name e he form => ?_, fun s hs => ?_⟩
    · rw [headD_nil, Scope.get?_push] at he
      split at he
      · next same =>
          cases he
          exact same ▸ field hi form
      · exact known.fields name e he form
    · cases mem_singleton.mp hs
      exact declared _ (by simp)
  | cons t rest =>
    refine ⟨known.fields, ?_⟩
    simp only [mem_cons, forall_eq_or_imp]
    exact ⟨known.functions _ (by simp), declared _ (by simp [hi]),
      fun s hs => known.functions s (by simp [hi, hs])⟩

theorem find? {depth : Nat} {e : Entry Symbol} (h : Γ.stack.find? name = some (depth, e)) :
    ((Γ.location depth e).isGlobal → W.fields name) ∧
      ∀ f, e.item = .function f → W.functions f.name := by
  rcases findIn_eq_some h with ⟨rfl, he⟩ | ⟨front, s, rest, split, depth, he, -⟩
  · refine ⟨fun global => known.fields name e he ?_, fun f =>
      known.functions _ (by simp) name e f he⟩
    by_contra form
    simp [location, Stack.locationOf, form, Location.isGlobal] at global
  · refine ⟨fun global => ?_, fun f => known.functions s (by simp [split]) name e f he⟩
    unfold location Stack.locationOf at global
    split_ifs at global <;> simp_all [Location.isGlobal]

section

variable (inner : Γ.stack.inner ≠ [])
include inner

theorem insert?_inner (h : Γ.insert? x = some (slot, Γ')) (form : x.form ≠ .function) :
    Γ'.Known W :=
  known.insert? h (fun _ hf => absurd (hf ▸ rfl) form) fun outside => absurd outside inner

theorem declare? {d : Program.Declaration} (h : Γ.declare? limit d = some (T, Γ')) :
    Γ'.Known W := by
  obtain ⟨x, slot, inserted, -, form, -⟩ := declare?_eq_some h
  exact known.insert?_inner inner inserted form

theorem stmt? {f : Option Signature} {s : Stmt} (h : Γ.stmt? limit f s = some (T, Γ')) :
    Γ'.Known W := by
  cases s with
  | declare _ d => exact known.declare? inner (by simpa only [Scopes.stmt?] using h)
  | _ => exact stmt?_eq_of_not_declare h (by simp) ▸ known

theorem parameters? {params : List (String × Kind)} (h : Γ.parameters? limit params = some Γ') :
    Γ'.Known W := by
  induction params generalizing Γ with
  | nil =>
    cases h
    exact known
  | cons param rest ih =>
    obtain ⟨Γ₁, slot, inserted, h⟩ := parameters?_cons h
    exact ih (known.insert?_inner inner inserted nofun) (declares_of_insert? inner inserted).inner h

end

theorem function? {f : Signature} (h : Γ.function? name = some f) :
    W.functions f.name := by
  obtain ⟨depth, form, slot, found⟩ := function?_eq_some h
  exact (known.find? found).2 f rfl

end

end Scopes.Known

/-! ## Code -/

section

variable {W : Vocabulary} {Γ : Scopes} {e : Expr} {t : Typed}

open Vocabulary

mutual

theorem hasAll_of_type? {Γ : Scopes} (known : Γ.Known W) : (e : Expr) → {t : Typed} →
    Γ.type? e = some t → (n : Nat) → W.HasAll (t.lower W.stem n).1
  | .literal v, t, h, n => by
    simp only [type?] at h
    cases h
    rw [Typed.lower]
    exact hasAll_constant
  | .ref name, t, h, n => by
    simp only [type?] at h
    rcases ref?_cases h with ⟨depth, form, id, v, slot, found, rfl⟩ |
      ⟨depth, form, id, v, slot, found, rfl⟩
    · rw [Typed.lower]
      exact hasAll_constant
    · rw [Typed.lower]
      exact hasAll_loadCode (known.find? found).1
  | .unary op e, t, h, n => by
    obtain ⟨te, v, he, -, rfl⟩ := type?_unary h
    rw [folded_eq]
    split
    · rw [Typed.lower]
      exact hasAll_constant
    · rw [Typed.lower]
      exact hasAll_append.mpr ⟨hasAll_of_type? known e he n, hasAll_operationCode⟩
  | .binary op l r, t, h, n => by
    obtain ⟨tl, tr, v, hl, hr, -, rfl⟩ := type?_binary h
    rw [folded_eq]
    split
    · rw [Typed.lower]
      exact hasAll_constant
    · rw [Typed.lower]
      exact hasAll_append.mpr ⟨hasAll_of_type? known l hl n, hasAll_append.mpr
        ⟨hasAll_of_type? known r hr _, hasAll_binaryCode _⟩⟩
  | .call name args, t, h, n => by
    obtain ⟨f, ts, hf, hts, -, -, rfl⟩ := type?_call h
    rw [Typed.lower]
    exact hasAll_append.mpr ⟨hasAll_of_types? known args hts n,
      hasAll_cons.mpr ⟨known.function? hf, hasAll_nil⟩⟩

theorem hasAll_of_types? {Γ : Scopes} (known : Γ.Known W) : (args : List Expr) →
    {ts : List Typed} → Γ.types? args = some ts → (n : Nat) → W.HasAll (lowerArgs W.stem ts n).1
  | [], ts, h, n => by
    simp only [types?] at h
    cases h
    rw [lowerArgs]
    exact hasAll_nil
  | e :: rest, ts, h, n => by
    obtain ⟨t, others, ht, hts, rfl⟩ := types?_cons h
    rw [lowerArgs]
    exact hasAll_append.mpr ⟨hasAll_of_type? known e ht n, hasAll_of_types? known rest hts _⟩

end

theorem hasAll_of_value? (known : Γ.Known W) (h : Γ.value? e = some t) (n : Nat) :
    W.HasAll (t.lower W.stem n).1 :=
  hasAll_of_type? known e (filter_eq_some_iff.mp h).1 n

theorem hasAll_of_valueOf? (known : Γ.Known W) {kind : Kind} (h : Γ.valueOf? kind e = some t)
    (n : Nat) : W.HasAll (t.lower W.stem n).1 :=
  hasAll_of_value? known (filter_eq_some_iff.mp h).1 n

theorem hasAll_of_declare? {limit : Int} {Γ' : Scopes} (known : Γ.Known W)
    (inner : Γ.stack.inner ≠ []) {d : Program.Declaration} {T : TypedStmt}
    (h : Γ.declare? limit d = some (T, Γ')) (n : Nat) : W.HasAll (T.lower W.stem n).1 := by
  have known' := known.declare? inner h
  obtain ⟨-, -, -, -, -, rfl | ⟨name, kind, e, t, l, -, value, located, rfl⟩⟩ :=
    declare?_eq_some h
  · rw [lower]
    exact hasAll_nil
  · obtain ⟨⟨depth, e'⟩, found, rfl⟩ := map_eq_some_iff.mp located
    rw [lower]
    exact hasAll_append.mpr ⟨hasAll_of_valueOf? known value n,
      hasAll_storeCode (known'.find? found).1⟩

mutual

theorem hasAll_of_stmt? {limit : Int} {f : Option Signature} : (s : Stmt) →
    {Γ Γ' : Scopes} → Γ.Known W → Γ.stack.inner ≠ [] → {T : TypedStmt} →
      Γ.stmt? limit f s = some (T, Γ') → (n : Nat) → W.HasAll (T.lower W.stem n).1
  | .declare _ d, Γ, Γ', known, inner, T, h, n => by
    exact hasAll_of_declare? known inner (by simpa only [Scopes.stmt?] using h) n
  | .assign _ name e, Γ, Γ', known, inner, T, h, n => by
    obtain ⟨depth, form, id, v, slot, t, found, value, rfl, -⟩ := stmt?_assign h
    rw [lower]
    exact hasAll_append.mpr ⟨hasAll_of_valueOf? known value n,
      hasAll_storeCode (known.find? found).1⟩
  | .print _ newline e, Γ, Γ', known, inner, T, h, n => by
    obtain ⟨t, what, value, printed, rfl, -⟩ := stmt?_print h
    rw [lower, printed]
    exact hasAll_cons.mpr ⟨trivial, hasAll_append.mpr ⟨hasAll_of_value? known value n,
      hasAll_cons.mpr ⟨trivial, hasAll_nil⟩⟩⟩
  | .branch _ cond thenBody elseBody, Γ, Γ', known, inner, T, h, n => by
    obtain ⟨t, first, Γ₁, second, Γ₂, value, h₁, h₂, rfl, -⟩ := stmt?_branch h
    have test := hasAll_of_valueOf? known value n
    have code₁ := hasAll_of_stmts? thenBody (known.enter false) (Γ.inner_enter_ne false) h₁
    have code₂ := hasAll_of_stmts? elseBody (known.enter false) (Γ.inner_enter_ne false) h₂
    cases second with
    | nil =>
      simp only [lower, hasAll_append, hasAll_cons]
      exact ⟨⟨test, ⟨_, rfl⟩, code₁ _⟩, ⟨_, rfl⟩, hasAll_nil⟩
    | cons T rest =>
      simp only [lower]
      split
      · simp only [hasAll_append, hasAll_cons]
        exact ⟨⟨test, ⟨_, rfl⟩, code₁ _⟩, ⟨_, rfl⟩, code₂ _⟩
      · simp only [hasAll_append, hasAll_cons]
        exact ⟨⟨⟨test, ⟨_, rfl⟩, code₁ _⟩, ⟨_, rfl⟩, ⟨_, rfl⟩, code₂ _⟩, ⟨_, rfl⟩, hasAll_nil⟩
  | .loop _ cond body, Γ, Γ', known, inner, T, h, n => by
    obtain ⟨t, inside, Γ₁, value, h₁, rfl, -⟩ := stmt?_loop h
    have test := hasAll_of_valueOf? known value (n + 2)
    have code := hasAll_of_stmts? body (known.enter false) (Γ.inner_enter_ne false) h₁
    simp only [lower, hasAll_append, hasAll_cons]
    exact ⟨⟨⟨⟨_, rfl⟩, test⟩, ⟨_, rfl⟩, code _⟩, ⟨_, rfl⟩, ⟨_, rfl⟩, hasAll_nil⟩
  | .ret _ e, Γ, Γ', known, inner, T, h, n => by
    obtain ⟨-, ⟨-, -, rfl⟩ | ⟨want, e', t, -, -, value, rfl⟩⟩ := stmt?_ret h
    · rw [lower]
      exact hasAll_cons.mpr ⟨trivial, hasAll_nil⟩
    · rw [lower]
      exact hasAll_append.mpr ⟨hasAll_of_valueOf? known value n,
        hasAll_cons.mpr ⟨trivial, hasAll_nil⟩⟩
  | .call _ name args, Γ, Γ', known, inner, T, h, n => by
    obtain ⟨g, ts, called, rfl, -⟩ := stmt?_call h
    obtain ⟨function, types, -⟩ := call?_eq_some called
    rw [lower]
    refine hasAll_append.mpr ⟨hasAll_of_types? known args types n, hasAll_cons.mpr
      ⟨known.function? function, ?_⟩⟩
    split
    · exact hasAll_cons.mpr ⟨trivial, hasAll_nil⟩
    · exact hasAll_nil
  | .block _ body, Γ, Γ', known, inner, T, h, n => by
    obtain ⟨inside, Γ₁, h₁, rfl, -⟩ := stmt?_block h
    rw [lower]
    exact hasAll_of_stmts? body (known.enter false) (Γ.inner_enter_ne false) h₁ n

theorem hasAll_of_stmts? {limit : Int} {f : Option Signature} : (ss : List Stmt) →
    {Γ Γ' : Scopes} → Γ.Known W → Γ.stack.inner ≠ [] → {Ts : List TypedStmt} →
      Γ.stmts? limit f ss = some (Ts, Γ') → (n : Nat) → W.HasAll (lowerAll W.stem Ts n).1
  | [], Γ, Γ', known, inner, Ts, h, n => by
    simp only [stmts?] at h
    cases h
    rw [lowerAll]
    exact hasAll_nil
  | s :: rest, Γ, Γ', known, inner, Ts, h, n => by
    obtain ⟨T, Γ₁, others, h₁, h₂, rfl⟩ := stmts?_cons h
    rw [lowerAll]
    have inner₁ := (declares_of_stmt? inner h₁).inner
    exact hasAll_append.mpr ⟨hasAll_of_stmt? s known inner h₁ n,
      hasAll_of_stmts? rest (known.stmt? inner h₁) inner₁ h₂ _⟩

end

end

/-! ## Classes -/

def globalNames (p : Program) : List String := p.globals.filterMap fun d => variableName? d.2

namespace Scopes

variable {W : Vocabulary} {Γ Γ' : Scopes} {limit : Int} {fields : List (String × Option Int32)}

section

variable (known : Γ.Known W)
include known

theorem Known.global? {d : Program.Declaration}
    (declared : ∀ name, variableName? d = some name → W.fields name)
    (h : Γ.global? d = some (fields, Γ')) :
    Γ'.Known W ∧ fields.map (·.1) = (variableName? d).toList := by
  obtain ⟨x, slot, inserted, -, form, ⟨other, none, rfl⟩ | ⟨named, n, rfl⟩⟩ := global?_eq_some h
  · rw [none]
    exact ⟨known.insert? inserted (fun _ hf => absurd (hf ▸ rfl) form) fun _ hv => absurd hv other,
      rfl⟩
  · rw [named]
    exact ⟨known.insert? inserted (fun _ hf => absurd (hf ▸ rfl) form) fun _ _ =>
      declared x.name named, rfl⟩

theorem Known.globals? {ds : List (Position × Program.Declaration)}
    (declared : ∀ name ∈ ds.filterMap fun d => variableName? d.2, W.fields name)
    (h : Γ.globals? ds = some (fields, Γ')) :
    Γ'.Known W ∧ fields.map (·.1) = ds.filterMap fun d => variableName? d.2 := by
  induction ds generalizing Γ fields with
  | nil =>
    cases h
    exact ⟨known, rfl⟩
  | cons d rest ih =>
    obtain ⟨first, Γ₁, others, h₁, h₂, rfl⟩ := globals?_cons h
    obtain ⟨known₁, names₁⟩ := known.global? (fun name hname => declared name
      (mem_filterMap.mpr ⟨d, by simp, hname⟩)) h₁
    obtain ⟨known₂, names₂⟩ := ih known₁ (fun name hname => declared name (by
      obtain ⟨d', hd', hname⟩ := mem_filterMap.mp hname
      exact mem_filterMap.mpr ⟨d', by simp [hd'], hname⟩)) h₂
    refine ⟨known₂, ?_⟩
    rw [map_append, names₁, names₂, filterMap_cons]
    cases variableName? d.2 <;> rfl

theorem hasAll_of_body? {f : Program.Function} {Ts : List TypedStmt} (h : Γ.body? limit f = some Ts)
    (n : Nat) :
    W.HasAll (method W.stem f.signature Ts n).1.body := by
  obtain ⟨Γ₁, Γ₂, params, body, -⟩ := body?_eq_some h
  have inner := (declares_of_parameters? (inner_enter_ne _ _) params).inner
  have known₁ := (known.enter true).parameters? (inner_enter_ne _ _) params
  refine Vocabulary.hasAll_append.mpr ⟨hasAll_of_stmts? f.body known₁ inner body n, ?_⟩
  split
  · exact Vocabulary.hasAll_nil
  · exact Vocabulary.hasAll_cons.mpr ⟨trivial, Vocabulary.hasAll_nil⟩

theorem Known.methods? {fs : List Program.Function} (declared : ∀ f ∈ fs, W.functions f.name)
    {n n' : Nat} {ms : List Method} (h : Γ.methods? limit W.stem n fs = some (ms, Γ', n')) :
    Γ'.Known W ∧ ms.map (·.name) = fs.map (·.name) ∧ ∀ m ∈ ms, W.HasAll m.body := by
  induction fs generalizing Γ n ms with
  | nil =>
    cases h
    exact ⟨known, rfl, by simp⟩
  | cons f rest ih =>
    obtain ⟨slot, Γ₁, Ts, ms', inserted, resolved, others, rfl⟩ := methods?_cons h
    have known₁ : Γ₁.Known W := known.insert? inserted
      (fun g hg => by cases hg; exact declared f (by simp)) fun _ hf => by cases hf
    obtain ⟨known', names, each⟩ := ih known₁ (fun g hg => declared g (by simp [hg])) others
    refine ⟨known', by rw [map_cons, map_cons, names]; rfl, fun m hm => ?_⟩
    rcases mem_cons.mp hm with rfl | hm
    · exact hasAll_of_body? known₁ resolved n
    · exact each m hm

end

end Scopes

def vocabulary (stem : String) (p : Program) : Vocabulary :=
  ⟨(· ∈ globalNames p), (· ∈ p.functions.map (·.name)), stem⟩

theorem hasAll_of_class? {limit : Int} {stem : String} {p : Program} {k : Assembly.Class}
    (h : class? limit stem p = some k) :
    k.fields.map (·.1) = globalNames p ∧ k.methods.map (·.name) = p.functions.map (·.name) ∧
      (∀ m ∈ k.methods, (vocabulary stem p).HasAll m.body) ∧
      (vocabulary stem p).HasAll k.entry := by
  obtain ⟨Γ, Γ', n, Ts, last, globals, methods, main, entry⟩ := class?_eq_some h
  obtain ⟨known, fields⟩ := (Scopes.Known.empty (W := vocabulary stem p) _).globals?
    (fun _ => id) globals
  obtain ⟨known', names, each⟩ := known.methods? (W := vocabulary stem p)
    (fun f hf => mem_map_of_mem hf) methods
  refine ⟨fields, names, each, ?_⟩
  rw [entry]
  exact Vocabulary.hasAll_append.mpr
    ⟨hasAll_of_stmts? p.main (known'.enter true) (inner_enter_ne _ _) main n,
      Vocabulary.hasAll_cons.mpr ⟨trivial, Vocabulary.hasAll_nil⟩⟩

end Jasm.Compile

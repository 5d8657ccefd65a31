import Mathlib.Data.List.Forall2
import Jasm.Proofs.Compile.Kinds
import Jasm.Proofs.Source.Semantics

/-!
# Where variables live

The blocks that are open in a run and the scopes that were open when its code was written declare
the same names. `Agrees` says what this means for a machine that runs the code: a local variable
that holds something is found in its slot of the frame, a global variable in its field.

Slots are given out so that no two variables that are alive at a time share one: the slots of a
scope are numbered from its base, and the base of an inner scope lies behind the slots of the scopes
around it (`Proper`). So a store changes one variable and no other.
-/

namespace Jasm.Source

open Stack List Option Function

open Assembly (isStorable)
open Compile (Scopes)

variable {name id : String} {depth base : Nat} {e : Entry Symbol} {xs : List (Nat × Scope Symbol)}
  {ls : List Level} {x : Nat × Scope Symbol} {l globals : Level} {form : Form} {v w : Value}
  {n : Int32} {slot : Option Nat} {s : Scope Symbol} {d : Declaration Symbol} {b : Binding}

/-! ## Scopes with their bases -/

/-- The open scopes of a method with the frame slots of their first variables, innermost first. -/
def frames (Γ : Scopes) : List (Nat × Scope Symbol) := Γ.bases.zip Γ.stack.inner

/-- The innermost declaration of a name in some scopes, with the base of its scope. -/
def findFrame (name : String) : List (Nat × Scope Symbol) → Option (Nat × Entry Symbol)
  | [] => none
  | (base, s) :: rest =>
    match s.get? name with
    | some e => some (base, e)
    | none => findFrame name rest

/-- The slots of a scope are numbered, each variable has its own. -/
structure Distinct (s : Scope Symbol) : Prop where
  lt : ∀ name e i, s.get? name = some e → e.slot = some i → i < s.slots
  inj : ∀ name name' e e' i, s.get? name = some e → s.get? name' = some e' → e.slot = some i →
    e'.slot = some i → name = name'

/-- The scopes are those of a method in a program with the global scope `G`, and all variables of
the method have slots of their own. -/
structure Proper (G : Scope Symbol) (Γ : Scopes) : Prop where
  good : Γ.Good
  below : ∀ name e, Γ.stack.global.get? name = some e → G.get? name = some e
  bases : Γ.bases.length = Γ.stack.inner.length + 1
  distinct : ∀ x ∈ frames Γ, Distinct x.2
  apart : (frames Γ).Pairwise fun x y => y.1 + y.2.slots ≤ x.1

theorem findIn_cases {global : Scope Symbol} {inner : List (Scope Symbol)} {bases : List Nat}
    (hb : bases.length = inner.length + 1) (h : findIn global name inner = some (depth, e)) :
    (∃ base, findFrame name (bases.zip inner) = some (base, e) ∧ depth ≠ 0 ∧
      depth < bases.length ∧ bases.reverse.getD depth 0 = base) ∨
    (findFrame name (bases.zip inner) = none ∧ global.get? name = some e ∧ depth = 0) := by
  induction inner generalizing bases with
  | nil =>
    rw [findIn, map_eq_some_iff] at h
    obtain ⟨e', he, heq⟩ := h
    cases heq
    exact .inr ⟨by simp [findFrame], he, rfl⟩
  | cons s rest ih =>
    cases bases with
    | nil => simp at hb
    | cons base bases =>
      simp only [length_cons, Nat.add_right_cancel_iff] at hb
      rw [findIn] at h
      simp only [zip_cons_cons, findFrame]
      cases hs : s.get? name with
      | some e' =>
        rw [hs] at h
        cases h
        exact .inl ⟨base, rfl, by omega, by simp [hb], by simp [← hb]⟩
      | none =>
        rw [hs] at h
        rcases ih hb h with ⟨base', found, hd, lt, hbase⟩ | outside
        · refine .inl ⟨base', found, hd, by simp; omega, ?_⟩
          rw [← hbase, reverse_cons, getD_eq_getElem?_getD,
            getElem?_append_left (by simpa using lt), ← getD_eq_getElem?_getD]
        · exact .inr outside

theorem Proper.find?_cases {G : Scope Symbol} {Γ : Scopes} (proper : Proper G Γ)
    (h : Γ.stack.find? name = some (depth, e)) :
    (∃ base, findFrame name (frames Γ) = some (base, e) ∧
      ∀ i, e.slot = some i → e.form = .variable → Γ.location depth e = .frame (base + i : Nat)) ∨
    (findFrame name (frames Γ) = none ∧ G.get? name = some e ∧
      (e.form = .variable → Γ.location depth e = .global)) := by
  rcases findIn_cases proper.bases h with ⟨base, found, hd, -, hbase⟩ | ⟨outside, he, rfl⟩
  · refine .inl ⟨base, found, fun i hi hf => ?_⟩
    rw [← hbase, getD_eq_getElem?_getD]
    simp [Scopes.location, locationOf, hf, hd, hi]
  · refine .inr ⟨outside, proper.below name e he, fun hf => ?_⟩
    simp [Scopes.location, locationOf, hf]

/-! ## Agreement -/

variable {ml : Nat → Option Int32} {mg : String → Option Int32}

/-- What is declared in a scope with a base agrees with what it is in the run. -/
def Holds (ml : Nat → Option Int32) (base : Nat) (e : Entry Symbol) : Binding → Prop
  | .variable w => ∃ id v, e.item = .variable id v ∧ w.kind = v.kind ∧
    ∀ i, e.slot = some i → w.isInit → w.intImage? = ml (base + i)
  | .constant w => ∃ id, e.item = .constant id w
  | .array => ∃ a, e.item = .array a

/-- A block and its scope declare the same. -/
structure LevelAgrees (ml : Nat → Option Int32) (x : Nat × Scope Symbol) (l : Level) : Prop where
  declared : ∀ name, x.2.get? name = none ↔ l name = none
  holds : ∀ name e b, x.2.get? name = some e → l name = some b → Holds ml x.1 e b

/-- What is declared globally agrees with what it is in the run. Global variables always hold
something. -/
def GlobalHolds (mg : String → Option Int32) (name : String) (e : Entry Symbol) : Binding → Prop
  | .variable w => ∃ id v n, e.item = .variable id v ∧ w.kind = v.kind ∧
    w.intImage? = some n ∧ mg name = some n
  | .constant w => ∃ id, e.item = .constant id w
  | .array => ∃ a, e.item = .array a

/-- Functions are the only global declarations that a run does not change and keep. -/
structure GlobalsAgree (G : Scope Symbol) (globals : Level) (mg : String → Option Int32) :
    Prop where
  holds : ∀ name b, globals name = some b → ∃ e, G.get? name = some e ∧ GlobalHolds mg name e b
  function : ∀ name e, G.get? name = some e → globals name = none → ∃ f, e.item = .function f

/-- A run agrees with a machine that runs the code of the program. -/
structure Agrees (G : Scope Symbol) (Γ : Scopes) (env : Env) (ml : Nat → Option Int32)
    (mg : String → Option Int32) : Prop where
  locals : List.Forall₂ (LevelAgrees ml) (frames Γ) env.locals
  globals : GlobalsAgree G env.globals mg

/-! ## Looking names up -/

theorem lookup_of_frames (h : List.Forall₂ (LevelAgrees ml) xs ls) (globals : Level)
    (name : String) :
    match findFrame name xs with
    | some (base, e) => ∃ b, lookup globals name ls = some b ∧ Holds ml base e b
    | none => lookup globals name ls = globals name := by
  induction h with
  | nil => rfl
  | @cons x l xs ls agrees rest ih =>
    obtain ⟨base, s⟩ := x
    simp only [findFrame, lookup]
    cases hs : s.get? name with
    | none =>
      rw [(agrees.declared name).mp hs]
      exact ih
    | some e =>
      cases hl : l name with
      | none =>
        rw [(agrees.declared name).mpr hl] at hs
        cases hs
      | some b => exact ⟨b, rfl, agrees.holds name e b hs hl⟩

section

variable {G : Scope Symbol} {Γ : Scopes} {env : Env} {name id : String} {depth base : Nat}
  {form : Form} {slot : Option Nat} {v : Value} {b : Binding}

theorem Holds.of_variable (h : Holds ml base ⟨form, .variable id v, slot⟩ b) :
    ∃ w, b = .variable w ∧ w.kind = v.kind ∧
      ∀ i, slot = some i → w.isInit → w.intImage? = ml (base + i) := by
  cases b with
  | «variable» w =>
    obtain ⟨_, _, heq, rest⟩ := h
    cases heq
    exact ⟨w, rfl, rest⟩
  | constant w => simp [Holds] at h
  | array => simp [Holds] at h

theorem GlobalHolds.of_variable (h : GlobalHolds mg name ⟨form, .variable id v, slot⟩ b) :
    ∃ w n, b = .variable w ∧ w.kind = v.kind ∧ w.intImage? = some n ∧ mg name = some n := by
  cases b with
  | «variable» w =>
    obtain ⟨_, _, n, heq, rest⟩ := h
    cases heq
    exact ⟨w, n, rfl, rest⟩
  | constant w => simp [GlobalHolds] at h
  | array => simp [GlobalHolds] at h

section

variable (agrees : Agrees G Γ env ml mg)
include agrees

section

variable (proper : Proper G Γ)
include proper

theorem Agrees.lookup_cases {e : Entry Symbol} (h : Γ.stack.find? name = some (depth, e)) :
    (∃ base b, findFrame name (frames Γ) = some (base, e) ∧ env.lookup name = some b ∧
      Holds ml base e b ∧
      ∀ i, e.slot = some i → e.form = .variable → Γ.location depth e = .frame (base + i : Nat)) ∨
    (∃ b, findFrame name (frames Γ) = none ∧ G.get? name = some e ∧ env.lookup name = some b ∧
      GlobalHolds mg name e b ∧ (e.form = .variable → Γ.location depth e = .global)) ∨
    (env.lookup name = none ∧ G.get? name = some e ∧ ∃ f, e.item = .function f) := by
  have looked := lookup_of_frames agrees.locals env.globals name
  rcases proper.find?_cases h with ⟨base, found, located⟩ | ⟨outside, he, located⟩
  · rw [found] at looked
    obtain ⟨b, hb, holds⟩ := looked
    exact .inl ⟨base, b, found, hb, holds, located⟩
  · rw [outside] at looked
    cases hg : env.globals name with
    | none => exact .inr (.inr ⟨looked.trans hg, he, agrees.globals.function name e he hg⟩)
    | some b =>
      obtain ⟨e', he', holds⟩ := agrees.globals.holds name b hg
      rw [he] at he'
      cases he'
      exact .inr (.inl ⟨b, outside, he, looked.trans hg, holds, located⟩)

theorem Agrees.lookup_variable
    (h : Γ.stack.find? name = some (depth, ⟨form, .variable id v, slot⟩)) :
    ∃ w, env.lookup name = some (.variable w) ∧ w.kind = v.kind ∧
      ((∃ i, Γ.location depth ⟨form, .variable id v, slot⟩ = .frame (i : Nat) ∧
          (w.isInit → w.intImage? = ml i)) ∨
        (Γ.location depth ⟨form, .variable id v, slot⟩ = .global ∧
          ∃ n, w.intImage? = some n ∧ mg name = some n)) := by
  have good := proper.good.find? h
  obtain ⟨i, hi⟩ := good.slot good.form
  rcases agrees.lookup_cases proper h with ⟨base, b, -, hb, holds, located⟩ |
    ⟨b, -, -, hb, holds, located⟩ | ⟨-, -, f, heq⟩
  · obtain ⟨w, rfl, hk, image⟩ := holds.of_variable
    exact ⟨w, hb, hk, .inl ⟨base + i, located i hi good.form, image i hi⟩⟩
  · obtain ⟨w, n, rfl, hk, image, stored⟩ := holds.of_variable
    exact ⟨w, hb, hk, .inr ⟨located good.form, n, image, stored⟩⟩
  · cases heq

theorem Agrees.lookup_constant
    (h : Γ.stack.find? name = some (depth, ⟨form, .constant id v, slot⟩)) :
    env.lookup name = some (.constant v) := by
  rcases agrees.lookup_cases proper h with ⟨base, b, -, hb, holds, -⟩ | ⟨b, -, -, hb, holds, -⟩ |
    ⟨-, -, f, heq⟩
  · cases b <;> simp [Holds] at holds
    rw [hb, holds]
  · cases b <;> simp [GlobalHolds] at holds
    rw [hb, holds]
  · cases heq

theorem Agrees.lookup_function {f : Signature}
    (h : Γ.stack.find? name = some (depth, ⟨form, .function f, slot⟩)) :
    env.lookup name = none ∧ G.get? name = some ⟨form, .function f, slot⟩ := by
  rcases agrees.lookup_cases proper h with ⟨base, b, -, -, holds, -⟩ | ⟨b, -, -, -, holds, -⟩ |
    ⟨hn, he, -⟩
  · cases b <;> simp [Holds] at holds
  · cases b <;> simp [GlobalHolds] at holds
  · exact ⟨hn, he⟩

end

end

end

/-! ## Storing -/

theorem mem_of_findFrame (h : findFrame name xs = some (base, e)) :
    ∃ s, (base, s) ∈ xs ∧ s.get? name = some e := by
  induction xs with
  | nil => cases h
  | cons x rest ih =>
    obtain ⟨base', s⟩ := x
    rw [findFrame] at h
    cases hs : s.get? name with
    | none =>
      rw [hs] at h
      obtain ⟨s', hmem, he⟩ := ih h
      exact ⟨s', mem_cons_of_mem _ hmem, he⟩
    | some e' =>
      rw [hs] at h
      cases h
      exact ⟨s, by simp, hs⟩

theorem LevelAgrees.update_outside {j : Nat} (h : LevelAgrees ml x l) (distinct : Distinct x.2)
    (out : j < x.1 ∨ x.1 + x.2.slots ≤ j) {n : Option Int32} :
    LevelAgrees (Function.update ml j n) x l := by
  refine ⟨h.declared, fun name e b he hb => ?_⟩
  have holds := h.holds name e b he hb
  cases b with
  | «variable» w =>
    obtain ⟨id, v, heq, hk, image⟩ := holds
    refine ⟨id, v, heq, hk, fun i hi init => ?_⟩
    have lt := distinct.lt name e i he hi
    rw [image i hi init, update_of_ne (by omega)]
  | constant w => exact holds
  | array => exact holds

theorem levelsAgree_update_outside {j : Nat} (h : List.Forall₂ (LevelAgrees ml) xs ls)
    (distinct : ∀ x ∈ xs, Distinct x.2) (out : ∀ x ∈ xs, j < x.1 ∨ x.1 + x.2.slots ≤ j)
    (n : Option Int32) :
    List.Forall₂ (LevelAgrees (Function.update ml j n)) xs ls := by
  induction h with
  | nil => exact .nil
  | cons agrees _ ih =>
    have hx := distinct _ (mem_cons_self ..)
    refine .cons (agrees.update_outside hx (out _ (mem_cons_self ..))) (ih ?_ ?_)
    · exact fun x hx => distinct x (mem_cons_of_mem _ hx)
    · exact fun x hx => out x (mem_cons_of_mem _ hx)

theorem LevelAgrees.assign {i : Nat} (h : LevelAgrees ml x l) (distinct : Distinct x.2)
    (he : x.2.get? name = some ⟨form, .variable id v, some i⟩) (hk : w.kind = v.kind)
    (image : w.intImage? = some n) :
    ∃ l', l.assign name w = some l' ∧ LevelAgrees (Function.update ml (x.1 + i) (some n)) x l' := by
  cases hl : l name with
  | none =>
    rw [(h.declared name).mpr hl] at he
    cases he
  | some b =>
    obtain ⟨old, rfl, hold, -⟩ := (h.holds name _ b he hl).of_variable
    refine ⟨Function.update l name (some (.variable w)), ?_, fun name' => ?_,
      fun name' e b he' hb => ?_⟩
    · simp [Level.assign, hl, Value.assign, hold, hk]
    · by_cases hn : name' = name
      · subst hn
        simp [he]
      · rw [update_of_ne hn]
        exact h.declared name'
    · by_cases hn : name' = name
      · subst hn
        rw [he] at he'
        cases he'
        rw [update_self] at hb
        cases hb
        refine ⟨id, v, rfl, hk, fun j hj _ => ?_⟩
        cases hj
        rw [image, update_self]
      · rw [update_of_ne hn] at hb
        have holds := h.holds name' e b he' hb
        cases b with
        | «variable» w' =>
          obtain ⟨id', v', heq, hk', image'⟩ := holds
          refine ⟨id', v', heq, hk', fun j hj init => ?_⟩
          have ne : j ≠ i := fun hji =>
            hn (distinct.inj name' name e _ i he' he (hji ▸ hj) rfl)
          rw [image' j hj init, update_of_ne (by omega)]
        | constant w' => exact holds
        | array => exact holds

theorem assign_of_frames {i : Nat} (globals : Level) (h : List.Forall₂ (LevelAgrees ml) xs ls)
    (distinct : ∀ x ∈ xs, Distinct x.2) (apart : xs.Pairwise fun x y => y.1 + y.2.slots ≤ x.1)
    (found : findFrame name xs = some (base, ⟨form, .variable id v, some i⟩)) (hk : w.kind = v.kind)
    (image : w.intImage? = some n) :
    ∃ ls', assign globals name w ls = some (ls', globals) ∧
      List.Forall₂ (LevelAgrees (Function.update ml (base + i) (some n))) xs ls' := by
  induction h with
  | nil => cases found
  | @cons x l xs ls agrees rest ih =>
    obtain ⟨base', s⟩ := x
    rw [pairwise_cons] at apart
    have hx := distinct _ (mem_cons_self ..)
    rw [findFrame] at found
    cases hs : s.get? name with
    | none =>
      -- The variable belongs to a scope around this one, whose slots lie below.
      rw [hs] at found
      obtain ⟨ls', stored, agrees'⟩ :=
        ih (fun y hy => distinct y (mem_cons_of_mem _ hy)) apart.2 found
      obtain ⟨s', hmem, he⟩ := mem_of_findFrame found
      have lt := (distinct _ (mem_cons_of_mem _ hmem)).lt name _ i he rfl
      have below := apart.1 _ hmem
      refine ⟨l :: ls', ?_, .cons (agrees.update_outside hx (.inl ?_)) agrees'⟩
      · simp only [assign, (agrees.declared name).mp hs, stored, map_some]
      · simp only at below lt ⊢
        omega
    | some e =>
      rw [hs] at found
      cases found
      obtain ⟨l', stored, agrees'⟩ := agrees.assign hx hs hk image
      obtain ⟨b, hb⟩ : ∃ b, l name = some b := by
        refine ne_none_iff_exists'.mp fun hn => ?_
        rw [(agrees.declared name).mpr hn] at hs
        cases hs
      refine ⟨l' :: ls, by simp only [assign, hb, stored, map_some], .cons agrees' ?_⟩
      refine levelsAgree_update_outside rest (fun y hy => distinct y (mem_cons_of_mem _ hy))
        (fun y hy => .inr ?_) _
      have below := apart.1 y hy
      simp only at below
      omega

theorem assign_of_not_frames (globals : Level) (h : List.Forall₂ (LevelAgrees ml) xs ls)
    (outside : findFrame name xs = none) :
    assign globals name w ls = (globals.assign name w).map (ls, ·) := by
  induction h with
  | nil => rfl
  | @cons x l xs ls agrees rest ih =>
    obtain ⟨base, s⟩ := x
    rw [findFrame] at outside
    cases hs : s.get? name with
    | some e =>
      rw [hs] at outside
      cases outside
    | none =>
      rw [hs] at outside
      simp only [assign, (agrees.declared name).mp hs, ih outside, Option.map_map]
      rfl

theorem GlobalsAgree.assign {G : Scope Symbol} (h : GlobalsAgree G globals mg)
    (he : G.get? name = some ⟨form, .variable id v, slot⟩) (hk : w.kind = v.kind)
    (image : w.intImage? = some n) :
    ∃ globals', globals.assign name w = some globals' ∧
      GlobalsAgree G globals' (Function.update mg name (some n)) := by
  obtain ⟨b, hb⟩ : ∃ b, globals name = some b := by
    refine ne_none_iff_exists'.mp fun hn => ?_
    obtain ⟨f, heq⟩ := h.function name _ he hn
    cases heq
  obtain ⟨e', he', holds⟩ := h.holds name b hb
  rw [he] at he'
  cases he'
  obtain ⟨old, n', rfl, hold, -, -⟩ := holds.of_variable
  refine ⟨Function.update globals name (some (.variable w)), ?_, fun name' b hb' => ?_,
    fun name' e he' hn' => ?_⟩
  · simp [Level.assign, hb, Value.assign, hold, hk]
  · by_cases hn : name' = name
    · subst hn
      rw [update_self] at hb'
      cases hb'
      exact ⟨_, he, id, v, n, rfl, hk, image, update_self ..⟩
    · rw [update_of_ne hn] at hb'
      obtain ⟨e, he', holds⟩ := h.holds name' b hb'
      refine ⟨e, he', ?_⟩
      cases b with
      | «variable» w' =>
        obtain ⟨id', v', m, heq, hk', image', stored⟩ := holds
        exact ⟨id', v', m, heq, hk', image', by rw [update_of_ne hn, stored]⟩
      | constant w' => exact holds
      | array => exact holds
  · refine h.function name' e he' ?_
    by_cases hn : name' = name
    · subst hn
      simp at hn'
    · rwa [update_of_ne hn] at hn'

theorem Agrees.assign {G : Scope Symbol} {Γ : Scopes} {env : Env} (agrees : Agrees G Γ env ml mg)
    (proper : Proper G Γ) (h : Γ.stack.find? name = some (depth, ⟨form, .variable id v, slot⟩))
    (hk : w.kind = v.kind) (image : w.intImage? = some n) :
    ∃ env', env.assign name w = .ok env' ∧ env'.output = env.output ∧
      ((∃ i, Γ.location depth ⟨form, .variable id v, slot⟩ = .frame (i : Nat) ∧
          Agrees G Γ env' (Function.update ml i (some n)) mg) ∨
        (Γ.location depth ⟨form, .variable id v, slot⟩ = .global ∧ (mg name).isSome ∧
          Agrees G Γ env' ml (Function.update mg name (some n)))) := by
  have good := proper.good.find? h
  obtain ⟨i, hi⟩ := good.slot good.form
  have hi : slot = some i := hi
  subst hi
  rcases agrees.lookup_cases proper h with ⟨base, b, found, -, -, located⟩ |
    ⟨b, outside, he, -, holds, located⟩ | ⟨-, -, f, heq⟩
  · obtain ⟨ls, stored, locals⟩ := assign_of_frames env.globals agrees.locals proper.distinct
      proper.apart found hk image
    refine ⟨{ env with locals := ls }, by simp [Env.assign, stored], rfl, .inl ⟨base + i, ?_, ?_⟩⟩
    · exact located i rfl good.form
    · exact ⟨locals, agrees.globals⟩
  · obtain ⟨globals, stored, agrees'⟩ := agrees.globals.assign he hk image
    obtain ⟨_, _, -, -, -, present⟩ := holds.of_variable
    refine ⟨{ env with globals := globals }, ?_, rfl, .inr ⟨located good.form, ?_, ?_⟩⟩
    · simp [Env.assign, assign_of_not_frames env.globals agrees.locals outside, stored]
    · rw [present]
      rfl
    · exact ⟨agrees.locals, agrees'⟩
  · cases heq

/-! ## Opening blocks and declaring names -/

theorem distinct_empty : Distinct {} :=
  ⟨fun name e i h => by simp [Scope.get?] at h, fun name name' e e' i h =>
    by simp [Scope.get?] at h⟩

theorem Distinct.push (h : Distinct s)
    (hslot : slot = if d.form = .variable then some s.slots else none) :
    Distinct (s.push d slot) := by
  have new {name : String} {e : Entry Symbol} {i : Nat} (he : (s.push d slot).get? name = some e)
      (hi : e.slot = some i) :
      name = d.name ∧ slot = some i ∧ i = s.slots ∨ name ≠ d.name ∧ s.get? name = some e ∧
        i < s.slots := by
    rw [Scope.get?_push] at he
    split at he
    · next hn =>
        cases he
        have hi : slot = some i := hi
        refine .inl ⟨hn, hi, ?_⟩
        rw [hi] at hslot
        split at hslot <;> cases hslot
        rfl
    · next hn => exact .inr ⟨hn, he, h.lt name e i he hi⟩
  refine ⟨fun name e i he hi => ?_, fun name name' e e' i he he' hi hi' => ?_⟩
  · have grows : s.slots ≤ (s.push d slot).slots := by
      unfold Scope.push
      split at hslot <;> subst hslot <;> simp
    rcases new he hi with ⟨-, hs, rfl⟩ | ⟨-, -, lt⟩
    · simp [Scope.push, hs]
    · omega
  · rcases new he hi with ⟨rfl, -, rfl⟩ | ⟨-, he, lt⟩ <;>
      rcases new he' hi' with ⟨rfl, -, hi''⟩ | ⟨-, he', lt'⟩
    · rfl
    · omega
    · omega
    · exact h.inj name name' e e' i he he' hi hi'

theorem LevelAgrees.declare (h : LevelAgrees ml (base, s) l)
    (holds : Holds ml base ⟨d.form, d.item, slot⟩ b) :
    LevelAgrees ml (base, s.push d slot) (Function.update l d.name (some b)) := by
  refine ⟨fun name => ?_, fun name e b' he hb => ?_⟩
  · simp only [Scope.get?_push]
    by_cases hn : name = d.name
    · subst hn
      simp
    · rw [if_neg hn, update_of_ne hn]
      exact h.declared name
  · rw [Scope.get?_push] at he
    by_cases hn : name = d.name
    · subst hn
      rw [if_pos rfl] at he
      rw [update_self] at hb
      cases he
      cases hb
      exact holds
    · rw [if_neg hn] at he
      rw [update_of_ne hn] at hb
      exact h.holds name e b' he hb

variable {G : Scope Symbol} {Γ Γ' : Scopes} {env : Env}

theorem frames_of_insert? {x : Symbol} (inner : Γ.stack.inner ≠ [])
    (hb : Γ.bases.length = Γ.stack.inner.length + 1) (h : Γ.insert? x = some (slot, Γ')) :
    ∃ base s rest, frames Γ = (base, s) :: rest ∧
      frames Γ' = (base, s.push x.declaration slot) :: rest ∧
      slot = (if x.form = .variable then some s.slots else none) ∧
      Γ'.bases = Γ.bases ∧ Γ'.stack.global = Γ.stack.global ∧
      Γ'.stack.inner.length = Γ.stack.inner.length := by
  obtain ⟨-, hslot, rfl⟩ := Scopes.insert?_eq_some h
  obtain ⟨⟨scopes, global⟩, bases⟩ := Γ
  cases scopes with
  | nil => exact absurd rfl inner
  | cons s scopes =>
    cases bases with
    | nil => simp at hb
    | cons base bases =>
      exact ⟨base, s, bases.zip scopes, rfl, rfl, hslot, rfl, rfl, by simp [setTop]⟩

theorem Proper.insert? (proper : Proper G Γ) (inner : Γ.stack.inner ≠ []) {x : Symbol} (hx : x.Good)
    (h : Γ.insert? x = some (slot, Γ')) : Proper G Γ' := by
  obtain ⟨base, s, rest, hf, hf', hslot, hb, hg, hl⟩ := frames_of_insert? inner proper.bases h
  have distinct := proper.distinct
  have apart := proper.apart
  rw [hf] at distinct apart
  refine ⟨proper.good.insert? hx h, ?_, by rw [hb, hl]; exact proper.bases, ?_, ?_⟩
  · rw [hg]
    exact proper.below
  · rw [hf']
    intro y hy
    rcases mem_cons.mp hy with rfl | hy
    · exact (distinct _ (mem_cons_self ..)).push hslot
    · exact distinct y (mem_cons_of_mem _ hy)
  · rw [hf']
    rw [pairwise_cons] at apart ⊢
    exact apart

theorem Agrees.insert? (agrees : Agrees G Γ env ml mg) (proper : Proper G Γ)
    (inner : Γ.stack.inner ≠ []) {x : Symbol} (h : Γ.insert? x = some (slot, Γ'))
    (holds : ∀ base s rest, frames Γ = (base, s) :: rest → Holds ml base ⟨x.form, x, slot⟩ b) :
    Agrees G Γ' (env.declare x.name b) ml mg := by
  obtain ⟨base, s, rest, hf, hf', -⟩ := frames_of_insert? inner proper.bases h
  have locals := agrees.locals
  rw [hf] at locals
  obtain ⟨l, ls, hl, hls, heq⟩ := forall₂_cons_left_iff.mp locals
  refine ⟨?_, ?_⟩
  · rw [hf', Env.declare, heq]
    exact .cons (hl.declare (holds base s rest hf)) hls
  · rw [Env.declare, heq]
    exact agrees.globals

theorem Proper.enter (proper : Proper G Γ) (inner : Γ.stack.inner ≠ []) :
    Proper G (Γ.enter false) ∧ ∃ base, frames (Γ.enter false) = (base, {}) :: frames Γ := by
  have hb := proper.bases
  have apart := proper.apart
  have distinct := proper.distinct
  obtain ⟨⟨scopes, global⟩, bases⟩ := Γ
  cases scopes with
  | nil => exact absurd rfl inner
  | cons s scopes =>
    cases bases with
    | nil => simp at hb
    | cons base bases =>
      refine ⟨⟨proper.good.enter, proper.below, ?_, ?_, ?_⟩, _, rfl⟩
      · simpa [Scopes.enter, enter] using hb
      · intro y hy
        rcases mem_cons.mp hy with rfl | hy
        · exact distinct_empty
        · exact distinct y hy
      · refine pairwise_cons.mpr ⟨fun y hy => ?_, apart⟩
        have apart := pairwise_cons.mp apart
        rcases mem_cons.mp hy with rfl | hy
        · exact Nat.le_refl _
        · have below := apart.1 y hy
          show y.1 + y.2.slots ≤ base + s.slots
          simp only at below
          omega

theorem proper_method (good : Γ.Good)
    (below : ∀ name e, Γ.stack.global.get? name = some e → G.get? name = some e)
    (top : Γ.stack.inner = []) (hb : Γ.bases.length = 1) :
    Proper G (Γ.enter true) ∧ frames (Γ.enter true) = [(0, {})] := by
  have hf : frames (Γ.enter true) = [(0, {})] := by
    simp [frames, Scopes.enter, enter, top]
  refine ⟨⟨good.enter, below, ?_, ?_, ?_⟩, hf⟩
  · simp [Scopes.enter, enter, top, hb]
  · rw [hf]
    simpa using distinct_empty
  · rw [hf]
    simp

theorem levelAgrees_empty (ml : Nat → Option Int32) (base : Nat) :
    LevelAgrees ml (base, {}) fun _ => none :=
  ⟨fun name => by simp [Scope.get?], fun name e b he => by simp [Scope.get?] at he⟩

theorem Agrees.enter (agrees : Agrees G Γ env ml mg) (proper : Proper G Γ)
    (inner : Γ.stack.inner ≠ []) : Agrees G (Γ.enter false) env.enter ml mg := by
  obtain ⟨-, base, hf⟩ := proper.enter inner
  refine ⟨?_, agrees.globals⟩
  rw [hf]
  exact .cons (levelAgrees_empty ml base) agrees.locals

theorem Agrees.leave (agrees : Agrees G Γ' env ml mg) (declares : (Γ.enter false).Declares Γ') :
    Agrees G Γ env.leave ml mg := by
  have hb := declares.bases
  have ho := declares.outer
  have hi := declares.inner
  obtain ⟨⟨scopes, global⟩, bases⟩ := Γ'
  cases scopes with
  | nil => exact absurd rfl hi
  | cons s scopes =>
    simp only [Scopes.enter, tail_cons] at hb ho
    subst hb ho
    have locals := agrees.locals
    obtain ⟨l, ls, -, hls, heq⟩ := forall₂_cons_left_iff.mp locals
    refine ⟨?_, agrees.globals⟩
    rw [Env.leave, heq]
    exact hls

theorem Agrees.parameters? {limit : Int} {params : List (String × Kind)} {vs : List Value}
    {out : List (Value × Bool)} (agrees : Agrees G Γ ⟨[l], globals, out⟩ ml mg)
    (proper : Proper G Γ) (hf : frames Γ = [(0, s)]) (h : Γ.parameters? limit params = some Γ')
    (storable : ∀ k ∈ params.map (·.2), isStorable k) (kinds : vs.map Value.kind = params.map (·.2))
    (images : ∀ i v, vs[i]? = some v → v.intImage? = ml (s.slots + i)) :
    ∃ l', parameters l params vs = some l' ∧ Proper G Γ' ∧
      Agrees G Γ' ⟨[l'], globals, out⟩ ml mg := by
  induction params generalizing Γ vs s l with
  | nil =>
    cases h
    cases vs with
    | nil => exact ⟨l, rfl, proper, agrees⟩
    | cons v vs => cases kinds
  | cons param params ih =>
    obtain ⟨name, kind⟩ := param
    cases vs with
    | nil => cases kinds
    | cons v vs =>
      obtain ⟨hk, kinds⟩ := List.cons.inj kinds
      simp only at hk
      obtain ⟨Γ₁, slot, hi, h⟩ := Scopes.parameters?_cons h
      have inner : Γ.stack.inner ≠ [] := by
        intro hn
        simp [frames, hn] at hf
      have hx : (Symbol.newVariable name kind).Good := storable kind (by simp)
      obtain ⟨base, s', rest, hf₀, hf₁, hslot, -⟩ :=
        frames_of_insert? inner proper.bases hi
      rw [hf] at hf₀
      cases hf₀
      have hslot : slot = some s.slots := hslot
      subst hslot
      have agrees₁ := agrees.insert? (b := .variable v) proper inner hi (by
        intro base s' rest hf'
        rw [hf] at hf'
        cases hf'
        refine ⟨name, .uninit kind, rfl, hk, fun i hi _ => ?_⟩
        cases hi
        simpa using images 0 v rfl)
      obtain ⟨l', assigned, proper', agrees'⟩ := ih (l := Function.update l name _) agrees₁
        (proper.insert? inner hx hi) hf₁ h
        (fun k hk => storable k (mem_cons_of_mem _ hk)) kinds (fun i w hw => by
          rw [images (i + 1) w hw]
          simp only [Scope.push]
          congr 1
          omega)
      refine ⟨l', ?_, proper', agrees'⟩
      have stored : (Value.uninit kind).assign v = .ok v := if_pos hk.symm
      rw [parameters, stored]
      exact assigned

end Jasm.Source

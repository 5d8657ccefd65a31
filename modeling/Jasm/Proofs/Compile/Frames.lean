import Mathlib.Data.List.Nodup
import Jasm.Proofs.Compile.Kinds

/-!
# The frame of a method

Every scope numbers its own variables from zero. What makes the slots of a frame distinct is the
base of each scope, which is taken when the scope is opened: it lies behind all variables of the
scopes around it, and these declare nothing more while an inner scope is open. So the live local
variables, in the order of their declaration, have the slots `0`, `1`, `2` and so on
(`Laid.map_locals`), and stay so whenever a scope is opened or closed or something is declared
(`Laid.moves`).
-/

namespace Jasm

open List

/-! ## Single scopes -/

namespace Scope

/-- The variables of a scope with their frame slots, in the order of their declaration. -/
def frameVars (base : Nat) (s : Scope Symbol) : List (String × Nat) :=
  s.entries.filterMap fun x =>
    if x.2.form = .variable then some (x.1, base + x.2.slot.getD 0) else none

/-- The names of a scope are those that are declared in it, and its variables are numbered. -/
structure Tidy (s : Scope Symbol) : Prop where
  nodup : s.names.Nodup
  known : ∀ name, name ∈ s.names ↔ (s.get? name).isSome
  form : ∀ name e, s.get? name = some e → e.form = e.item.form
  slot : ∀ name e, s.get? name = some e → e.form = .variable → e.slot.isSome
  numbered : (s.frameVars 0).map Prod.snd = List.range s.slots

variable {s : Scope Symbol} {d : Declaration Symbol} {slot : Option Nat}

theorem frameVars_eq (base : Nat) (s : Scope Symbol) :
    s.frameVars base = (s.frameVars 0).map fun x => (x.1, base + x.2) := by
  unfold frameVars
  rw [map_filterMap]
  congr 1
  funext x
  split <;> simp

theorem mem_entries {x : String × Entry Symbol} (tidy : s.Tidy) :
    x ∈ s.entries ↔ s.get? x.1 = some x.2 := by
  unfold entries
  simp only [mem_filterMap, mem_reverse, Option.map_eq_some_iff]
  constructor
  · rintro ⟨name, -, e, he, rfl⟩
    exact he
  · intro h
    exact ⟨x.1, (tidy.known x.1).mpr (by simp [h]), x.2, h, rfl⟩

theorem map_fst_entries (tidy : s.Tidy) : s.entries.map Prod.fst = s.names.reverse := by
  have all : ∀ names : List String, (∀ name ∈ names, (s.get? name).isSome) →
      (names.filterMap fun name => (s.get? name).map (name, ·)).map Prod.fst = names := by
    intro names
    induction names with
    | nil => simp
    | cons name rest ih =>
      intro h
      obtain ⟨e, he⟩ := Option.isSome_iff_exists.mp (h name mem_cons_self)
      have others := ih fun name' hn => h name' (mem_cons_of_mem _ hn)
      simp [he, others]
  exact all _ fun name hn => (tidy.known name).mp (mem_reverse.mp hn)

namespace Tidy

theorem empty : Tidy {} where
  nodup := nodup_nil
  known name := by simp [get?]
  form name e h := by simp [get?] at h
  slot name e h := by simp [get?] at h
  numbered := rfl

theorem map_frameVars (tidy : s.Tidy) (base : Nat) :
    (s.frameVars base).map Prod.snd = (List.range s.slots).map (base + ·) := by
  rw [frameVars_eq, ← tidy.numbered, map_map, map_map]
  rfl

theorem lookup_frameVars (tidy : s.Tidy) {name : String} {e : Entry Symbol} {i : Nat}
    (h : s.get? name = some e) (form : e.form = .variable) (slot : e.slot = some i) (base : Nat) :
    (s.frameVars base).reverse.lookup name = some (base + i) := by
  have nodup : ((s.frameVars base).reverse.map Prod.fst).Nodup := by
    have sub : ((s.frameVars base).map Prod.fst).Sublist (s.entries.map Prod.fst) := by
      unfold frameVars
      induction s.entries with
      | nil => simp
      | cons x rest ih =>
        by_cases hv : x.2.form = .variable
        · simpa [hv] using ih
        · simpa [hv] using ih.cons x.1
    rw [map_reverse, nodup_reverse]
    rw [map_fst_entries tidy] at sub
    exact sub.nodup (nodup_reverse.mpr tidy.nodup)
  have mem : (name, base + i) ∈ (s.frameVars base).reverse := by
    rw [mem_reverse]
    refine mem_filterMap.mpr ⟨(name, e), (mem_entries tidy).mpr h, ?_⟩
    simp [form, slot]
  generalize (s.frameVars base).reverse = xs at nodup mem
  induction xs with
  | nil => cases mem
  | cons x rest ih =>
    rw [map_cons, nodup_cons] at nodup
    rcases mem_cons.mp mem with rfl | mem
    · simp
    · have differs : name ≠ x.1 := by
        rintro rfl
        exact nodup.1 (mem_map.mpr ⟨_, mem, rfl⟩)
      rw [lookup_cons, beq_eq_false_iff_ne.mpr differs]
      exact ih nodup.2 mem

theorem lookup_frameVars_of_none {name : String} (tidy : s.Tidy) (h : s.get? name = none)
    (base : Nat) : (s.frameVars base).reverse.lookup name = none := by
  rw [lookup_eq_none_iff]
  intro x hx
  obtain ⟨y, hy, hx⟩ := mem_filterMap.mp (mem_reverse.mp hx)
  rw [mem_entries tidy] at hy
  split at hx
  · cases hx
    rw [bne_iff_ne]
    rintro rfl
    rw [h] at hy
    cases hy
  · cases hx

end Tidy

theorem entries_push (tidy : s.Tidy) (new : s.get? d.name = none) :
    (s.push d slot).entries = s.entries ++ [(d.name, ⟨d.form, d.item, slot⟩)] := by
  have fresh : d.name ∉ s.names := by
    rw [tidy.known, new]
    simp
  have old : (s.names.reverse.filterMap fun name => ((s.push d slot).get? name).map (name, ·)) =
      s.entries := by
    refine filterMap_congr fun name hn => ?_
    rw [get?_push, if_neg]
    rintro rfl
    exact fresh (mem_reverse.mp hn)
  have last : (s.push d slot).get? d.name = some ⟨d.form, d.item, slot⟩ := by
    rw [get?_push, if_pos rfl]
  have names : (s.push d slot).names = d.name :: s.names := rfl
  rw [entries, names, reverse_cons, filterMap_append, old]
  simp [last]

theorem frameVars_push (slot : Option Nat) (tidy : s.Tidy) (new : s.get? d.name = none)
    (base : Nat) :
    (s.push d slot).frameVars base = s.frameVars base ++
      if d.form = .variable then [(d.name, base + slot.getD 0)] else [] := by
  unfold frameVars
  rw [entries_push tidy new, filterMap_append]
  split <;> simp [*]

theorem slots_push (hslot : slot = if d.form = .variable then some s.slots else none) :
    (s.push d slot).slots = s.slots + if d.form = .variable then 1 else 0 := by
  subst hslot
  unfold push
  split <;> rfl

theorem Tidy.push {x : Symbol} (tidy : s.Tidy) (new : s.get? x.declaration.name = none)
    (hslot : slot = if x.declaration.form = .variable then some s.slots else none) :
    (s.push x.declaration slot).Tidy := by
  have fresh : x.declaration.name ∉ s.names := by
    rw [tidy.known, new]
    simp
  refine ⟨nodup_cons.mpr ⟨fresh, tidy.nodup⟩, fun name => ?_, fun name e he => ?_,
    fun name e he hv => ?_, ?_⟩
  · rw [get?_push]
    show name ∈ x.declaration.name :: s.names ↔ _
    rw [mem_cons, tidy.known]
    split <;> simp [*]
  · rw [get?_push] at he
    split at he
    · cases he
      rfl
    · exact tidy.form name e he
  · rw [get?_push] at he
    split at he
    · cases he
      rw [hslot, if_pos hv]
      rfl
    · exact tidy.slot name e he hv
  · rw [frameVars_push slot tidy new, slots_push hslot, map_append, tidy.numbered]
    split
    · simp [*, range_succ]
    · simp

end Scope

namespace Compile

/-! ## All open scopes -/

def slotsIn : List (Scope Symbol) → Nat
  | [] => 0
  | s :: rest => s.slots + slotsIn rest

/-- The bases of the scopes of a method and of the global scope, innermost first. -/
def basesOf : List (Scope Symbol) → List Nat
  | [] => [0]
  | _ :: rest => slotsIn rest :: basesOf rest

/-- The variables of the scopes of a method with their frame slots, outermost scope first. -/
def localsIn : List (Scope Symbol) → List (String × Nat)
  | [] => []
  | s :: rest => localsIn rest ++ s.frameVars (slotsIn rest)

/-- The live local variables with their frame slots: those of all scopes inside the global one, in
the order of their declaration, the shadowed ones included. -/
def State.locals (c : State) : List (String × Nat) :=
  (c.stack.inner.reverse.zipIdx 1).flatMap fun x => x.1.frameVars (c.base x.2)

namespace Scopes

/-- The base of each scope is the number of variables of the scopes around it. -/
structure Laid (Γ : Scopes) : Prop where
  bases : Γ.bases = basesOf Γ.stack.inner
  inner : ∀ s ∈ Γ.stack.inner, s.Tidy
  global : Γ.stack.global.Tidy

/-- The scopes differ by one change at most. The scope of a method is opened in the global one, any
other scope inside the scope of a method. -/
inductive Moves (Γ : Scopes) : Scopes → Prop where
  | same : Moves Γ Γ
  | enter (method : Bool) (outside : method = true ↔ Γ.stack.inner = []) : Moves Γ (Γ.enter method)
  | leave : Γ.stack.inner ≠ [] → Moves Γ Γ.leave
  | insert (s : Symbol) {slot : Option Nat} {Γ' : Scopes} :
      Γ.insert? s = some (slot, Γ') → Moves Γ Γ'

end Scopes

theorem length_basesOf (inner : List (Scope Symbol)) :
    (basesOf inner).length = inner.length + 1 := by
  induction inner with
  | nil => rfl
  | cons s rest ih => rw [basesOf, length_cons, ih, length_cons]

theorem map_localsIn {inner : List (Scope Symbol)} (tidy : ∀ s ∈ inner, s.Tidy) :
    (localsIn inner).map Prod.snd = List.range (slotsIn inner) := by
  induction inner with
  | nil => rfl
  | cons s rest ih =>
    have outer := ih fun t ht => tidy t (mem_cons_of_mem _ ht)
    have own := (tidy s mem_cons_self).map_frameVars (slotsIn rest)
    rw [localsIn, map_append, outer, own, slotsIn, Nat.add_comm s.slots, range_add]

theorem flatMap_zipIdx (inner : List (Scope Symbol)) (more : List Nat) :
    (inner.reverse.zipIdx 1).flatMap
        (fun x => x.1.frameVars (((basesOf inner).reverse ++ more).getD x.2 0)) =
      localsIn inner := by
  induction inner generalizing more with
  | nil => rfl
  | cons s rest ih =>
    have outer := ih (slotsIn rest :: more)
    have length : (basesOf rest).reverse.length = 1 + rest.length := by
      rw [length_reverse, length_basesOf, Nat.add_comm]
    have base : ((basesOf rest).reverse ++ slotsIn rest :: more).getD (1 + rest.length) 0 =
        slotsIn rest := by
      rw [← length]
      simp
    simp only [basesOf, reverse_cons, zipIdx_append, flatMap_append,
      append_assoc, cons_append, nil_append, length_reverse] at outer ⊢
    rw [outer]
    simp only [zipIdx_cons, zipIdx_nil, flatMap_cons, flatMap_nil,
      append_nil, base, localsIn]

namespace Scopes.Laid

variable {Γ Γ' : Scopes} {c : State}

theorem locals_eq (laid : c.scopes.Laid) : c.locals = localsIn c.stack.inner := by
  have bases : c.bases = basesOf c.stack.inner := laid.bases
  have whole := flatMap_zipIdx c.stack.inner []
  rw [append_nil, ← bases] at whole
  exact whole

theorem map_locals (laid : c.scopes.Laid) :
    c.locals.map Prod.snd = List.range (slotsIn c.stack.inner) := by
  rw [laid.locals_eq]
  exact map_localsIn laid.inner

theorem empty : Laid ⟨{}, [0]⟩ := ⟨rfl, by simp, .empty⟩

theorem moves (laid : Γ.Laid) (h : Moves Γ Γ') : Γ'.Laid := by
  cases h with
  | same => exact laid
  | enter method outside =>
    refine ⟨?_, fun s hs => ?_, laid.global⟩
    · -- A method starts at zero, and around it there is no variable of a frame.
      cases method with
      | true =>
        have inner := outside.mp rfl
        simp [Scopes.enter, Stack.enter, laid.bases, inner, basesOf, slotsIn]
      | false =>
        cases hi : Γ.stack.inner with
        | nil => exact absurd (outside.mpr hi) (by simp)
        | cons s rest =>
          simp [Scopes.enter, Stack.enter, Stack.top, laid.bases, hi, basesOf, slotsIn,
            Nat.add_comm]
    · rcases mem_cons.mp hs with rfl | hs
      · exact .empty
      · exact laid.inner s hs
  | leave inner =>
    refine ⟨?_, fun s hs => laid.inner s (mem_of_mem_tail hs), laid.global⟩
    cases hi : Γ.stack.inner with
    | nil => exact absurd hi inner
    | cons s rest => simp [Scopes.leave, laid.bases, hi, basesOf]
  | insert x h =>
    obtain ⟨new, hslot, rfl⟩ := Scopes.insert?_eq_some h
    obtain ⟨⟨_ | ⟨s, rest⟩, global⟩, bases⟩ := Γ
    · exact ⟨laid.bases, forall_mem_nil _, laid.global.push new hslot⟩
    · refine ⟨laid.bases, fun t mem => ?_, laid.global⟩
      rcases mem_cons.mp mem with rfl | mem
      · exact (laid.inner s mem_cons_self).push new hslot
      · exact laid.inner t (mem_cons_of_mem _ mem)

end Scopes.Laid

/-! ## Finding a variable -/

theorem getD_basesOf {front : List (Scope Symbol)} (s : Scope Symbol) {rest : List (Scope Symbol)} :
    (basesOf (front ++ s :: rest)).reverse.getD (rest.length + 1) 0 = slotsIn rest := by
  induction front with
  | nil =>
    have length : (basesOf rest).reverse.length = rest.length + 1 := by
      rw [length_reverse, length_basesOf]
    rw [nil_append, basesOf, reverse_cons, ← length]
    simp
  | cons t front ih =>
    have inside : rest.length + 1 < (basesOf (front ++ s :: rest)).reverse.length := by
      rw [length_reverse, length_basesOf, length_append, length_cons]
      omega
    rw [cons_append, basesOf, reverse_cons, getD_eq_getElem?_getD,
      getElem?_append_left inside, ← getD_eq_getElem?_getD]
    exact ih

theorem lookup_localsIn {front inner : List (Scope Symbol)} {name : String}
    (tidy : ∀ t ∈ front, t.Tidy) (inside : ∀ t ∈ front, t.get? name = none) :
    (localsIn (front ++ inner)).reverse.lookup name = (localsIn inner).reverse.lookup name := by
  induction front with
  | nil => rfl
  | cons t front ih =>
    have none := (tidy t mem_cons_self).lookup_frameVars_of_none
      (inside t mem_cons_self) (slotsIn (front ++ inner))
    have others := ih (fun u hu => tidy u (mem_cons_of_mem _ hu))
      fun u hu => inside u (mem_cons_of_mem _ hu)
    rw [cons_append, localsIn, reverse_append, lookup_append, none, others]
    rfl

theorem Scopes.Laid.location_eq {c : State} (laid : c.scopes.Laid) {name : String} {depth : Nat}
    {e : Entry Symbol} (found : c.stack.find? name = some (depth, e)) (inside : depth ≠ 0)
    (form : e.form = .variable) :
    ∃ n : Nat, c.location depth e = .frame n ∧ c.locals.reverse.lookup name = some n := by
  rcases findIn_eq_some found with ⟨global, -⟩ | ⟨front, s, rest, inner, rfl, he, shadowed⟩
  · exact absurd global inside
  have tidy : ∀ t ∈ front ++ s :: rest, t.Tidy := fun t ht => laid.inner t (inner ▸ ht)
  have own : s.Tidy := tidy s (by simp)
  obtain ⟨i, hi⟩ := Option.isSome_iff_exists.mp (own.slot name e he form)
  have base : c.base (rest.length + 1) = slotsIn rest := by
    have bases : c.bases = basesOf (front ++ s :: rest) := inner ▸ laid.bases
    rw [State.base, bases]
    exact getD_basesOf s
  refine ⟨slotsIn rest + i, ?_, ?_⟩
  · simp [State.location, Stack.locationOf, form, hi, base]
  · rw [laid.locals_eq, inner,
      lookup_localsIn (fun t ht => tidy t (mem_append_left _ ht)) shadowed, localsIn,
      reverse_append, lookup_append, own.lookup_frameVars he form hi]
    rfl

end Compile

end Jasm

import Jasm.Proofs.Compile.Frames

/-!
# What scopes remember

A scope is built by attempts to declare something, of which some are refused. All there is to know
about it is which attempts succeeded, in what order, and what slots were given out for them:
`Records` says that the index, the list of names and the number of slots of a scope agree on this,
and every attempt keeps it so. Attempts that were refused leave no trace.

The open scopes are then as many such records, innermost first, and all queries about a name give
what the innermost record that has the name says. Behind a scope that was opened and closed again
everything is as before.
-/

namespace Jasm

open Scope List Option

/-! ## Single scopes -/

namespace Scope

/-- What an attempt to declare a symbol leaves of a scope; `none` is no symbol at all. -/
def attempt (s : Scope Symbol) (x : Option Symbol) : Scope Symbol :=
  (s.declare (x.map Symbol.declaration)).2

/-- The scope behind some attempts. -/
def attempts (s : Scope Symbol) (xs : List (Option Symbol)) : Scope Symbol := xs.foldl attempt s

/-- What an attempt declares, with the slot that is given out for it. -/
def given (s : Scope Symbol) : Option Symbol → List (Symbol × Option Nat)
  | none => []
  | some x =>
    match (s.declare (some x.declaration)).1 with
    | .ok slot => [(x, slot)]
    | .error _ => []

def accepted (s : Scope Symbol) : List (Option Symbol) → List (Symbol × Option Nat)
  | [] => []
  | x :: xs => s.given x ++ (s.attempt x).accepted xs

def entryOf (x : Symbol × Option Nat) : Entry Symbol := ⟨x.1.form, x.1, x.2⟩

/-- A scope holds some symbols with their slots, and nothing else. -/
structure Records (s : Scope Symbol) (xs : List (Symbol × Option Nat)) : Prop where
  tidy : s.Tidy
  entries : s.entries = xs.map fun x => (x.1.name, entryOf x)
  numbered : xs.filterMap Prod.snd = List.range s.slots
  slot : ∀ x ∈ xs, x.2.isSome ↔ x.1.form = .variable
  room : s.slots ≤ maxSlot + 1

variable {s s' : Scope Symbol} {xs : List (Symbol × Option Nat)}

/-- Declaring in place is giving a new scope, where that is possible: no step fails behind the first
write. -/
theorem declare_eq {σ : Type} (s : Scope σ) (d : Option (Declaration σ)) : s.declare d =
    match s.insert d with
    | .ok (slot, s') => (.ok slot, s')
    | .error f => (.error f, s) := by
  cases d with
  | none => rfl
  | some d =>
    unfold declare insert takeSlot
    by_cases known : s.contains d.name
    · simp [known]
    · by_cases form : d.form = .variable
      · by_cases room : s.slots ≤ maxSlot
        · simp [known, form, room, push, Nat.not_lt.mpr room]
        · simp [known, form, room, Nat.not_le.mp room]
      · simp [known, form, push]

theorem attempt_cases (s : Scope Symbol) (x : Option Symbol) :
    (∃ f, s.insert (x.map Symbol.declaration) = .error f ∧ s.attempt x = s ∧ s.given x = []) ∨
    ∃ y slot, x = some y ∧ s.insert (some y.declaration) = .ok (slot, s.attempt x) ∧
      s.given x = [(y, slot)] := by
  cases x with
  | none => exact .inl ⟨.missing, rfl, rfl, rfl⟩
  | some y =>
    simp only [attempt, given, map_some, declare_eq]
    cases h : s.insert (some y.declaration) with
    | error f => exact .inl ⟨f, rfl, rfl, rfl⟩
    | ok result => exact .inr ⟨y, result.1, rfl, h, rfl⟩

namespace Records

theorem empty : Records {} [] := ⟨.empty, rfl, rfl, by simp, Nat.zero_le _⟩

section

variable (h : s.Records xs)
include h

theorem insert {x : Symbol} {slot : Option Nat}
    (inserted : s.insert (some x.declaration) = .ok (slot, s')) :
    s'.Records (xs ++ [(x, slot)]) := by
  obtain ⟨new, hslot, rfl⟩ := insert_eq_ok inserted
  have slots := slots_push hslot
  refine ⟨h.tidy.push new hslot, ?_, ?_, ?_, ?_⟩
  · rw [entries_push h.tidy new, h.entries, map_append]
    rfl
  · rw [slots, filterMap_append, h.numbered, hslot]
    split <;> simp [range_succ]
  · intro y hy
    rcases mem_append.mp hy with hy | hy
    · exact h.slot y hy
    · obtain rfl := mem_singleton.mp hy
      show slot.isSome ↔ x.declaration.form = .variable
      rw [hslot]
      split <;> simp [*]
  · rw [slots]
    split
    · next form =>
        have room : s.slots ≤ maxSlot := by
          by_contra full
          simp [Scope.insert, contains, new, form, full] at inserted
        omega
    · exact h.room

theorem attempt (x : Option Symbol) :
    (s.attempt x).Records (xs ++ s.given x) := by
  rcases attempt_cases s x with ⟨_, -, same, nothing⟩ | ⟨y, slot, -, inserted, one⟩
  · rw [same, nothing, append_nil]
    exact h
  · rw [one]
    exact h.insert inserted

theorem attempts (ys : List (Option Symbol)) :
    (s.attempts ys).Records (xs ++ s.accepted ys) := by
  induction ys generalizing s xs with
  | nil =>
    rw [accepted, append_nil]
    exact h
  | cons y ys ih =>
    rw [accepted, ← append_assoc]
    exact ih (h.attempt y)

theorem names : s.names.reverse = xs.map (·.1.name) := by
  rw [← map_fst_entries h.tidy, h.entries, List.map_map]
  rfl

theorem mem_names {name : String} :
    name ∈ xs.map (·.1.name) ↔ (s.get? name).isSome := by
  rw [← h.names, mem_reverse, h.tidy.known]

theorem get? (name : String) :
    s.get? name = (xs.find? (·.1.name = name)).map entryOf := by
  cases hx : xs.find? (·.1.name = name) with
  | none =>
    rw [find?_eq_none] at hx
    rw [map_none, ← not_isSome_iff_eq_none, ← h.mem_names, List.mem_map]
    rintro ⟨x, mem, same⟩
    exact hx x mem (by simp [same])
  | some x =>
    have same : x.1.name = name := by simpa using find?_some hx
    have mem : (x.1.name, entryOf x) ∈ s.entries := by
      rw [h.entries]
      exact mem_map.mpr ⟨x, mem_of_find?_eq_some hx, rfl⟩
    rw [mem_entries h.tidy] at mem
    rw [← same]
    exact mem

theorem answer (x : Symbol) : (s.declare (some x.declaration)).1 =
    if x.name ∈ xs.map (·.1.name) then .error (.duplicate x.name)
    else if x.form = .variable ∧ s.slots = maxSlot + 1 then
      .error (.tooManyLocals x.name (maxSlot + 1))
    else .ok (if x.form = .variable then some s.slots else none) := by
  have known : s.contains x.declaration.name ↔ x.name ∈ xs.map (·.1.name) := h.mem_names.symm
  have room := h.room
  rw [declare_eq, Scope.insert]
  simp only [known]
  by_cases old : x.name ∈ xs.map (·.1.name)
  · simp only [old, if_true]
    rfl
  · by_cases form : x.form = .variable
    · by_cases full : s.slots ≤ maxSlot
      · simp [old, Symbol.declaration, form, full, Nat.ne_of_lt (Nat.lt_succ_of_le full)]
      · have all : s.slots = maxSlot + 1 := by omega
        simp only [old, Symbol.declaration, form, full, if_false, if_true, true_and]
        rw [if_pos all, all]
    · simp [old, Symbol.declaration, form]

end

end Records

theorem attempts_accepted (s : Scope Symbol) (xs : List (Option Symbol)) :
    s.attempts ((s.accepted xs).map fun x => some x.1) = s.attempts xs := by
  induction xs generalizing s with
  | nil => rfl
  | cons x xs ih =>
    rw [accepted]
    rcases attempt_cases s x with ⟨_, -, same, nothing⟩ | ⟨y, slot, rfl, -, one⟩
    · show _ = (s.attempt x).attempts xs
      rw [nothing, nil_append, same, ih]
    · rw [one]
      exact ih _

/-- Whatever is declared in a scope, in whatever order and whether it succeeds or not: the names of
the scope are those of the attempts that succeeded, in their order and each only once; the variables
among them have the slots `0`, `1`, `2` and so on, all of which fit two bytes, and nothing else has
a slot; a name stands for what was declared under it first. Refused attempts leave no trace. They
are those without a symbol, those with a name that is taken, and those with a variable when there is
no slot left, while anything else can still be declared then. -/
theorem attempts_in_step (xs : List (Option Symbol)) :
    let s := attempts {} xs
    let ok := accepted {} xs
    s.entries = ok.map (fun x => (x.1.name, entryOf x)) ∧
    s.names.reverse = ok.map (·.1.name) ∧ (ok.map (·.1.name)).Nodup ∧ s.size = ok.length ∧
    ok.filterMap Prod.snd = List.range s.slots ∧ (∀ x ∈ ok, ∀ n ∈ x.2, n ≤ 65535) ∧
    (∀ x ∈ ok, x.2.isSome ↔ x.1.form = .variable) ∧
    (∀ name, s.get? name = (ok.find? (·.1.name = name)).map entryOf) ∧
    s = attempts {} (ok.map fun x => some x.1) ∧
    (∀ (x : Option Symbol) f, (s.declare (x.map Symbol.declaration)).1 = .error f →
      (s.declare (x.map Symbol.declaration)).2 = s) ∧
    (s.declare none).1 = .error .missing ∧
    ∀ x : Symbol, (s.declare (some x.declaration)).1 =
      if x.name ∈ ok.map (·.1.name) then .error (.duplicate x.name)
      else if x.form = .variable ∧ s.slots = 65536 then .error (.tooManyLocals x.name 65536)
      else .ok (if x.form = .variable then some s.slots else none) := by
  intro s ok
  have records : s.Records ok := Records.empty.attempts xs
  refine ⟨records.entries, records.names, ?_, ?_, records.numbered, fun x hx n hn => ?_,
    records.slot, records.get?, (attempts_accepted _ xs).symm, fun x f refused => ?_, rfl,
    fun x => ?_⟩
  · rw [← records.names, List.nodup_reverse]
    exact records.tidy.nodup
  · have lengths := congrArg List.length records.names
    simpa [size] using lengths
  · have mem : n ∈ List.range s.slots := by
      rw [← records.numbered]
      exact List.mem_filterMap.mpr ⟨x, hx, hn⟩
    have room := records.room
    have bound : maxSlot = 65535 := rfl
    have below := List.mem_range.mp mem
    omega
  · rw [declare_eq] at refused ⊢
    cases inserted : s.insert (x.map Symbol.declaration) with
    | error f => rfl
    | ok result => simp [inserted] at refused
  · exact records.answer x

end Scope

/-! ## Nested scopes -/

namespace Stack

/-- What can be done to the open scopes. -/
inductive Op where
  | enter
  | leave
  | insert (x : Option Symbol)

/-- What an operation leaves of the open scopes, whether it fails or not. -/
def act (st : Stack Symbol) : Op → Stack Symbol
  | .enter => st.enter
  | .leave => st.close.2
  | .insert x => (st.declare (x.map Symbol.declaration)).2

/-- The attempts that were made in each open scope, in the scopes inside the outermost one from the
inside out. -/
structure Notes where
  inner : List (List (Option Symbol)) := []
  global : List (Option Symbol) := []

/-- The notes behind an operation. -/
def Notes.act (n : Notes) : Op → Notes
  | .enter => { n with inner := [] :: n.inner }
  | .leave => { n with inner := n.inner.tail }
  | .insert x =>
    match n.inner with
    | [] => { n with global := n.global ++ [x] }
    | note :: rest => { n with inner := (note ++ [x]) :: rest }

/-- The innermost scope that declares a name: how many scopes are around it, and what it declares
with what slot. -/
def declaredIn (global : List (Option Symbol)) (name : String) :
    List (List (Option Symbol)) → Option (Nat × Symbol × Option Nat)
  | [] => ((accepted {} global).find? (·.1.name = name)).map (0, ·)
  | note :: rest =>
    match (accepted {} note).find? (·.1.name = name) with
    | some x => some (rest.length + 1, x)
    | none => declaredIn global name rest

/-- What a name means behind some operations. -/
def declared (ops : List Op) (name : String) : Option (Nat × Symbol × Option Nat) :=
  let n : Notes := ops.foldl Notes.act {}
  declaredIn n.global name n.inner

/-- The open scopes that notes are about. -/
def Notes.stack (n : Notes) : Stack Symbol :=
  ⟨n.inner.map (attempts {}), attempts {} n.global⟩

variable {st : Stack Symbol}

/-- Closing in place is giving the scopes that are left, where that is possible. -/
theorem close_eq (st : Stack Symbol) : st.close =
    match st.leave with
    | .ok st' => (.ok (), st')
    | .error f => (.error f, st) := by
  unfold close leave depth
  cases st.inner <;> simp

theorem act_insert (st : Stack Symbol) (x : Option Symbol) :
    st.act (.insert x) = st.setTop (st.top.attempt x) := rfl

theorem act_stack (n : Notes) (op : Op) : n.stack.act op = (n.act op).stack := by
  obtain ⟨inner, global⟩ := n
  cases op with
  | enter => rfl
  | leave => cases inner <;> rfl
  | insert x =>
    rw [act_insert]
    cases inner <;> simp [Notes.stack, Notes.act, setTop, top, attempts]

theorem run_stack (ops : List Op) (n : Notes) :
    ops.foldl act n.stack = (ops.foldl Notes.act n).stack := by
  induction ops generalizing n with
  | nil => rfl
  | cons op ops ih => rw [foldl_cons, act_stack, ih, foldl_cons]

/-- A name is found as the operations so far have declared it. -/
theorem find?_run (ops : List Op) (name : String) : (ops.foldl act {}).find? name =
    (declared ops name).map fun x => (x.1, entryOf x.2) := by
  have got (note : List (Option Symbol)) := (Scope.Records.empty.attempts note).get? name
  simp only [nil_append] at got
  have start : ({} : Stack Symbol) = ({} : Notes).stack := rfl
  rw [start, run_stack, declared]
  generalize ops.foldl Notes.act {} = n
  obtain ⟨inner, global⟩ := n
  show findIn (attempts {} global) name (inner.map (attempts {})) =
    (declaredIn global name inner).map _
  induction inner with
  | nil =>
    rw [map_nil, findIn, got, declaredIn]
    cases (accepted {} global).find? (·.1.name = name) <;> rfl
  | cons note rest ih =>
    rw [map_cons, findIn, got, declaredIn]
    cases (accepted {} note).find? (·.1.name = name) with
    | some x => simp
    | none => exact ih

theorem slot_of_declared {ops : List Op} {name : String} {depth : Nat} {x : Symbol}
    {slot : Option Nat} (h : declared ops name = some (depth, x, slot)) :
    slot.isSome ↔ x.form = .variable := by
  have given (note : List (Option Symbol)) (found : (accepted {} note).find?
      (·.1.name = name) = some (x, slot)) : slot.isSome ↔ x.form = .variable :=
    (Scope.Records.empty.attempts note).slot _ (mem_of_find?_eq_some found)
  unfold declared at h
  generalize ops.foldl Notes.act {} = n at h
  obtain ⟨inner, global⟩ := n
  induction inner with
  | nil =>
    obtain ⟨y, found, eq⟩ := map_eq_some_iff.mp h
    cases eq
    exact given global found
  | cons note rest ih =>
    simp only [declaredIn] at h
    split at h
    · next found =>
        cases h
        exact given note found
    · exact ih h

theorem close_eq_error : st.close.1 = .error .underflow ↔ st.depth = 1 := by
  rw [close_eq, leave, depth]
  cases st.inner <;> simp

theorem around_of_run (st outer : Stack Symbol) (front : List (Scope Symbol)) (ops : List Op)
    (global : st.global = outer.global) (inner : st.inner = front ++ outer.inner)
    (above : ∀ p, p <+: ops → outer.depth < (p.foldl act st).depth) :
    ∃ front', (ops.foldl act st).inner = front' ++ outer.inner ∧
      (ops.foldl act st).global = outer.global := by
  induction ops generalizing st front with
  | nil => exact ⟨front, inner, global⟩
  | cons op ops ih =>
    have here := above [] nil_prefix
    have inside : front ≠ [] := by
      rintro rfl
      simp [depth, inner] at here
    obtain ⟨s, front, rfl⟩ := exists_cons_of_ne_nil inside
    have above' (p : List Op) (hp : p <+: ops) := above (op :: p) (cons_prefix_cons.mpr ⟨rfl, hp⟩)
    cases op with
    | enter => exact ih st.enter ({} :: s :: front) global (by simp [enter, inner]) above'
    | leave =>
      have left : st.act .leave = { st with inner := front ++ outer.inner } := by
        simp [act, close_eq, leave, inner]
      rw [foldl_cons, left]
      simp only [foldl_cons, left] at above'
      exact ih _ front global rfl above'
    | insert x =>
      have declared : st.act (.insert x) =
          { st with inner := st.top.attempt x :: (front ++ outer.inner) } := by
        rw [act_insert]
        simp [setTop, inner]
      rw [foldl_cons, declared]
      simp only [foldl_cons, declared] at above'
      exact ih _ (st.top.attempt x :: front) global rfl above'

theorem restored (st : Stack Symbol) (ops : List Op)
    (above : ∀ p, p <+: ops → st.depth < (p.foldl act st.enter).depth)
    (back : (ops.foldl act st.enter).depth = st.depth + 1) :
    (.enter :: (ops ++ [.leave])).foldl act st = st := by
  obtain ⟨front, inner, global⟩ := around_of_run st.enter st [{}] ops rfl rfl above
  have one : front.length = 1 := by
    simp only [depth, inner, length_append] at back
    omega
  obtain ⟨s, rfl⟩ := length_eq_one_iff.mp one
  rw [foldl_cons, foldl_append]
  show (ops.foldl act st.enter).act .leave = st
  simp only [act, close_eq, leave, inner, singleton_append, global]

/-- Whatever is done to the open scopes: if no open scope declares a name, all queries about it
fail. Otherwise they agree on the innermost scope that declares it and on what it declares there. A
variable of the outermost scope is global and any other variable has the slot that it was given when
it was declared; nothing else has a location. The last scope cannot be closed. Behind a scope that
was opened and closed again everything is as it was. -/
theorem queries_are_lexical (ops : List Op) :
    let st : Stack Symbol := ops.foldl act {}
    (∀ name, declared ops name = none →
      st.lookup name = .error (.undeclared name) ∧ st.slotOf name = .error (.undeclared name) ∧
      st.resolve name = .error (.undeclared name) ∧ st.scopeOf name = .error (.undeclared name)) ∧
    (∀ name depth x slot, declared ops name = some (depth, x, slot) →
      st.lookup name = .ok x ∧ st.scopeOf name = .ok depth ∧
      (x.form = .variable → ∃ (n : Nat) (l : Location), slot = some n ∧
        l = (if depth = 0 then .global else .frame n) ∧
        st.slotOf name = .ok l ∧ st.resolve name = .ok (x, l)) ∧
      (x.form ≠ .variable → st.slotOf name = .error (.notAddressable name x.form) ∧
        st.resolve name = .ok (x, .nowhere))) ∧
    (st.close.1 = .error .underflow ↔ st.depth = 1) ∧ (st.depth = 1 → st.act .leave = st) ∧
    ∀ more : List Op, (∀ p, p <+: more → st.depth < (p.foldl act st.enter).depth) →
      (more.foldl act st.enter).depth = st.depth + 1 →
      (.enter :: (more ++ [.leave])).foldl act st = st := by
  intro st
  have found := find?_run ops
  refine ⟨fun name undeclared => ?_, fun name depth x slot declared => ?_, close_eq_error,
    fun last => ?_, restored st⟩
  · have find : st.find name = .error (.undeclared name) := by
      rw [find, found, undeclared]
      rfl
    simp only [lookup, slotOf, resolve, scopeOf, find]
    exact ⟨rfl, rfl, rfl, rfl⟩
  · have find : st.find name = .ok (depth, ⟨x.form, x, slot⟩) := by
      rw [find, found, declared]
      rfl
    have slot := slot_of_declared declared
    simp only [lookup, slotOf, resolve, scopeOf, find]
    refine ⟨rfl, rfl, fun form => ?_, fun form => ?_⟩
    · obtain ⟨n, rfl⟩ := Option.isSome_iff_exists.mp (slot.mpr form)
      refine ⟨n, _, rfl, rfl, ?_, ?_⟩
      · simp [Bind.bind, Except.bind, form, locationOf, pure, Except.pure]
      · simp [Bind.bind, Except.bind, form, locationOf, pure, Except.pure]
    · refine ⟨?_, ?_⟩
      · simp [Bind.bind, Except.bind, form, throw, throwThe, MonadExceptOf.throw]
      · simp [Bind.bind, Except.bind, form, locationOf, pure, Except.pure]
  · show st.close.2 = st
    rw [close, if_pos (Nat.le_of_eq last)]

end Stack

end Jasm

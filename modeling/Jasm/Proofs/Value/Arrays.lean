import Jasm.Symbol

/-!
# Arrays over a run of calls

An array is written in place, element by element or as a whole. A call is accepted if what it brings
has the kind of the array and a place in it. Any other call is refused, and what it leaves behind is
the array as it was.
-/

namespace Jasm.ArrayVar

open List Option Array

/-- A call that writes to an array. -/
inductive Call where
  | set (i : Int) (v : Value)
  | assign (values : List Value)

namespace Call

/-- A call that suits arrays of a kind and a length. -/
def Suits (kind : Kind) (length : Int) : Call → Prop
  | .set i v => (0 ≤ i ∧ i < length) ∧ v.kind = kind
  | .assign values => values.length = length ∧ ∀ v ∈ values, v.kind = kind

instance (kind : Kind) (length : Int) : DecidablePred (Suits kind length)
  | .set _ _ => inferInstanceAs (Decidable (_ ∧ _))
  | .assign _ => inferInstanceAs (Decidable (_ ∧ _))

/-- What a call stores at an index. -/
def stored? (i : Int) : Call → Option Value
  | .set j v => if j = i then some v else none
  | .assign values => values[i.toNat]?

/-- What is stored last at an index by the calls that suit an array. -/
def lastStored? (kind : Kind) (length : Int) (calls : List Call) (i : Int) : Option Value :=
  (calls.filter (·.Suits kind length)).reverse.findSome? (·.stored? i)

/-- The elements behind a call that is accepted. -/
def write (elems : Array Value) : Call → Array Value
  | .set i v => elems.setIfInBounds i.toNat v
  | .assign values => values.toArray

end Call

def apply (a : ArrayVar) : Call → Except Symbol.Fault Unit × ArrayVar
  | .set i v => a.setAt i v
  | .assign values => a.assign values

/-- The array that a call leaves behind, refused or not. -/
def behind (a : ArrayVar) (c : Call) : ArrayVar := (a.apply c).2

/-- An array of a kind and a length. -/
structure Shaped (kind : Kind) (length : Int) (a : ArrayVar) : Prop where
  kind : a.kind = kind
  length : a.length = length
  elems : ∀ v ∈ a.elems, v.kind = a.kind

variable {name : String} {kind : Kind} {length : Int} {a : ArrayVar} {c : Call}
  {i : Int} {v : Value}

theorem eq_of_new (made : new name kind length = .ok a) :
    0 < length ∧ a = ⟨name, kind, Array.replicate length.toNat (.uninit kind)⟩ := by
  unfold new at made
  split at made
  · cases made
  · next positive =>
      split at made
      · cases made
        exact ⟨Int.not_le.mp positive, rfl⟩
      · cases made

theorem firstMismatch_isOk (values : List Value) (i : Nat) :
    (a.firstMismatch i values).isOk ↔ ∀ v ∈ values, v.kind = a.kind := by
  induction values generalizing i with
  | nil => exact iff_of_true rfl (forall_mem_nil _)
  | cons v rest ih =>
    rw [firstMismatch, forall_mem_cons]
    split
    · next same => rw [ih, and_iff_right same]
    · next other => exact iff_of_false Bool.false_ne_true fun h => other h.1

theorem getElem?_of_get (got : a.get i = .ok v) : a.elems[i.toNat]? = some v := by
  unfold get at got
  split at got
  · split at got
    · next found => rw [found, Except.ok.inj got]
    · cases got
  · cases got

/-- Writing an element in place is giving a new array, where that is possible. -/
theorem setAt_eq (a : ArrayVar) (i : Int) (v : Value) : a.setAt i v =
    match a.set i v with
    | .ok b => (.ok (), b)
    | .error f => (.error f, a) := by
  unfold setAt set
  cases got : a.get i with
  | error f => rfl
  | ok old =>
    simp only [bind, Except.bind]
    by_cases same : old.kind = v.kind
    · rw [Value.put, Value.assign, if_pos same, if_pos same]
      rfl
    · have kept : a.elems.setIfInBounds i.toNat old = a.elems := by
        refine Array.ext_getElem? fun j => ?_
        have found := getElem?_of_get got
        have inside := (Array.getElem?_eq_some_iff.mp found).1
        rw [getElem?_setIfInBounds]
        split
        · next e => rw [← e, found]
        · rfl
      rw [Value.put, Value.assign, if_neg same, if_neg same]
      dsimp only
      rw [kept]
      rfl

namespace Shaped

theorem of_new (made : new name kind length = .ok a) : Shaped kind length a := by
  obtain ⟨positive, rfl⟩ := eq_of_new made
  refine ⟨rfl, ?_, fun v mem => ?_⟩
  · rw [ArrayVar.length, size_replicate, Int.toNat_of_nonneg (Int.le_of_lt positive)]
  · rw [(mem_replicate.mp mem).2]
    rfl

variable (h : Shaped kind length a)
include h

theorem get_of_inside (inside : 0 ≤ i ∧ i < length) :
    ∃ v, a.elems[i.toNat]? = some v ∧ v.kind = a.kind ∧ a.get i = .ok v := by
  have lt : i.toNat < a.elems.size := by
    have : (a.elems.size : Int) = length := h.length
    omega
  have found := Array.getElem?_eq_getElem lt
  refine ⟨_, found, h.elems _ (getElem_mem lt), ?_⟩
  rw [get, if_pos inside.1, found]

theorem get_of_outside (outside : ¬(0 ≤ i ∧ i < length)) :
    a.get i = .error (.index a.name i a.length) := by
  have : (a.elems.size : Int) = length := h.length
  unfold get
  split
  · rw [Array.getElem?_eq_none (by omega)]
  · rfl

theorem apply_of_suits (suits : c.Suits kind length) :
    a.apply c = (.ok (), { a with elems := c.write a.elems }) := by
  cases c with
  | set j v =>
    obtain ⟨old, -, same, got⟩ := h.get_of_inside suits.1
    have kinds : old.kind = v.kind := by rw [same, h.kind, suits.2]
    simp [apply, setAt_eq, set, got, Value.assign, kinds, Call.write, bind, Except.bind]
  | assign values =>
    have fits : values.length = a.length := Int.natCast_inj.mp (suits.1.trans h.length.symm)
    have passes := (a.firstMismatch_isOk values 0).mpr (by rw [h.kind]; exact suits.2)
    cases found : a.firstMismatch 0 values <;>
      simp_all [apply, assign, Call.write, Except.isOk, Except.toBool]

theorem apply_of_not_suits (not : ¬ c.Suits kind length) : ∃ f, a.apply c = (.error f, a) := by
  cases c with
  | set j v =>
    by_cases inside : 0 ≤ j ∧ j < length
    · obtain ⟨old, -, same, got⟩ := h.get_of_inside inside
      have kinds : ¬ old.kind = v.kind := fun e => not ⟨inside, by rw [← e, same, h.kind]⟩
      exact ⟨_, by simp [apply, setAt_eq, set, got, Value.assign, kinds, bind, Except.bind]; rfl⟩
    · exact ⟨_, by simp [apply, setAt_eq, set, h.get_of_outside inside, bind, Except.bind]; rfl⟩
  | assign values =>
    by_cases fits : values.length = a.length
    · have refused : ¬ (a.firstMismatch 0 values).isOk := by
        rw [a.firstMismatch_isOk, h.kind]
        exact fun all => not ⟨by rw [fits, h.length], all⟩
      cases found : a.firstMismatch 0 values with
      | error f => exact ⟨f, by simp [apply, assign, fits, found]⟩
      | ok u => exact absurd (by rw [found]; rfl) refused
    · exact ⟨_, by simp [apply, assign, fits]; rfl⟩

theorem write (suits : c.Suits kind length) :
    Shaped kind length { a with elems := c.write a.elems } ∧
    ∀ i, 0 ≤ i ∧ i < length →
      (c.write a.elems)[i.toNat]? = (c.stored? i).or a.elems[i.toNat]? := by
  have size : (a.elems.size : Int) = length := h.length
  cases c with
  | set j v =>
    refine ⟨⟨h.kind, ?_, fun w mem => ?_⟩, fun i inside => ?_⟩
    · rw [← h.length, ArrayVar.length, Call.write, size_setIfInBounds, ArrayVar.length]
    · rcases mem_or_eq_of_mem_setIfInBounds mem with mem | rfl
      · exact h.elems w mem
      · exact suits.2.trans h.kind.symm
    · rw [Call.write, getElem?_setIfInBounds, Call.stored?]
      by_cases e : j = i
      · rw [if_pos (by rw [e]), if_pos (by omega), if_pos e, some_or]
      · rw [if_neg (by have := suits.1; omega), if_neg e, none_or]
  | assign values =>
    obtain ⟨fits, same⟩ := suits
    refine ⟨⟨h.kind, fits, fun v mem => ?_⟩, fun i inside => ?_⟩
    · exact (same v (List.mem_toArray.mp mem)).trans h.kind.symm
    · rw [Call.write, getElem?_toArray, Call.stored?, List.getElem?_eq_getElem (by omega),
        some_or]

theorem foldl {calls : List Call} : Shaped kind length (calls.foldl behind a) ∧
    ∀ i, 0 ≤ i ∧ i < length → (calls.foldl behind a).elems[i.toNat]? =
      (Call.lastStored? kind length calls i).or a.elems[i.toNat]? := by
  induction calls generalizing a with
  | nil => exact ⟨h, fun _ _ => rfl⟩
  | cons c rest ih =>
    rw [foldl_cons, behind]
    by_cases suits : c.Suits kind length
    · rw [h.apply_of_suits suits]
      obtain ⟨shaped, kept⟩ := h.write suits
      obtain ⟨last, stored⟩ := ih shaped
      refine ⟨last, fun i inside => (stored i inside).trans ?_⟩
      rw [kept i inside, ← Option.or_assoc]
      simp [Call.lastStored?, suits]
    · obtain ⟨f, refused⟩ := h.apply_of_not_suits suits
      rw [refused]
      simpa [Call.lastStored?, suits] using ih h

end Shaped

/-- After any calls an array has its length and its kind, and so have its elements. An element is
what was stored there last, or nothing. The calls that are refused are those that do not suit the
array, and they leave it as it was. -/
theorem calls_keep_shape (made : new name kind length = .ok a) (calls : List Call) :
    let b := calls.foldl behind a
    (b.length = length ∧ b.kind = kind ∧ ∀ v ∈ b.elems, v.kind = kind) ∧
    (∀ i, b.get i = if 0 ≤ i ∧ i < length
      then .ok ((Call.lastStored? kind length calls i).getD (.uninit kind))
      else .error (.index b.name i b.length)) ∧
    ∀ c : Call, ((b.apply c).1.isOk ↔ c.Suits kind length) ∧
      (¬ c.Suits kind length → b.behind c = b) := by
  intro b
  obtain ⟨shaped, stored⟩ := (Shaped.of_new made).foldl
  refine ⟨⟨shaped.length, shaped.kind, fun v mem => (shaped.elems v mem).trans shaped.kind⟩,
    fun i => ?_, fun c => ?_⟩
  · split
    · next inside =>
        obtain ⟨v, found, -, got⟩ := shaped.get_of_inside inside
        obtain ⟨-, rfl⟩ := eq_of_new made
        rw [stored i inside, Array.getElem?_replicate, if_pos (by omega), Option.or_some] at found
        rw [got, Option.some.inj found]
    · next outside => exact shaped.get_of_outside outside
  · by_cases suits : c.Suits kind length
    · rw [shaped.apply_of_suits suits]
      exact ⟨iff_of_true rfl suits, fun not => absurd suits not⟩
    · obtain ⟨f, refused⟩ := shaped.apply_of_not_suits suits
      rw [behind, refused]
      exact ⟨iff_of_false Bool.false_ne_true suits, fun _ => rfl⟩

/-- The second call brings a value of another kind, and the third one is out of range. -/
theorem calls_keep_shape_pair :
    ∃ a, new "xs" .integer 2 = .ok a ∧
      ([Call.set 1 (.int 9), .assign [.int 1, .bool true], .set 2 (.int 3)].foldl behind a).get 1 =
        .ok (.int 9) :=
  ⟨_, rfl, ((@calls_keep_shape "xs" .integer 2 _ rfl
    [.set 1 (.int 9), .assign [.int 1, .bool true], .set 2 (.int 3)]).2.1 1).trans rfl⟩

end Jasm.ArrayVar

import Jasm.Proofs.Compile.Abstraction
import Jasm.Proofs.Compile.Scoping

/-!
# Variables that count as assigned

Statements are looked at in the order in which they are written down, whether they are run or not.
Marks tell for the names of each open block whether they count as assigned, and `track` refuses to
read one that does not. What it does to the marks of the blocks around a body is told by the
variables that the body assigns to.
-/

namespace Jasm

open List Option

namespace Source

open Program (Expr Stmt)

/-- For the open blocks, innermost first, the declared names and whether they count as assigned. -/
abbrev Marks := List (String → Option Bool)

namespace Marks

/-- Reading a name is not warned of. Names that are declared in no block are global. -/
def readable (name : String) : Marks → Bool
  | [] => true
  | l :: rest =>
    match l name with
    | some b => b
    | none => readable name rest

/-- The innermost variable of a name counts as assigned from now on. -/
def assign (name : String) : Marks → Marks
  | [] => []
  | l :: rest =>
    if (l name).isSome then Function.update l name (some true) :: rest else l :: assign name rest

/-- A name is declared in the innermost block. -/
def declare (name : String) (assigned : Bool) : Marks → Marks
  | [] => []
  | l :: rest => Function.update l name (some assigned) :: rest

def enter (M : Marks) : Marks := (fun _ => none) :: M

/-- The parameters of a function are declared. They count as assigned. -/
def parameters (params : List (String × Kind)) (M : Marks) : Marks :=
  params.foldl (fun M param => M.declare param.1 true) M

/-- The innermost variables of some names count as assigned from now on. -/
def assignAll (names : List String) (M : Marks) : Marks :=
  names.foldl (fun M name => M.assign name) M

/-- What `M'` is, if all names may be read. -/
def reading (names : List String) (M M' : Marks) : Option Marks :=
  if names.all (readable · M) then some M' else none

end Marks

mutual

/-- The marks behind a statement, unless a name is read that does not count as assigned, or there is
no storage for a variable. -/
def track : Stmt → Marks → Option Marks
  | .declare _ (.variable name kind none), M =>
    if Assembly.isStorable kind then some (M.declare name false) else none
  | .declare _ (.variable name _ (some e)), M => M.reading e.names (M.declare name true)
  | .declare _ (.constant name _ e), M => M.reading e.names (M.declare name true)
  | .declare _ (.array name ..), M => some (M.declare name true)
  | .assign _ name e, M => M.reading e.names (M.assign name)
  | .print _ _ e, M => M.reading e.names M
  | .branch _ cond thenBody elseBody, M => do
    let M₁ ← trackAll thenBody (← M.reading cond.names M.enter)
    let M₂ ← trackAll elseBody (Marks.enter M₁.tail)
    return M₂.tail
  | .loop _ cond body, M => do
    let M₁ ← trackAll body (← M.reading cond.names M.enter)
    return M₁.tail
  | .ret _ none, M => some M
  | .ret _ (some e), M => M.reading e.names M
  | .call _ _ args, M => M.reading (Program.namesOfAll args) M
  | .block _ body, M => do
    let M₁ ← trackAll body M.enter
    return M₁.tail

def trackAll : List Stmt → Marks → Option Marks
  | [], M => some M
  | s :: rest, M => do
    let M ← track s M
    trackAll rest M

end

/-- A program that is compiled with nothing found. -/
structure Tracked (p : Program) : Prop where
  globals : ∀ g ∈ p.globals, track (.declare g.1 g.2) [] = some []
  functions : ∀ f ∈ p.functions, ∃ M, trackAll f.body (.parameters f.params (.enter [])) = some M
  main : ∃ M, trackAll p.main (.enter []) = some M

/-! ## What is assigned to -/

mutual

/-- The variables from outside that a statement assigns to. -/
def targets : Stmt → List String
  | .assign _ name _ => [name]
  | .branch _ _ thenBody elseBody => targetsOf thenBody ++ targetsOf elseBody
  | .loop _ _ body => targetsOf body
  | .block _ body => targetsOf body
  | .declare .. | .print .. | .ret .. | .call .. => []

/-- Those of the statements of a block, which do not see them behind a declaration of the same
name. -/
def targetsOf : List Stmt → List String
  | [] => []
  | s :: rest =>
    targets s ++ (targetsOf rest).filter fun name =>
      s.declaration?.map Program.Declaration.name ≠ some name

end

variable {M M' : Marks} {names : List String} {l : String → Option Bool} {name : String}
  {pos : Position}

theorem Marks.of_reading {M'' : Marks} (h : M.reading names M' = some M'') :
    (∀ name ∈ names, M.readable name = true) ∧ M'' = M' := by
  unfold reading at h
  split at h
  · next all => exact ⟨all_eq_true.mp all, (Option.some.inj h).symm⟩
  · cases h

theorem Marks.assign_of_some {b : Bool} (h : l name = some b) :
    assign name (l :: M) = Function.update l name (some true) :: M := by
  rw [assign, h]
  rfl

theorem Marks.assign_of_none (h : l name = none) :
    assign name (l :: M) = l :: assign name M := by
  rw [assign, h]
  rfl

theorem Marks.assignAll_append (names' : List String) :
    M.assignAll (names ++ names') = (M.assignAll names).assignAll names' :=
  foldl_append

theorem Marks.assignAll_nil (names : List String) : assignAll names [] = [] := by
  induction names with
  | nil => rfl
  | cons name rest ih => exact ih

theorem exists_parameters {params : List (String × Kind)} :
    ∃ l, Marks.parameters params (.enter []) = [l] := by
  have general (l : String → Option Bool) : ∃ l', Marks.parameters params [l] = [l'] := by
    induction params generalizing l with
    | nil => exact ⟨l, rfl⟩
    | cons param rest ih => exact ih _
  exact general _

theorem Marks.assignAll_cons {names : List String} (l : String → Option Bool) (M : Marks) : ∃ l',
    (∀ name, (l' name).isSome = (l name).isSome) ∧
      assignAll names (l :: M) = l' :: assignAll (names.filter fun name => (l name).isNone) M := by
  induction names generalizing l M with
  | nil => exact ⟨l, fun _ => rfl, rfl⟩
  | cons name rest ih =>
    show ∃ l', _ ∧ assignAll rest (assign name (l :: M)) = _
    cases here : l name with
    | some b =>
      have same (x : String) : (Function.update l name (some true) x).isSome = (l x).isSome := by
        by_cases h : x = name
        · subst h
          simp [here]
        · simp [h]
      rw [assign_of_some here]
      obtain ⟨l', declared, eq⟩ := ih (Function.update l name (some true)) M
      refine ⟨l', fun x => (declared x).trans (same x), ?_⟩
      rw [eq, filter_cons_of_neg (by simp [here])]
      simp only [← not_isSome, same]
    | none =>
      rw [assign_of_none here]
      obtain ⟨l', declared, eq⟩ := ih l (assign name M)
      refine ⟨l', declared, ?_⟩
      rw [eq, filter_cons_of_pos (by simp [here])]
      rfl

theorem Marks.tail_eq
    (h : ∃ l', M' = l' :: M.assignAll (names.filter fun _ => (none : Option Bool).isNone)) :
    M'.tail = M.assignAll names := by
  obtain ⟨l', rfl⟩ := h
  simp

theorem track_variable {kind : Kind} (storable : Assembly.isStorable kind) {init : Option Expr} :
    track (.declare pos (.variable name kind init)) M =
      M.reading ((init.map Expr.names).getD []) (M.declare name init.isSome) := by
  cases init with
  | none =>
    rw [track, if_pos storable]
    rfl
  | some e =>
    rw [track]
    rfl

theorem track_declare {d : Program.Declaration} (h : track (.declare pos d) M = some M') :
    ∃ b, M' = M.declare d.name b := by
  cases d with
  | «variable» name kind init =>
    cases init with
    | none =>
      rw [track] at h
      split at h
      · exact ⟨false, (Option.some.inj h).symm⟩
      · cases h
    | some e =>
      rw [track] at h
      exact ⟨true, (Marks.of_reading h).2⟩
  | constant name kind init =>
    rw [track] at h
    exact ⟨true, (Marks.of_reading h).2⟩
  | array name kind length values =>
    rw [track] at h
    exact ⟨true, (Option.some.inj h).symm⟩

mutual

theorem track_eq : (s : Stmt) → s.declaration? = none → {M M' : Marks} → track s M = some M' →
    M' = M.assignAll (targets s)
  | .declare _ d, other, _, _, _ => by cases other
  | .ret _ none, _, _, _, h => by
    rw [track] at h
    rw [targets]
    exact (Option.some.inj h).symm
  | .assign _ _ _, _, _, _, h | .print _ _ _, _, _, _, h | .ret _ (some _), _, _, _, h
  | .call _ _ _, _, _, _, h => by
    rw [track] at h
    rw [targets]
    exact (Marks.of_reading h).2
  | .branch _ cond thenBody elseBody, _, M, _, h => by
    rw [track] at h
    obtain ⟨M₀, read, h⟩ := bind_eq_some_iff.mp h
    obtain ⟨-, rfl⟩ := Marks.of_reading read
    obtain ⟨M₁, first, h⟩ := bind_eq_some_iff.mp h
    obtain ⟨M₂, second, h⟩ := bind_eq_some_iff.mp h
    rw [targets, Marks.assignAll_append, ← Marks.tail_eq (trackAll_eq thenBody first),
      ← Marks.tail_eq (trackAll_eq elseBody second)]
    exact (Option.some.inj h).symm
  | .loop _ cond body, _, M, _, h => by
    rw [track] at h
    obtain ⟨M₀, read, h⟩ := bind_eq_some_iff.mp h
    obtain ⟨-, rfl⟩ := Marks.of_reading read
    obtain ⟨M₁, walked, h⟩ := bind_eq_some_iff.mp h
    rw [targets, ← Marks.tail_eq (trackAll_eq body walked)]
    exact (Option.some.inj h).symm
  | .block _ body, _, M, _, h => by
    rw [track] at h
    obtain ⟨M₁, walked, h⟩ := bind_eq_some_iff.mp h
    rw [targets, ← Marks.tail_eq (trackAll_eq body walked)]
    exact (Option.some.inj h).symm

theorem trackAll_eq : (ss : List Stmt) → {l : String → Option Bool} → {M M' : Marks} →
    trackAll ss (l :: M) = some M' → ∃ l',
      M' = l' :: M.assignAll ((targetsOf ss).filter fun name => (l name).isNone)
  | [], l, M, M', h => by
    rw [trackAll] at h
    rw [targetsOf]
    exact ⟨l, (Option.some.inj h).symm⟩
  | s :: rest, l, M, M', h => by
    rw [trackAll] at h
    obtain ⟨M₁, first, others⟩ := bind_eq_some_iff.mp h
    rw [targetsOf, filter_append, Marks.assignAll_append]
    cases hs : s.declaration? with
    | none =>
      obtain ⟨l₁, declared, eq⟩ := Marks.assignAll_cons l M
      rw [track_eq s hs first, eq] at others
      obtain ⟨l', rfl⟩ := trackAll_eq rest others
      simp only [← not_isSome, declared]
      simp
    | some d =>
      obtain ⟨pos, rfl⟩ : ∃ pos, s = .declare pos d := by
        cases s <;> simp_all [Stmt.declaration?]
      obtain ⟨b, rfl⟩ := track_declare first
      obtain ⟨l', rfl⟩ := trackAll_eq rest others
      rw [targets, filter_nil, List.filter_filter]
      refine ⟨l', ?_⟩
      congr 3
      funext name
      by_cases same : name = d.name
      · subst same
        simp
      · simp [same, Ne.symm same]

end

theorem trackAll_tail {ss : List Stmt} (h : trackAll ss M.enter = some M') :
    M'.tail = M.assignAll (targetsOf ss) :=
  Marks.tail_eq (trackAll_eq ss h)

end Source

end Jasm

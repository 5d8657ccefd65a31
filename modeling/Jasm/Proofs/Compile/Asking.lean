import Jasm.Proofs.Compile.Findings
import Jasm.Proofs.Compile.Resolution

/-!
# Questions to the scopes

Finding a name and typing an expression are questions to the scopes. They report what is wrong and
change nothing else, and an answer is what the scopes say. There is an answer unless an error is
found. If there is one and no read of a variable that nothing was assigned to, then all variables
that were asked for have been assigned to. `Asks` keeps this together; what a walk that ends well
can rely on, and what no walk reports, follows from it.
-/

namespace Jasm

open List Option
open Program (Expr)

/-- A finding of this code would mean that parts of the compiler disagree. -/
def Code.isInternal (c : Code) : Bool :=
  [genLabelProtocol, genSequence, genArity, semaScopeUnderflow, semaIndexOutOfRange, unitMalformed,
    unitBadLiteral].contains c

namespace Program

mutual

/-- The names that stand for values in the expression. -/
def Expr.names : Expr → List String
  | .literal _ => []
  | .ref name => [name]
  | .unary _ e => e.names
  | .binary _ l r => l.names ++ r.names
  | .call _ args => namesOfAll args

def namesOfAll : List Expr → List String
  | [] => []
  | e :: rest => e.names ++ namesOfAll rest

end

end Program

namespace Compile

open Scopes

variable {α β : Type} {f : Signature} {kinds : List Kind}

/-- Two states that differ at most in what was found. -/
structure State.Same (c c' : State) : Prop where
  stack : c'.stack = c.stack
  bases : c'.bases = c.bases
  assigned : c'.assigned = c.assigned
  function : c'.function = c.function
  generator : c'.generator = c.generator
  polls : c'.polls = c.polls
  failed : c'.failed = false → c.failed = false

/-- A name does not stand for a variable, or something was assigned to it. -/
def State.Ready (c : State) (name : String) : Prop :=
  ∀ depth e id v, c.stack.find? name = some (depth, e) → e.item = .variable id v →
    c.assigned.contains (depth, name) = true

namespace State.Same

variable {c c₁ c₂ : State}

theorem refl {c : State} : Same c c := ⟨rfl, rfl, rfl, rfl, rfl, rfl, id⟩

theorem trans (first : Same c c₁) (second : Same c₁ c₂) : Same c c₂ :=
  ⟨second.stack.trans first.stack, second.bases.trans first.bases,
    second.assigned.trans first.assigned, second.function.trans first.function,
    second.generator.trans first.generator, second.polls.trans first.polls,
    fun h => first.failed (second.failed h)⟩

theorem error (c : State) : Same c { c with failed := true } :=
  ⟨rfl, rfl, rfl, rfl, rfl, rfl, fun h => by cases h⟩

theorem scopes (h : Same c c₁) : c₁.scopes = c.scopes := by
  rw [State.scopes, State.scopes, h.stack, h.bases]

theorem ready (h : Same c c₁) {name : String} : c₁.Ready name ↔ c.Ready name := by
  rw [State.Ready, State.Ready, h.stack, h.assigned]

end State.Same

/-- What is found on the way to an answer that the scopes give as `f` tells, where `names` are asked
for. -/
structure Answered (c : State) (f : Scopes → Option α) (names : List String) (ds : List Diagnostic)
    (r : Option α) : Prop where
  codes : ∀ d ∈ ds, d.code.isInternal = false
  answer : ∀ a ∈ r, f c.scopes = some a
  refused : r = none → ds.any (·.severity.isError)
  ready : r ≠ none → (∀ d ∈ ds, d.code ≠ .semaUninitRead) → ∀ name ∈ names, c.Ready name

/-- From `c` the step `m` asks what `f` tells of the scopes. -/
def Asks (m : Walk (Option α)) (c : State) (f : Scopes → Option α) (names : List String) : Prop :=
  ∃ ds r c', Finds m c ds r c' ∧ c.Same c' ∧ Answered c f names ds r

namespace Asks

variable {m m' : Walk (Option α)} {c : State} {f : Scopes → Option α} {g : Scopes → Option β}
  {names all : List String}

theorem pure {a : α} (h : f c.scopes = some a) (ready : ∀ name ∈ names, c.Ready name) :
    Asks (pure (some a)) c f names :=
  ⟨[], some a, c, ⟨fun _ => rfl, by simp⟩, .refl, by simp, by simpa using h, by simp,
    fun _ _ => ready⟩

theorem get_bind {k : State → Walk (Option α)} (blind : ∀ r, k (c.withReporter r) = k c)
    (h : Asks (k c) c f names) : Asks ((MonadState.get : Walk State) >>= k) c f names := by
  obtain ⟨ds, r, c', finds, asked⟩ := h
  refine ⟨ds, r, c', ⟨fun r => ?_, finds.failed⟩, asked⟩
  show (k (c.withReporter r)).run (c.withReporter r) = _
  rw [blind]
  exact finds.run r

theorem ite {p : Prop} [Decidable p] (yes : p → Asks m c f names) (no : ¬ p → Asks m' c f names) :
    Asks (if p then m else m') c f names := by
  split
  · next h => exact yes h
  · next h => exact no h

theorem refuse {m : Walk α} {a : α} {k : α → Walk (Option β)} {d : Diagnostic}
    (finds : Finds m c [d] a { c with failed := true }) (fine : d.code.isInternal = false)
    (error : d.severity.isError = true) (none : k a = Pure.pure none) :
    Asks (m >>= k) c g names := by
  have last : Finds (k a) { c with failed := true } [] Option.none { c with failed := true } := by
    rw [none]
    exact ⟨fun _ => rfl, by simp⟩
  exact ⟨_, _, _, finds.bind last, .error c, by simpa using fine, by simp, by simp [error],
    fun some => absurd rfl some⟩

theorem bind (names' : List String) {k : Option α → Walk (Option β)} (first : Asks m c f names)
    (none : k none = Pure.pure none)
    (second : ∀ a c₁, c.Same c₁ → f c₁.scopes = some a → Asks (k (some a)) c₁ g names')
    (covers : ∀ n ∈ all, n ∈ names ∨ n ∈ names') : Asks (m >>= k) c g all := by
  obtain ⟨ds₁, r, c₁, finds₁, same₁, answered₁⟩ := first
  cases r with
  | none =>
    have last : Finds (k Option.none) c₁ [] Option.none c₁ := by
      rw [none]
      exact ⟨fun _ => rfl, by simp⟩
    refine ⟨ds₁ ++ [], _, c₁, finds₁.bind last, same₁, ?_⟩
    rw [append_nil]
    exact ⟨answered₁.codes, by simp, fun _ => answered₁.refused rfl, fun some => absurd rfl some⟩
  | some a =>
    obtain ⟨ds₂, r, c₂, finds₂, same₂, answered₂⟩ :=
      second a c₁ same₁ (same₁.scopes ▸ answered₁.answer a rfl)
    refine ⟨ds₁ ++ ds₂, r, c₂, finds₁.bind finds₂, same₁.trans same₂,
      forall_mem_append.mpr ⟨answered₁.codes, answered₂.codes⟩, ?_, fun none => ?_, ?_⟩
    · rw [← same₁.scopes]
      exact answered₂.answer
    · rw [any_append, answered₂.refused none, Bool.or_true]
    · intro some silent name hn
      rw [forall_mem_append] at silent
      rcases covers name hn with hn | hn
      · exact answered₁.ready (by simp) silent.1 name hn
      · exact same₁.ready.mp (answered₂.ready some silent.2 name hn)

end Asks

/-! ## Arguments -/

/-- The kinds of arguments are those of the parameters, or a fault of the program is found. -/
theorem checkKinds_cases (f : Signature) (kinds : List Kind) :
    f.checkKinds kinds = .ok () ∧ kinds = f.params ∨
    ∃ fault, f.checkKinds kinds = .error fault ∧ fault.diagnosticCode.isInternal = false := by
  have go (position : Nat) (given want : List Kind) (hl : given.length = want.length) :
      Signature.firstMismatch f.name position given want = .ok () ∧ given = want ∨
      ∃ fault, Signature.firstMismatch f.name position given want = .error fault ∧
        fault.diagnosticCode.isInternal = false := by
    induction given generalizing position want with
    | nil => exact .inl ⟨rfl, (eq_nil_of_length_eq_zero hl.symm).symm⟩
    | cons g given ih =>
      cases want with
      | nil => cases hl
      | cons w want =>
        rw [Signature.firstMismatch]
        split
        · next hg =>
            subst hg
            exact (ih _ want (Nat.succ.inj hl)).imp_left fun h => ⟨h.1, congrArg _ h.2⟩
        · exact .inr ⟨_, rfl, rfl⟩
  unfold Signature.checkKinds
  split
  · exact .inr ⟨_, rfl, rfl⟩
  · next hl => exact go 1 kinds f.params (Decidable.not_not.mp hl)

namespace Scopes

/-- The variable that a name stands for: the depth of its scope, and its kind. -/
def target? (Γ : Scopes) (name : String) : Option (Nat × Kind) :=
  match Γ.stack.find? name with
  | some (depth, e) =>
    match e.item with
    | .variable _ v => some (depth, v.kind)
    | _ => none
  | none => none

/-- The resolved form of an expression that a variable begins with, if there is one. -/
def init? (Γ : Scopes) (kind : Kind) : Option Expr → Option (Option Typed)
  | none => some none
  | some e => ((Γ.type? e).filter (·.kind = kind)).map some

/-- A function and the resolved arguments of a call of it, whatever it returns. -/
def passed? (Γ : Scopes) (name : String) (args : List Expr) :
    Option (Signature × List Typed) :=
  match Γ.function? name, Γ.types? args with
  | some f, some ts => if ts.map Typed.kind = f.params then some (f, ts) else none
  | _, _ => none

theorem target?_eq_some {Γ : Scopes} {name : String} {target : Nat × Kind}
    (h : Γ.target? name = some target) : ∃ depth form id v slot,
      Γ.stack.find? name = some (depth, ⟨form, .variable id v, slot⟩) ∧
        target = (depth, v.kind) := by
  unfold target? at h
  split at h
  · next depth e found =>
      obtain ⟨form, item, slot⟩ := e
      cases item with
      | «variable» id v => exact ⟨depth, form, id, v, slot, found, (Option.some.inj h).symm⟩
      | _ => cases h
  · cases h

theorem passed?_eq_some {Γ : Scopes} {name : String} {args : List Expr} {f : Signature}
    {ts : List Typed} (h : Γ.passed? name args = some (f, ts)) :
    Γ.function? name = some f ∧ Γ.types? args = some ts ∧ ts.map Typed.kind = f.params := by
  unfold passed? at h
  split at h
  · split at h
    · next function types kinds =>
        cases h
        exact ⟨function, types, kinds⟩
    · cases h
  · cases h

end Scopes

namespace Walk

variable {cfg : Config} {pos : Position} {name : String}

theorem finds_error {code : Code} {message : String} (c : State) :
    Finds (error cfg code pos message) c [.error code (pos.place cfg.path) message] ()
      { c with failed := true } :=
  ⟨fun _ => rfl, by simp [Severity.isError, Severity.rank]⟩

section

variable {c : State} {f : Scopes → Option α} {names : List String}

theorem asks_error {code : Code} (message : String) (fine : code.isInternal = false) :
    Asks (do error cfg code pos message; return none) c f names :=
  .refuse (finds_error c) fine rfl rfl

theorem asks_valueError {fault : Value.Fault} :
    Asks (do valueError cfg pos fault; return none) c f names := by
  unfold valueError
  split
  · exact asks_error _ rfl
  · exact asks_error _ rfl

theorem asks_checkArguments (s : Signature) (args : List Typed) {k : Bool → Walk (Option α)}
    (no : k false = pure none)
    (yes : args.map Typed.kind = s.params → Asks (k true) c f names) :
    Asks (checkArguments cfg pos s args >>= k) c f names := by
  have refused {code : Code} (message : String) (fine : code.isInternal = false) :
      Asks ((do error cfg code pos message; return false) >>= k) c f names :=
    .refuse (d := .error code (pos.place cfg.path) message)
      ⟨fun _ => rfl, by simp [Severity.isError, Severity.rank]⟩ fine rfl no
  unfold checkArguments
  split
  · exact refused _ rfl
  · rcases checkKinds_cases s (args.map Typed.kind) with ⟨h, same⟩ | ⟨fault, h, fine⟩
    · rw [h]
      exact yes same
    · rw [h]
      exact refused _ fine

end

/-! ## Names -/

theorem asks_find (c : State) :
    Asks (find cfg pos name) c (·.stack.find? name) [] := by
  refine .get_bind (fun _ => rfl) ?_
  unfold Stack.find
  cases h : c.stack.find? name with
  | none => exact asks_error _ rfl
  | some found => exact .pure h (by simp)

theorem asks_typeRef (c : State) :
    Asks (typeRef cfg pos name) c (·.ref? name) [name] := by
  refine .bind [name] (asks_find c) rfl ?_ fun _ => .inr
  rintro ⟨depth, form, item, slot⟩ c₁ - found
  have ready {other : String} (h : ∀ id v, item = .variable id v →
      c₁.assigned.contains (depth, name) = true) (hn : other ∈ [name]) : c₁.Ready other := by
    intro depth' e id v found' item'
    rw [mem_singleton.mp hn] at found' ⊢
    cases Option.some.inj (found.symm.trans found')
    exact h id v item'
  cases item with
  | constant id v => exact .pure (by simp only [ref?, found]) fun _ => ready nofun
  | function s => exact asks_error _ rfl
  | array a => exact asks_error _ rfl
  | «variable» id v =>
    have answer : c₁.scopes.ref? name =
        some (.variable name v.kind (c₁.location depth ⟨form, .variable id v, slot⟩)) := by
      simp only [ref?, found]
      rfl
    refine .get_bind (fun _ => rfl) (.ite (fun _ => ?_) fun assigned => ?_)
    · -- The read is reported, so nothing is said of the variable.
      exact ⟨[.warning .semaUninitRead (pos.place cfg.path) _], _, c₁,
        ⟨fun _ => rfl, by simp [Severity.isError, Severity.rank]⟩, .refl,
        forall_mem_singleton.mpr rfl, by simpa using answer, by simp,
        fun _ silent => absurd rfl (silent _ (mem_singleton_self _))⟩
    · exact .pure answer fun _ => ready fun _ _ _ => by simpa using assigned

theorem asks_findFunction (c : State) :
    Asks (findFunction cfg pos name) c (·.function? name) [] := by
  refine .bind [] (asks_find c) rfl ?_ fun _ => .inl
  rintro ⟨depth, form, item, slot⟩ c₁ - found
  cases item with
  | function s => exact .pure (by simp only [function?, found]) (by simp)
  | _ => exact asks_error _ rfl

theorem asks_findTarget (c : State) :
    Asks (findTarget cfg pos name) c (·.target? name) [] := by
  refine .bind [] (asks_find c) rfl ?_ fun _ => .inl
  rintro ⟨depth, form, item, slot⟩ c₁ - found
  cases item with
  | «variable» id v => exact .pure (by simp only [target?, found]) (by simp)
  | _ => exact asks_error _ rfl

/-! ## Expressions -/

mutual

theorem asks_typeExpr : (e : Expr) → (c : State) →
    Asks (typeExpr cfg pos e) c (·.type? e) e.names
  | .literal v, c => by
    rw [typeExpr]
    exact .pure (by simp only [type?]) (by simp [Expr.names])
  | .ref name, c => by
    rw [typeExpr]
    simpa only [type?, Expr.names] using asks_typeRef c
  | .unary op e, c => by
    rw [typeExpr]
    refine .bind [] (asks_typeExpr e c) rfl (fun t c₁ _ type => ?_) fun n hn => .inl ?_
    · cases hv : Value.unary op t.static with
      | error fault =>
        simp only [hv]
        exact asks_valueError
      | ok v =>
        simp only [hv]
        exact .pure (by simp only [type?, type, hv]) (by simp)
    · simpa only [Expr.names] using hn
  | .binary op l r, c => by
    rw [typeExpr]
    refine .bind r.names (asks_typeExpr l c) rfl (fun tl c₁ _ left => ?_) fun n hn => ?_
    · refine .bind [] (asks_typeExpr r c₁) rfl (fun tr c₂ same right => ?_) fun _ => .inl
      rw [← same.scopes] at left
      cases hv : Value.binary op tl.static tr.static with
      | error fault =>
        simp only [hv]
        exact asks_valueError
      | ok v =>
        simp only [hv]
        exact .pure (by simp only [type?, left, right, hv]) (by simp)
    · rw [Expr.names] at hn
      exact mem_append.mp hn
  | .call name args, c => by
    rw [typeExpr]
    refine .bind (Program.namesOfAll args) (asks_findFunction c) rfl
      (fun s c₁ _ function => ?_) fun n hn => .inr ?_
    · refine .bind [] (asks_typeArgs args c₁) rfl (fun ts c₂ same types => ?_) fun _ => .inl
      rw [← same.scopes] at function
      refine asks_checkArguments s ts rfl fun kinds => ?_
      refine .ite (fun no => by cases no) fun _ => .ite (fun _ => asks_error _ rfl)
        fun result => ?_
      have result : s.result?.isSome := by simpa [isSome_iff_ne_none] using result
      refine .pure ?_ (by simp)
      simp only [type?, function, types]
      exact if_pos ⟨kinds, result⟩
    · simpa only [Expr.names] using hn

theorem asks_typeArgs : (args : List Expr) → (c : State) →
    Asks (typeArgs cfg pos args) c (·.types? args) (Program.namesOfAll args)
  | [], c => by
    rw [typeArgs]
    exact .pure (by simp only [types?]) (by simp [Program.namesOfAll])
  | e :: rest, c => by
    -- All arguments are typed, also behind one that is wrong.
    obtain ⟨ds₁, r₁, c₁, finds₁, same₁, first⟩ := asks_typeExpr e c
    obtain ⟨ds₂, r₂, c₂, finds₂, same₂, others⟩ := asks_typeArgs rest c₁
    have last : Finds (pure (r₁.bind fun t => r₂.map (t :: ·)) : Walk (Option (List Typed))) c₂ []
        (r₁.bind fun t => r₂.map (t :: ·)) c₂ := ⟨fun _ => rfl, by simp⟩
    rw [typeArgs]
    refine ⟨ds₁ ++ (ds₂ ++ []), _, c₂, finds₁.bind (finds₂.bind last), same₁.trans same₂, ?_⟩
    rw [append_nil]
    refine ⟨forall_mem_append.mpr ⟨first.codes, others.codes⟩, fun ts hts => ?_, ?_, ?_⟩
    · obtain ⟨t, ht, hts⟩ := bind_eq_some_iff.mp hts
      obtain ⟨ts', hts', rfl⟩ := map_eq_some_iff.mp hts
      have types := others.answer ts' hts'
      rw [same₁.scopes] at types
      simp only [types?, first.answer t ht, types]
    · intro none
      rw [any_append, Bool.or_eq_true]
      cases r₁ with
      | none => exact .inl (first.refused rfl)
      | some t => exact .inr (others.refused (by simpa using none))
    · intro some silent
      rw [forall_mem_append] at silent
      rw [Program.namesOfAll, forall_mem_append]
      cases r₁ with
      | none => exact absurd rfl some
      | some t =>
        refine ⟨first.ready (by simp) silent.1, fun n hn => same₁.ready.mp ?_⟩
        exact others.ready (by simpa using some) silent.2 n hn

end

theorem asks_typeCall {args : List Expr} (c : State) :
    Asks (typeCall cfg pos name args) c (·.passed? name args) (Program.namesOfAll args) := by
  refine .bind _ (asks_findFunction c) rfl (fun s c₁ _ function => ?_) fun _ => .inr
  refine .bind [] (asks_typeArgs args c₁) rfl (fun ts c₂ same types => ?_) fun _ => .inl
  rw [← same.scopes] at function
  refine asks_checkArguments s ts rfl fun kinds => .pure ?_ (by simp)
  simp only [passed?, function, types]
  exact if_pos kinds

theorem asks_typeInit {kind : Kind} {init : Option Expr} (c : State) :
    Asks (typeInit cfg pos name kind init) c (·.init? kind init)
      ((init.map Expr.names).getD []) := by
  cases init with
  | none => exact .pure rfl (by simp)
  | some e =>
    refine .bind [] (asks_typeExpr e c) rfl (fun t c₁ _ type => ?_) fun _ => .inl
    refine .ite (fun same => .pure ?_ (by simp)) fun _ => asks_error _ rfl
    simp [init?, type, filter_some, same]

end Walk

end Compile

end Jasm

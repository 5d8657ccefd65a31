import Jasm.Proofs.Assembly.Accessing

/-!
# What a refused step leaves

Most steps check everything before they write anything, so if they are refused the program is what
it was before them. This is read off their shape: a check changes nothing, what is only written is
never refused, and checks in front of a step of this sort give a step of this sort. Along the way we
note which slots the steps access.
-/

namespace Jasm.Assembly.Emit

variable {α β : Type} {S : Nat → Prop} {g g' : Generator} {i : Instruction}

/-- A step changes nothing, whether it is carried out or refused. -/
structure Checks (m : Emit α) : Prop where
  same : ∀ g, (m.run.run g).2 = g
  blind : ∀ g, Blind m g

/-- A step is never refused. -/
structure Sure (S : Nat → Prop) (m : Emit α) : Prop where
  carried : ∀ g f g', m.run.run g ≠ (.error f, g')
  accesses : Accesses S m

/-- A step changes nothing if it is refused. -/
structure Atomic (S : Nat → Prop) (m : Emit α) : Prop where
  refused : ∀ g f g', m.run.run g = (.error f, g') → g' = g
  accesses : Accesses S m

/-! ## Checks -/

namespace Checks

theorem pure {a : α} : Checks (Pure.pure a : Emit α) := ⟨fun _ => rfl, fun _ _ => rfl⟩

theorem throw {f : Fault} : Checks (MonadExcept.throw f : Emit α) :=
  ⟨fun _ => rfl, fun _ _ => rfl⟩

theorem writes_eq {m : Emit α} {a : α} (h : Checks m) (w : m.Writes g a g') : g' = g := by
  have eq := h.same g
  rw [w] at eq
  exact eq

theorem accesses {m : Emit α} (h : Checks m) : Accesses S m := by
  intro g
  refine ⟨?_, h.blind g⟩
  rw [h.same g]
  exact .refl

theorem bind {m : Emit α} {k : α → Emit β} (h : Checks m) (hk : ∀ a, Checks (k a)) :
    Checks (m >>= k) := by
  refine ⟨fun g => ?_, fun g => (h.blind g).bind fun a g' _ => (hk a).blind g'⟩
  have same := h.same g
  rcases writes_or_refused m g with ⟨a, w⟩ | ⟨f, r⟩
  · rw [run_bind_of_writes w, same]
    exact (hk a).same g
  · rw [run_bind_of_refused r]
    exact same

theorem get_bind {k : Generator → Emit β} (same : ∀ g b, k (g.withIndent b) = k g)
    (hk : ∀ s, Checks (k s)) : Checks ((get : Emit Generator) >>= k) :=
  ⟨fun g => (hk g).same g, fun g => .get_bind (same g) ((hk g).blind g)⟩

theorem ite {c : Prop} [Decidable c] {m m' : Emit α} (h : Checks m) (h' : Checks m') :
    Checks (if c then m else m') := by
  split
  · exact h
  · exact h'

end Checks

theorem checks_requireOpen : Checks requireOpen :=
  .get_bind (fun _ _ => rfl) fun _ => .ite .throw .pure

theorem checks_requirePhase {ph : Phase} {what : String} : Checks (requirePhase ph what) :=
  .bind checks_requireOpen fun _ => .get_bind (fun _ _ => rfl) fun _ => .ite .throw .pure

theorem checks_currentMethod : Checks currentMethod := .get_bind (fun _ _ => rfl) fun _ => .pure

theorem checks_ifBlock? {id : Option Nat} : Checks (ifBlock? id) :=
  .get_bind (fun _ _ => rfl) fun _ => .pure

theorem checks_loop? {id : Option Nat} : Checks (loop? id) :=
  .get_bind (fun _ _ => rfl) fun _ => .pure

theorem checks_requireStorable {site : StorageSite} {kind : Kind} :
    Checks (requireStorable site kind) := .ite .throw .pure

theorem checks_requireParams {name : String} (position : Nat) {kinds : List Kind} :
    Checks (requireParams name position kinds) := by
  induction kinds generalizing position with
  | nil => exact .pure
  | cons k rest ih => exact .bind checks_requireStorable fun _ => ih (position + 1)

theorem checks_requireSignature {f : Signature} : Checks (requireSignature f) := by
  refine .bind (checks_requireParams 1) fun _ => ?_
  cases f.result? with
  | none => exact .pure
  | some k => exact checks_requireStorable

theorem checks_requireLabelsDefined {place : String} : Checks (requireLabelsDefined place) := by
  refine .get_bind (fun _ _ => rfl) fun s => ?_
  cases s.labels.pending with
  | nil => exact .pure
  | cons l ls => exact .throw

/-! ## Steps that are never refused -/

namespace Sure

theorem pure (a : α) : Sure S (Pure.pure a : Emit α) := by
  refine ⟨?_, .pure a⟩
  intro g f g' h
  cases h

theorem modify {f : Generator → Generator}
    (h : ∀ g b, (f g).lines = g.lines ∧ f (g.withIndent b) = (f g).withIndent b) :
    Sure S (modify f : Emit PUnit) := by
  refine ⟨?_, .modify h⟩
  intro g f g' h
  cases h

theorem bind {m : Emit α} {k : α → Emit β} (h : Sure S m) (hk : ∀ a, Sure S (k a)) :
    Sure S (m >>= k) := by
  refine ⟨?_, h.accesses.bind fun a => (hk a).accesses⟩
  intro g f g' r
  rcases writes_or_refused m g with ⟨a, w⟩ | ⟨f', r'⟩
  · rw [run_bind_of_writes w] at r
    exact (hk a).carried _ f g' r
  · exact h.carried g f' _ r'

theorem get_bind {k : Generator → Emit β} (same : ∀ g b, k (g.withIndent b) = k g)
    (hk : ∀ s, Sure S (k s)) : Sure S ((get : Emit Generator) >>= k) :=
  ⟨fun g => (hk g).carried g, .get_bind same fun s => (hk s).accesses⟩

end Sure

theorem sure_instr (h : ∀ n ∈ i.slot?, S n) : Sure S (instr i) := by
  refine ⟨?_, .instr h⟩
  intro g f g' h
  cases h

theorem sure_plain (h : i.slot? = none) : Sure S (instr i) :=
  sure_instr (by simp [h])

theorem sure_line {l : Line} (h : l.slot? = none) : Sure S (line l) := by
  refine ⟨?_, .line (by simp [h])⟩
  intro g f g' h
  cases h

/-! ## Steps that check first -/

namespace Atomic

theorem of_checks {m : Emit α} (h : Checks m) : Atomic S m := by
  refine ⟨?_, h.accesses⟩
  intro g f g' r
  have same := h.same g
  rw [r] at same
  exact same

theorem of_sure {m : Emit α} (h : Sure S m) : Atomic S m :=
  ⟨fun g f g' r => absurd r (h.carried g f g'), h.accesses⟩

theorem throw {f : Fault} : Atomic S (MonadExcept.throw f : Emit α) := of_checks .throw

theorem bind {m : Emit α} {k : α → Emit β} (h : Checks m) (hk : ∀ a, Atomic S (k a)) :
    Atomic S (m >>= k) := by
  refine ⟨?_, h.accesses.bind fun a => (hk a).accesses⟩
  intro g f g' r
  have same := h.same g
  rcases writes_or_refused m g with ⟨a, w⟩ | ⟨f', r'⟩
  · rw [run_bind_of_writes w, same] at r
    exact (hk a).refused g f g' r
  · rw [run_bind_of_refused r'] at r
    rw [← same]
    exact (congrArg Prod.snd r).symm

theorem get_bind {k : Generator → Emit β} (same : ∀ g b, k (g.withIndent b) = k g)
    (hk : ∀ s, Atomic S (k s)) : Atomic S ((get : Emit Generator) >>= k) :=
  ⟨fun g => (hk g).refused g, .get_bind same fun s => (hk s).accesses⟩

theorem ite {c : Prop} [Decidable c] {m m' : Emit α} (h : Atomic S m) (h' : Atomic S m') :
    Atomic S (if c then m else m') := by
  split
  · exact h
  · exact h'

theorem guard {c : Prop} [Decidable c] {f : Fault} {k : Unit → Emit β} (hk : Atomic S (k ())) :
    Atomic S (if c then MonadExcept.throw f >>= k else k ()) :=
  ite (of_checks ⟨fun _ => rfl, fun _ _ => rfl⟩) hk

end Atomic

theorem slot?_pushNumber (n : Int32) : (pushNumber n).slot? = none := by
  unfold pushNumber
  split <;> rfl

theorem atomic_programStart : Atomic S programStart :=
  .bind checks_requirePhase fun _ => .of_sure <|
    .bind (sure_line rfl) fun _ => .modify fun _ _ => ⟨rfl, rfl⟩

theorem atomic_programEnd : Atomic S programEnd :=
  .bind checks_requirePhase fun _ => .get_bind (fun _ _ => rfl) fun _ =>
    .bind checks_requireLabelsDefined fun _ => .of_sure <|
      .bind (.modify fun _ _ => ⟨rfl, rfl⟩) fun _ => .bind (sure_line rfl) fun _ =>
      .modify fun _ _ => ⟨rfl, rfl⟩

theorem atomic_declareGlobal (id : String) (kind : Kind) : Atomic S (declareGlobal id kind) :=
  .bind checks_requirePhase fun _ => .bind checks_requireStorable fun _ =>
    .of_sure (sure_line rfl)

theorem atomic_declareGlobalInit (id : String) (v : Value) :
    Atomic S (declareGlobalInit id v) := by
  refine .bind checks_requirePhase fun _ => .bind checks_requireStorable fun _ => ?_
  cases v.intImage? with
  | none => exact .throw
  | some n => exact .of_sure (sure_line rfl)

theorem atomic_printBegin : Atomic S printBegin :=
  .bind checks_requirePhase fun _ => .of_sure <|
    .bind (sure_plain rfl) fun _ => .modify fun _ _ => ⟨rfl, rfl⟩

theorem atomic_printEnd (kind : Kind) (newline : Bool) : Atomic S (printEnd kind newline) := by
  refine .bind checks_requirePhase fun _ => .get_bind (fun _ _ => rfl) fun _ => .guard ?_
  cases Printed.ofKind? kind with
  | none => exact .throw
  | some what =>
    exact .of_sure (.bind (.modify fun _ _ => ⟨rfl, rfl⟩) fun _ => sure_plain rfl)

theorem atomic_reserve {n : Int} : Atomic S (reserve n) :=
  .bind checks_requireOpen fun _ => .guard <| .get_bind (fun _ _ => rfl) fun _ =>
    .of_sure (.bind (.modify fun _ _ => ⟨rfl, rfl⟩) fun _ => .pure _)

theorem atomic_define {l : Label} : Atomic S (define l) := by
  refine .bind checks_requirePhase fun _ => .get_bind (fun _ _ => rfl) fun g => ?_
  dsimp only
  cases g.labels.get? l with
  | none => exact .throw
  | some s =>
    exact .guard <| .guard <| .of_sure <|
      .bind (.modify fun _ _ => ⟨rfl, rfl⟩) fun _ => sure_plain rfl

theorem atomic_jump {mnemonic : String} {l : Label} (h : ∀ n ∈ i.slot?, S n) :
    Atomic S (jump mnemonic l i) := by
  refine .bind checks_requirePhase fun _ => .get_bind (fun _ _ => rfl) fun g => ?_
  dsimp only
  cases g.labels.get? l with
  | none => exact .throw
  | some s =>
    exact .guard <| .of_sure <| .bind (.modify fun _ _ => ⟨rfl, rfl⟩) fun _ => sure_instr h

theorem sure_openMethod {m : MethodFrame} {header : Line} (h : header.slot? = none) :
    Sure S (openMethod m header) :=
  .get_bind (fun _ _ => rfl) fun _ => .bind (sure_line h) fun _ => .bind (sure_line rfl) fun _ =>
    .bind (sure_line rfl) fun _ => .bind (sure_line rfl) fun _ => .modify fun _ _ => ⟨rfl, rfl⟩

theorem atomic_beginFunction {f : Option Signature} : Atomic S (beginFunction f) := by
  cases f with
  | none => exact .throw
  | some f =>
    exact .bind checks_requirePhase fun _ => .bind checks_requireSignature fun _ =>
      .of_sure (sure_openMethod rfl)

theorem atomic_beginMain : Atomic S beginMain :=
  .bind checks_requirePhase fun _ => .of_sure (sure_openMethod rfl)

theorem atomic_endFunction : Atomic S endFunction := by
  refine .bind checks_requirePhase fun _ => .bind checks_currentMethod fun m =>
    .get_bind (fun _ _ => rfl) fun _ => .guard <| .bind checks_requireLabelsDefined fun _ =>
      .of_sure ?_
  have closing : Sure S (do
      modify fun g => { g with depth := g.depth - 1 }
      line .close
      modify fun g =>
        { g with method := none, phase := .program, labels := g.labels.leaveMethod }) :=
    .bind (.modify fun _ _ => ⟨rfl, rfl⟩) fun _ => .bind (sure_line rfl) fun _ =>
      .modify fun _ _ => ⟨rfl, rfl⟩
  dsimp only
  split
  · exact .bind (sure_plain rfl) fun _ => closing
  · exact closing

theorem atomic_endMain : Atomic S endMain := by
  refine .get_bind (fun _ _ => rfl) fun g => ?_
  cases g.method with
  | none => exact atomic_endFunction
  | some m => exact .guard <| atomic_endFunction

end Jasm.Assembly.Emit

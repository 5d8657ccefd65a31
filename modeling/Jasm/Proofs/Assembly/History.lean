import Mathlib.Data.List.Induction
import Jasm.Assembly.Call
import Jasm.Proofs.Assembly.Machine
import Jasm.Proofs.Assembly.Refusing

/-!
# Histories of programs in the making

However a client calls the generator, what happens is made of a few small parts: labels are handed
out, a label is defined or jumped to, a method is opened or ended, and some things that do not
concern labels at all. `Part` lists them, and a `History` is what happened to labels along a chain
of parts.

Every call is such a chain, whether it is carried out or refused in the middle. So what is shown of
parts holds of everything a client can do.

Most calls belong inside of a method. They keep the phase and the prints that are begun, and they
write nothing elsewhere: `Inner`. `Role` says what the other calls are for.
-/

namespace Jasm.Assembly

open Emit

/-- Something that happens to the labels of a program. -/
inductive Event where
  | reserved (ls : List Label)
  | defined (l : Label)
  | jumped (l : Label)
  /-- A method was opened. -/
  | opened
  /-- The open method was ended. -/
  | ended
  deriving DecidableEq

/-- The label that an instruction jumps to. -/
def Instruction.target? : Instruction → Option Label
  | .goto l | .branch _ l => some l
  | _ => none

/-- The smallest things that happen to a program, with what they are for its labels. -/
inductive Part (g : Generator) : Option Event → Generator → Prop where
  | reserve {n : Int} {ls : List Label} {g' : Generator} :
      (reserve n).Writes g ls g' → Part g (some (.reserved ls)) g'
  | define {l : Label} {g' : Generator} :
      (define l).Writes g () g' → Part g (some (.defined l)) g'
  | goto {l : Label} {g' : Generator} :
      (goto l).Writes g () g' → Part g (some (.jumped l)) g'
  | branch {c : Cond} {l : Label} {g' : Generator} :
      (branch c l).Writes g () g' → Part g (some (.jumped l)) g'
  | beginFunction {f : Option Signature} {g' : Generator} :
      (beginFunction f).Writes g () g' → Part g (some .opened) g'
  | beginMain {g' : Generator} : beginMain.Writes g () g' → Part g (some .opened) g'
  | endFunction {g' : Generator} : endFunction.Writes g () g' → Part g (some .ended) g'
  | programStart {g' : Generator} : programStart.Writes g () g' → Part g none g'
  | programEnd {g' : Generator} : programEnd.Writes g () g' → Part g none g'
  | field (id : String) (init : Option Int32) :
      g.phase = .program → Part g none (g.push (.field id init))
  | printBegin {g' : Generator} : printBegin.Writes g () g' → Part g none g'
  | printEnd {kind : Kind} {newline : Bool} {g' : Generator} :
      (printEnd kind newline).Writes g () g' → Part g none g'
  /-- An instruction that has nothing to do with labels. -/
  | instr {i : Instruction} :
      g.phase = .method → i.label? = none → i.target? = none → Part g none (g.pushInstr i)
  /-- A note about a branch or a loop. -/
  | note (ifs : Array IfBlock) (loops : Array Loop) :
      Part g none { g with ifs := ifs, loops := loops }
  | close (broken : Option String) : Part g none (g.close broken).2

/-- A chain of parts that leads from one program to another, with what happened to labels. -/
inductive History (g : Generator) : List Event → Generator → Prop where
  | refl : History g [] g
  | snoc {es : List Event} {e : Option Event} {g₁ g₂ : Generator} :
      History g es g₁ → Part g₁ e g₂ → History g (es ++ e.toList) g₂

namespace History

variable {g g₁ g₂ : Generator} {es es' : List Event}

theorem one {e : Option Event} (h : Part g e g₁) : History g e.toList g₁ := .snoc .refl h

theorem trans (first : History g es g₁) (second : History g₁ es' g₂) :
    History g (es ++ es') g₂ := by
  induction second with
  | refl =>
    rw [List.append_nil]
    exact first
  | snoc _ part ih =>
    rw [← List.append_assoc]
    exact .snoc ih part

end History

/-- A program has kept its phase and the prints that are begun, and lines were written only in a
method. -/
structure Generator.Inside (g g' : Generator) : Prop where
  phase : g'.phase = g.phase
  prints : g'.prints = g.prints
  lines : g'.lines = g.lines ∨ g.phase = .method

theorem Generator.Inside.refl {g : Generator} : g.Inside g := ⟨rfl, rfl, .inl rfl⟩

theorem Generator.Inside.trans {g g₁ g₂ : Generator} (first : g.Inside g₁)
    (second : g₁.Inside g₂) : g.Inside g₂ := by
  refine ⟨second.phase.trans first.phase, second.prints.trans first.prints, ?_⟩
  rcases first.lines with same | inside
  · rcases second.lines with same' | inside
    · exact .inl (same'.trans same)
    · exact .inr (first.phase.symm.trans inside)
  · exact .inr inside

namespace Emit

variable {α β : Type} {S : Nat → Prop} {g g' : Generator} {m : Emit α} {i : Instruction}
  {slot : Int} {id : String} {loc : Location}

/-- A step on a program has a history, also if it is refused on the way. -/
structure Traced (S : Nat → Prop) (m : Emit α) (g : Generator) : Prop extends Appends S m g where
  history : ∃ es, History g es (m.run.run g).2

/-- A step that belongs inside of a method. -/
structure Inner (S : Nat → Prop) (m : Emit α) (g : Generator) : Prop extends Traced S m g where
  inside : g.Inside (m.run.run g).2

namespace Traced

theorem of_part {m : Emit α} (h : Atomic S m)
    (part : ∀ a g', m.Writes g a g' → ∃ e, Part g e g') : Traced S m g := by
  refine ⟨h.accesses g, ?_⟩
  rcases writes_or_refused m g with ⟨a, w⟩ | ⟨f, r⟩
  · obtain ⟨e, he⟩ := part a _ w
    exact ⟨e.toList, .one he⟩
  · rw [h.refused g f _ r]
    exact ⟨[], .refl⟩

theorem bind {m : Emit α} {k : α → Emit β} (h : Traced S m g)
    (hk : ∀ a g', m.Writes g a g' → Traced S (k a) g') : Traced S (m >>= k) g := by
  refine ⟨h.toAppends.bind fun a g' w => (hk a g' w).toAppends, ?_⟩
  obtain ⟨es, first⟩ := h.history
  rcases writes_or_refused m g with ⟨a, w⟩ | ⟨f, r⟩
  · obtain ⟨es', second⟩ := (hk a _ w).history
    rw [run_bind_of_writes w]
    exact ⟨es ++ es', first.trans second⟩
  · rw [run_bind_of_refused r]
    exact ⟨es, first⟩

theorem seqRight {m : Emit α} (h : Traced S m g) {b : β} : Traced S (m *> Pure.pure b) g := by
  rw [seqRight_eq_bind]
  exact bind h fun _ g' _ => ⟨Accesses.pure b g', [], .refl⟩

end Traced

namespace Inner

variable {m : Emit α} {k : Unit → Emit β}

theorem of_checks (h : Checks m) : Inner S m g := by
  have same := h.same g
  refine ⟨⟨h.accesses g, [], ?_⟩, ?_⟩
  · rw [same]
    exact .refl
  · rw [same]
    exact .refl

theorem pure {a : α} : Inner S (Pure.pure a : Emit α) g := of_checks .pure

theorem throw {f : Fault} : Inner S (MonadExcept.throw f : Emit α) g := of_checks .throw

theorem of_part (h : Atomic S m)
    (carried : ∀ a g', m.Writes g a g' → (∃ e, Part g e g') ∧ g.Inside g') : Inner S m g := by
  refine ⟨.of_part h fun a g' w => (carried a g' w).1, ?_⟩
  rcases writes_or_refused m g with ⟨a, w⟩ | ⟨f, r⟩
  · exact (carried a _ w).2
  · rw [h.refused g f _ r]
    exact .refl

theorem bind {k : α → Emit β} (h : Inner S m g)
    (hk : ∀ a g', g'.phase = g.phase → Inner S (k a) g') : Inner S (m >>= k) g := by
  have second (a : α) (w : m.Writes g a (m.run.run g).2) := hk a _ h.inside.phase
  constructor
  · refine h.toTraced.bind fun a g' w => ?_
    obtain rfl : (m.run.run g).2 = g' := congrArg Prod.snd w
    exact (second a w).toTraced
  · rcases writes_or_refused m g with ⟨a, w⟩ | ⟨f, r⟩
    · rw [run_bind_of_writes w]
      exact h.inside.trans (second a w).inside
    · rw [run_bind_of_refused r]
      exact h.inside

theorem get_bind {k : Generator → Emit β} (same : ∀ b, k (g.withIndent b) = k g)
    (hk : Inner S (k g) g) : Inner S ((get : Emit Generator) >>= k) g :=
  ⟨⟨.get_bind same hk.toAppends, hk.history⟩, hk.inside⟩

theorem check_bind {k : α → Emit β} (h : Checks m) (hk : ∀ a, m.Writes g a g → Inner S (k a) g) :
    Inner S (m >>= k) g := by
  have same := h.same g
  constructor
  · refine (of_checks h).toTraced.bind fun a g' w => ?_
    obtain rfl := h.writes_eq w
    exact (hk a w).toTraced
  · rcases writes_or_refused m g with ⟨a, w⟩ | ⟨f, r⟩
    · rw [same] at w
      rw [run_bind_of_writes w]
      exact (hk a w).inside
    · rw [run_bind_of_refused r, same]
      exact .refl

theorem requireMethod_bind {what : String} (hk : g.phase = .method → Inner S (k ()) g) :
    Inner S (requirePhase .method what >>= k) g :=
  check_bind checks_requirePhase fun _ w => hk (writes_requireMethod.mp w).1

theorem guard {c : Prop} [Decidable c] {f : Fault} (hk : Inner S (k ()) g) :
    Inner S (if c then MonadExcept.throw f >>= k else k ()) g := by
  split
  · exact of_checks ⟨fun _ => rfl, fun _ _ => rfl⟩
  · exact hk

theorem instr (phase : g.phase = .method) {i : Instruction} (label : i.label? = none)
    (target : i.target? = none) (slot : ∀ n ∈ i.slot?, S n) : Inner S (instr i) g :=
  ⟨⟨Accesses.instr slot g, _, .one (.instr phase label target)⟩, rfl, rfl, .inr phase⟩

theorem note {f : Generator → Generator} {ifs : Array IfBlock} {loops : Array Loop}
    (same : ∀ b, f (g.withIndent b) = (f g).withIndent b ∧
      f g = { g with ifs := ifs, loops := loops }) : Inner S (modify f : Emit PUnit) g := by
  have noted := (same true).2
  have lines : (f g).lines = g.lines := by rw [noted]
  refine ⟨⟨⟨.of_lines lines, fun b => ?_⟩, _, .one (e := none) ?_⟩, ?_⟩
  · exact congrArg (Prod.mk _) (same b).1
  · show Part g none (f g)
    rw [noted]
    exact .note ifs loops
  · show g.Inside (f g)
    rw [noted]
    exact ⟨rfl, rfl, .inl rfl⟩

theorem seqRight (h : Inner S m g) {b : β} : Inner S (m *> Pure.pure b) g := by
  rw [seqRight_eq_bind]
  exact bind h fun _ _ _ => pure

theorem map (h : Inner S m g) {f : α → β} : Inner S (f <$> m) g := by
  rw [map_eq_pure_bind]
  exact bind h fun _ _ _ => pure

end Inner

theorem Accesses.of_inner (h : ∀ g, Inner S m g) : Accesses S m :=
  fun g => (h g).toAppends

/-- A step writes instructions that have nothing to do with labels, or it changes nothing. -/
structure Plain (S : Nat → Prop) (m : Emit α) (g : Generator) : Prop extends Inner S m g where
  refused : ∀ f g', m.run.run g = (.error f, g') → g' = g
  still : (m.run.run g).2.labels = g.labels ∧ (m.run.run g).2.ifs = g.ifs ∧
    (m.run.run g).2.loops = g.loops

namespace Plain

theorem throw {f : Fault} : Plain S (MonadExcept.throw f : Emit α) g := by
  refine ⟨.throw, fun _ _ r => ?_, rfl, rfl, rfl⟩
  cases r
  rfl

theorem instr (phase : g.phase = .method) {i : Instruction} (label : i.label? = none)
    (target : i.target? = none) (slot : ∀ n ∈ i.slot?, S n) : Plain S (instr i) g :=
  ⟨.instr phase label target slot, (fun _ _ r => nomatch r), rfl, rfl, rfl⟩

theorem check_bind {m : Emit α} {k : α → Emit β} (h : Checks m)
    (hk : ∀ a, m.Writes g a g → Plain S (k a) g) : Plain S (m >>= k) g := by
  have inner : Inner S (m >>= k) g := .check_bind h fun a w => (hk a w).toInner
  have same := h.same g
  rcases writes_or_refused m g with ⟨a, w⟩ | ⟨f, r⟩
  · rw [same] at w
    have run := run_bind_of_writes w k
    exact ⟨inner, run ▸ (hk a w).refused, run ▸ (hk a w).still⟩
  · rw [same] at r
    have run := run_bind_of_refused r k
    refine ⟨inner, fun f' g' r' => ?_, ?_⟩
    · rw [run] at r'
      exact (congrArg Prod.snd r').symm
    · rw [run]
      exact ⟨rfl, rfl, rfl⟩

theorem requireMethod_bind {what : String} {k : Unit → Emit β}
    (hk : g.phase = .method → Plain S (k ()) g) : Plain S (requirePhase .method what >>= k) g :=
  check_bind checks_requirePhase fun _ w => hk (writes_requireMethod.mp w).1

theorem guard {c : Prop} [Decidable c] {f : Fault} {k : Unit → Emit β} (hk : Plain S (k ()) g) :
    Plain S (if c then MonadExcept.throw f >>= k else k ()) g := by
  split
  · exact throw
  · exact hk

theorem atomic {m : Emit α} (h : ∀ g, Plain S m g) : Atomic S m :=
  ⟨fun g => (h g).refused, .of_inner fun g => (h g).toInner⟩

end Plain

theorem Accesses.of_plain (h : ∀ g, Plain S m g) : Accesses S m :=
  (Plain.atomic h).accesses

/-! ## Single steps -/

theorem plain_instr {what : String} (label : i.label? = none) (target : i.target? = none)
    (slot : i.slot? = none) :
    Plain S (requirePhase .method what >>= fun _ => instr i) g :=
  .requireMethod_bind fun phase => .instr phase label target (by simp [slot])

theorem inner_reserve {n : Int} : Inner S (reserve n) g := by
  refine .of_part atomic_reserve fun _ _ w => ⟨⟨_, .reserve w⟩, ?_⟩
  obtain ⟨-, -, -, rfl⟩ := writes_reserve.mp w
  exact ⟨rfl, rfl, .inl rfl⟩

theorem inner_define {l : Label} : Inner S (define l) g := by
  refine .of_part atomic_define fun _ _ w => ⟨⟨_, .define w⟩, ?_⟩
  obtain ⟨phase, s, -, -, -, rfl⟩ := writes_define.mp w
  exact ⟨rfl, rfl, .inr phase⟩

theorem inside_of_jump {mnemonic : String} {l : Label} (w : (jump mnemonic l i).Writes g () g') :
    g.Inside g' := by
  obtain ⟨phase, s, -, -, rfl⟩ := writes_jump.mp w
  exact ⟨rfl, rfl, .inr phase⟩

theorem inner_goto {l : Label} : Inner S (goto l) g :=
  .of_part (atomic_jump nofun) fun _ _ w => ⟨⟨_, .goto w⟩, inside_of_jump w⟩

theorem inner_branch {c : Cond} {l : Label} : Inner S (branch c l) g :=
  .of_part (atomic_jump nofun) fun _ _ w => ⟨⟨_, .branch w⟩, inside_of_jump w⟩

theorem plain_loadLocal (h : S slot.toNat) : Plain S (loadLocal slot) g :=
  .requireMethod_bind fun phase =>
    .guard (.instr phase rfl rfl (by simpa [Instruction.slot?] using h))

theorem plain_storeLocal (h : S slot.toNat) : Plain S (storeLocal slot) g :=
  .requireMethod_bind fun phase =>
    .guard (.instr phase rfl rfl (by simpa [Instruction.slot?] using h))

theorem plain_load (h : loc.isGlobal ∨ S loc.slot.toNat) :
    Plain S (load id loc) g := by
  unfold load
  split
  · exact plain_instr rfl rfl rfl
  · next notGlobal => exact plain_loadLocal (h.resolve_left notGlobal)

theorem plain_store (h : loc.isGlobal ∨ S loc.slot.toNat) :
    Plain S (store id loc) g := by
  unfold store
  split
  · exact plain_instr rfl rfl rfl
  · next notGlobal => exact plain_storeLocal (h.resolve_left notGlobal)

theorem plain_loadInt {n : Int32} : Plain S (loadInt n) g := by
  refine plain_instr ?_ ?_ (slot?_pushNumber n) <;> unfold pushNumber <;> split <;> rfl

theorem plain_loadConst (v : Value) : Plain S (loadConst v) g := by
  cases v with
  | uninit _ | float _ => exact .throw
  | int _ | char _ => exact plain_loadInt
  | bool _ | str _ => exact plain_instr rfl rfl rfl

theorem plain_operation (op : Operator) : Plain S (operation op) g := by
  refine .requireMethod_bind fun phase => ?_
  split
  · refine ⟨.bind (.instr phase rfl rfl nofun) fun _ _ same => ?_,
      (fun _ _ r => nomatch r), rfl, rfl, rfl⟩
    exact .instr (same.trans phase) rfl rfl nofun
  · cases StackOp.ofOperator? op with
    | none => exact .throw
    | some o => exact .instr phase rfl rfl nofun

theorem plain_returnValue : Plain S returnValue g :=
  .requireMethod_bind fun phase => .check_bind checks_currentMethod fun _ _ =>
    .guard (.instr phase rfl rfl nofun)

theorem plain_returnVoid : Plain S returnVoid g :=
  .requireMethod_bind fun phase => .check_bind checks_currentMethod fun _ _ =>
    .guard (.instr phase rfl rfl nofun)

theorem plain_invoke (f : Option Signature) (given : Int) : Plain S (invoke f given) g := by
  refine .requireMethod_bind fun phase => ?_
  cases f with
  | none => exact .throw
  | some f =>
    exact .guard <| .check_bind checks_requireSignature fun _ _ =>
      .instr phase rfl rfl nofun

/-! ## Steps of several parts -/

theorem inner_relation (op : Operator) : Inner S (relation op) g := by
  have push (b : Bool) (g : Generator) : Inner S (loadBool b) g :=
    (plain_instr rfl rfl rfl).toInner
  refine .requireMethod_bind fun phase => ?_
  cases Cond.ofOperator? op with
  | none => exact .throw
  | some c =>
    refine .bind inner_reserve fun ls _ same => ?_
    split
    · exact .bind (.instr (same.trans phase) rfl rfl nofun) fun _ _ _ =>
        .bind inner_branch fun _ _ _ => .bind (push false _) fun _ _ _ =>
        .bind inner_goto fun _ _ _ => .bind inner_define fun _ _ _ =>
        .bind (push true _) fun _ _ _ => inner_define
    · exact .pure

theorem inner_ifBegin : Inner S ifBegin g := by
  refine .check_bind checks_requirePhase fun _ _ => .bind inner_reserve fun ls _ _ => ?_
  split
  · refine .bind inner_branch fun _ g₂ _ => .get_bind (fun _ => rfl) ?_
    exact .bind (.note fun _ => ⟨rfl, rfl⟩) fun _ _ _ => .pure
  · exact .pure

theorem inner_setIf {id : Option Nat} {b : IfBlock} : Inner S (setIf id b) g :=
  .note fun _ => ⟨rfl, rfl⟩

theorem inner_setLoop {id : Option Nat} {l : Loop} : Inner S (setLoop id l) g :=
  .note fun _ => ⟨rfl, rfl⟩

theorem inner_otherwise {id : Option Nat} : Inner S (otherwise id) g := by
  refine .check_bind checks_ifBlock? fun block _ => ?_
  cases block with
  | none => exact .throw
  | some b =>
    refine .guard <| .check_bind checks_requirePhase fun _ _ => .get_bind (fun _ => rfl) ?_
    split
    · exact .bind inner_setIf fun _ _ _ => inner_define
    · refine .bind inner_reserve fun ls _ _ => ?_
      split
      · exact .bind inner_setIf fun _ _ _ => .bind inner_goto fun _ _ _ =>
          inner_define
      · exact .pure

theorem inner_ifEnd {id : Option Nat} : Inner S (ifEnd id) g := by
  refine .check_bind checks_ifBlock? fun block _ => ?_
  cases block with
  | none => exact .throw
  | some b =>
    refine .guard <| .bind inner_setIf fun _ _ _ => ?_
    split
    · cases b.join with
      | none => exact .pure
      | some join => exact inner_define
    · exact inner_define

theorem inner_loopBegin : Inner S loopBegin g := by
  refine .check_bind checks_requirePhase fun _ _ => .bind inner_reserve fun ls _ _ => ?_
  split
  · refine .bind inner_define fun _ g₂ _ => .get_bind (fun _ => rfl) ?_
    exact .bind (.note fun _ => ⟨rfl, rfl⟩) fun _ _ _ => .pure
  · exact .pure

theorem inner_loopTest (id : Option Nat) : Inner S (loopTest id) g := by
  refine .check_bind checks_loop? fun entry _ => ?_
  cases entry with
  | none => exact .throw
  | some l => exact .guard <| .bind inner_setLoop fun _ _ _ => inner_branch

theorem inner_loopEnd {id : Option Nat} : Inner S (loopEnd id) g := by
  refine .check_bind checks_loop? fun entry _ => ?_
  cases entry with
  | none => exact .throw
  | some l =>
    exact .guard <| .bind inner_setLoop fun _ _ _ => .bind inner_goto fun _ _ _ =>
      inner_define

theorem inner_branchCode {code : Nat} (l : Label) : Inner S (branchCode code l) g := by
  unfold branchCode
  cases Cond.ofCode? code with
  | none => exact .throw
  | some c => exact .bind inner_branch fun _ _ _ => .pure

end Emit

/-! ## Calls -/

/-- What a call is in the order of calls. -/
inductive Role where
  | programBegin
  | programEnd
  | field
  | methodBegin
  | methodEnd
  | printBegin
  | printEnd
  /-- Anything else inside of a method. -/
  | plain
  deriving DecidableEq

def Call.role : Call → Role
  | .programStart => .programBegin
  | .programEnd => .programEnd
  | .declareGlobal .. | .declareGlobalInit .. => .field
  | .beginFunction _ | .beginMain => .methodBegin
  | .endFunction | .endMain => .methodEnd
  | .printBegin => .printBegin
  | .printEnd .. => .printEnd
  | _ => .plain

open Emit in
theorem Call.inner {c : Call} (h : c.role = .plain) (g : Generator) :
    Inner (fun _ => True) c.perform g := by
  have plain {m : Emit Unit} (h : Plain (fun _ => True) m g) :
      Inner (fun _ => True) (m *> pure Reply.done) g := .seqRight h.toInner
  cases c with
  | programStart | programEnd | declareGlobal | declareGlobalInit | printBegin | printEnd
  | beginFunction | endFunction | beginMain | endMain => cases h
  | loadLocal slot => exact plain (plain_loadLocal trivial)
  | storeLocal slot => exact plain (plain_storeLocal trivial)
  | load id loc => exact plain (plain_load (.inr trivial))
  | store id loc => exact plain (plain_store (.inr trivial))
  | loadInt n => exact plain plain_loadInt
  | loadConst v => exact plain (plain_loadConst v)
  | operation op => exact plain (plain_operation op)
  | relation op => exact .seqRight (inner_relation op)
  | returnValue => exact plain plain_returnValue
  | returnVoid => exact plain plain_returnVoid
  | invoke f given => exact plain (plain_invoke f given)
  | reserve n => exact .map inner_reserve
  | define l => exact .seqRight inner_define
  | goto l => exact .seqRight inner_goto
  | branch code l => exact .map (inner_branchCode l)
  | ifBegin => exact .map inner_ifBegin
  | otherwise id => exact .seqRight inner_otherwise
  | ifEnd id => exact .seqRight inner_ifEnd
  | loopBegin => exact .map inner_loopBegin
  | loopTest id => exact .seqRight (inner_loopTest id)
  | loopEnd id => exact .seqRight inner_loopEnd
  | _ => exact plain (plain_instr rfl rfl rfl)

open Emit in
theorem Call.traced (c : Call) (g : Generator) : Traced (fun _ => True) c.perform g := by
  cases c with
  | programStart =>
    exact .seqRight (.of_part atomic_programStart fun _ _ w => ⟨_, .programStart w⟩)
  | programEnd => exact .seqRight (.of_part atomic_programEnd fun _ _ w => ⟨_, .programEnd w⟩)
  | declareGlobal id kind =>
    refine .seqRight (.of_part (atomic_declareGlobal id kind) fun _ _ w => ?_)
    obtain ⟨phase, -, rfl⟩ := writes_declareGlobal.mp w
    exact ⟨none, .field id none phase⟩
  | declareGlobalInit id v =>
    refine .seqRight (.of_part (atomic_declareGlobalInit id v) fun _ _ w => ?_)
    obtain ⟨phase, -, n, -, rfl⟩ := writes_declareGlobalInit.mp w
    exact ⟨none, .field id (some n) phase⟩
  | printBegin => exact .seqRight (.of_part atomic_printBegin fun _ _ w => ⟨_, .printBegin w⟩)
  | printEnd kind newline =>
    exact .seqRight (.of_part (atomic_printEnd kind newline) fun _ _ w => ⟨_, .printEnd w⟩)
  | beginFunction f =>
    exact .seqRight (.of_part atomic_beginFunction fun _ _ w => ⟨_, .beginFunction w⟩)
  | endFunction => exact .seqRight (.of_part atomic_endFunction fun _ _ w => ⟨_, .endFunction w⟩)
  | beginMain => exact .seqRight (.of_part atomic_beginMain fun _ _ w => ⟨_, .beginMain w⟩)
  | endMain =>
    refine .seqRight (.of_part atomic_endMain fun _ _ w => ?_)
    exact ⟨_, .endFunction (writes_endMain.mp w).2⟩
  | _ => exact (Call.inner rfl g).toTraced

/-! ## Runs -/

/-- Something a client can do with a program: call a step, or close the program, where the text may
turn out impossible to hand on for a reason. -/
inductive Action where
  | call (c : Call)
  | close (broken : Option String)

namespace Generator

/-- The program after an action, whether it succeeds or fails. -/
def act (g : Generator) : Action → Generator
  | .call c => (g.step c).2
  | .close broken => (g.close broken).2

/-- What happened to labels while a client did some things one after the other. The history of each
action leads from the program it met to the program it left. -/
inductive Ran (g : Generator) : List Action → List Event → Generator → Prop where
  | nil : Ran g [] [] g
  | snoc {as : List Action} {es es' : List Event} {g₁ : Generator} {a : Action} :
      Ran g as es g₁ → History g₁ es' (g₁.act a) → Ran g (as ++ [a]) (es ++ es') (g₁.act a)

/-- Every action is a chain of parts. -/
theorem history_act (g : Generator) (a : Action) : ∃ es, History g es (g.act a) := by
  cases a with
  | call c => exact (c.traced g).history
  | close broken => exact ⟨[], .one (.close broken)⟩

theorem exists_ran {g : Generator} {as : List Action} : ∃ es, Ran g as es (as.foldl act g) := by
  induction as using List.reverseRecOn with
  | nil => exact ⟨[], .nil⟩
  | append_singleton as a ih =>
    obtain ⟨es, ran⟩ := ih
    obtain ⟨es', history⟩ := history_act (as.foldl act g) a
    rw [List.foldl_append]
    exact ⟨es ++ es', .snoc ran history⟩

theorem Ran.history {g g' : Generator} {as : List Action} {es : List Event}
    (h : Ran g as es g') : History g es g' := by
  induction h with
  | nil => exact .refl
  | snoc _ last ih => exact ih.trans last

end Generator

end Jasm.Assembly

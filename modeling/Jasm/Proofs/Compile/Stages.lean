import Jasm.Proofs.Assembly.History
import Jasm.Proofs.Compile.Safety
import Jasm.Proofs.Compile.Statements
import Jasm.Proofs.Compile.Storage

/-!
# What the parts of a walk do to a frame

A part of a walk writes some lines, and it may open or close a scope or declare something. `Stage`
keeps together what matters of this for the slots of a frame: how the scopes change, which slots
the new lines access, and that as long as no error is reported the slots in use stay below the limit
and what is declared stays in stock.
Parts that leave the scopes alone can be put together with any other part.
-/

namespace Jasm

open Program.Declaration List
open Program (Expr)

namespace Program

def Declaration.name : Declaration → String
  | .variable name .. | .constant name .. | .array name .. => name

def Declaration.Introduces : Declaration → Symbol → Prop
  | .variable name kind _, x => x = .newVariable name kind
  | .constant name kind _, x => ∃ v, x = .constant name v ∧ v.isInit ∧ ∀ k ∈ kind, k = v.kind
  | .array name kind length values, x => ∃ a₀ a, x = .array a ∧
    ArrayVar.new name kind length = .ok a₀ ∧ Compile.Walk.fillArray a₀ 0 values = .ok a

theorem Declaration.Introduces.name_eq {d : Declaration} {x : Symbol} (h : d.Introduces x) :
    x.name = d.name := by
  cases d with
  | «variable» name kind init =>
    rw [show x = .newVariable name kind from h]
    rfl
  | constant name kind init =>
    obtain ⟨v, rfl, -, -⟩ := h
    rfl
  | array name kind length values =>
    obtain ⟨a₀, a, rfl, new, filled⟩ := h
    exact (Compile.name_of_fillArray filled).trans (ArrayVar.name_of_new new)

end Program

namespace Compile

open Assembly Scopes Emit

variable {α β : Type} {P : Symbol → Prop} {Γ Γ' : Scopes} {S : Nat → Prop} {c : State} {x : Symbol}
  {slot : Option Nat}

/-! ## Runs -/

/-- At the end of a step `Q` holds of what it gives and of the state behind it. -/
def Leads (m : Walk α) (c : State) (Q : α → State → Prop) : Prop := Q (m.run c).1 (m.run c).2

namespace Leads

variable {m m' : Walk α} {k : α → Walk β} {c : State} {Q Q' : α → State → Prop}
  {R : β → State → Prop}

theorem mono (h : Leads m c Q) (weaker : ∀ a c', Q a c' → Q' a c') : Leads m c Q' := weaker _ _ h

theorem pure {a : α} (h : Q a c) : Leads (pure a) c Q := h

theorem bind (first : Leads m c Q) (second : ∀ a c₁, Q a c₁ → Leads (k a) c₁ R) :
    Leads (m >>= k) c R := second _ _ first

theorem get_bind {k : State → Walk β} (h : Leads (k c) c R) :
    Leads ((MonadState.get : Walk State) >>= k) c R := h

theorem ite {p : Prop} [Decidable p] (yes : p → Leads m c Q) (no : ¬ p → Leads m' c Q) :
    Leads (if p then m else m') c Q := by
  split
  · next h => exact yes h
  · next h => exact no h

theorem of_asked {m : Walk (Option α)} {P : α → Prop} (h : Safe m c (Walk.Asked c P)) :
    Leads m c (Walk.Asked c P) := by
  obtain ⟨a, c', run, c₁, r, rfl, same, answer⟩ := h.run
  unfold Leads
  rw [run]
  exact ⟨⟨same.stack, same.bases, same.assigned, same.function, same.generator, same.polls,
    same.failed⟩, answer⟩

theorem ask {m : Walk (Option α)} {P : α → Prop} {k : Option α → Walk β}
    (asked : Safe m c (Walk.Asked c P)) (none : ∀ c₁, c.Same c₁ → Leads (k none) c₁ R)
    (some : ∀ a c₁, c.Same c₁ → P a → Leads (k (some a)) c₁ R) : Leads (m >>= k) c R := by
  refine .bind (.of_asked asked) fun r c₁ asked => ?_
  cases r with
  | none => exact none c₁ asked.1
  | some a => exact some a c₁ asked.1 (asked.2 a rfl)

end Leads

/-! ## Stages -/

/-- As long as no error is reported, the slots in use are below the limit. -/
def State.Room (limit : Int) (c : State) : Prop :=
  c.failed = false → ∀ n < slotsIn c.stack.inner, (n : Int) < limit

/-- The scopes change as `M` tells, and the lines that are written access only slots in `S`. -/
structure Stage (limit : Int) (A : Stock) (S : Nat → Prop) (M : Scopes → Scopes → Prop)
    (c c' : State) : Prop where
  scopes : M c.scopes c'.scopes
  room : c.Room limit → c'.Room limit
  stocked : c.Stocked A → c'.Stocked A
  failed : c'.failed = false → c.failed = false
  grown : c'.failed = false → Generator.Grown S c.generator c'.generator

abbrev Still (limit : Int) (A : Stock) (S : Nat → Prop) : State → State → Prop :=
  Stage limit A S fun Γ Γ' => Γ' = Γ

abbrev Opens (limit : Int) (A : Stock) (S : Nat → Prop) (method : Bool) : State → State → Prop :=
  Stage limit A S fun Γ Γ' => Γ' = Γ.enter method

abbrev Closes (limit : Int) (A : Stock) (S : Nat → Prop) : State → State → Prop :=
  Stage limit A S fun Γ Γ' => Γ' = Γ.leave

/-- At most one symbol is declared. -/
def Scopes.Inserts (Γ Γ' : Scopes) : Prop := Γ' = Γ ∨ ∃ s slot, Γ.insert? s = some (slot, Γ')

/-- The scopes change by one symbol of a sort at most. -/
def Scopes.Gains (P : Symbol → Prop) (Γ Γ' : Scopes) : Prop :=
  Γ' = Γ ∨ ∃ x slot, P x ∧ Γ.insert? x = some (slot, Γ')

theorem Scopes.Gains.inserts (h : Γ.Gains P Γ') :
    Γ.Inserts Γ' := by
  rcases h with same | ⟨x, slot, -, inserted⟩
  · exact .inl same
  · exact .inr ⟨x, slot, inserted⟩

theorem Scopes.Gains.declares (h : Γ.Gains P Γ') (inner : Γ.stack.inner ≠ []) : Γ.Declares Γ' := by
  rcases h with rfl | ⟨x, slot, -, inserted⟩
  · exact .refl inner
  · exact declares_of_insert? inner inserted

theorem Scopes.Inserts.moves (h : Γ.Inserts Γ') : Γ.Moves Γ' := by
  rcases h with rfl | ⟨s, slot, h⟩
  · exact .same
  · exact .insert s h

namespace Stage

variable {limit : Int} {A : Stock} {S S' : Nat → Prop} {M M' : Scopes → Scopes → Prop}
  {c c₁ c₂ : State}

theorem mono (h : Stage limit A S M c c₁) (slots : ∀ n, S n → S' n)
    (scopes : M' c.scopes c₁.scopes) : Stage limit A S' M' c c₁ :=
  ⟨scopes, h.room, h.stocked, h.failed, fun hf => (h.grown hf).mono slots⟩

theorem after_still (first : Still limit A S c c₁) (second : Stage limit A S M c₁ c₂) :
    Stage limit A S M c c₂ where
  scopes := first.scopes ▸ second.scopes
  room h := second.room (first.room h)
  stocked h := second.stocked (first.stocked h)
  failed h := first.failed (second.failed h)
  grown h := (first.grown (second.failed h)).trans (second.grown h)

theorem then_still (first : Stage limit A S M c c₁) (second : Still limit A S c₁ c₂) :
    Stage limit A S M c c₂ where
  scopes := second.scopes ▸ first.scopes
  room h := second.room (first.room h)
  stocked h := second.stocked (first.stocked h)
  failed h := first.failed (second.failed h)
  grown h := (first.grown (second.failed h)).trans (second.grown h)

theorem silent (scopes : M c.scopes c₁.scopes) (room : c.Room limit → c₁.Room limit)
    (stocked : c.Stocked A → c₁.Stocked A) (failed : c₁.failed = false → c.failed = false)
    (generator : c₁.generator = c.generator) : Stage limit A S M c c₁ :=
  ⟨scopes, room, stocked, failed, fun _ => .of_lines (by rw [generator])⟩

end Stage

theorem Stage.inserts {limit : Int} {A : Stock} {c₁ : State}
    (h : Stage limit A S (Gains P) c c₁) : Stage limit A S Inserts c c₁ :=
  h.mono (fun _ => id) h.scopes.inserts

namespace Still

variable {limit : Int} {A : Stock} {S : Nat → Prop} {c c₁ c₂ : State}

theorem intro (stack : c₁.stack = c.stack) (bases : c₁.bases = c.bases)
    (failed : c₁.failed = false → c.failed = false)
    (grown : c₁.failed = false → Generator.Grown S c.generator c₁.generator) :
    Still limit A S c c₁ where
  scopes := by rw [State.scopes, State.scopes, stack, bases]
  room h hf := by
    rw [stack]
    exact h (failed hf)
  stocked h hf := by
    rw [State.scopes, stack, bases]
    exact h (failed hf)
  failed := failed
  grown := grown

theorem of_eq (stack : c₁.stack = c.stack) (bases : c₁.bases = c.bases)
    (failed : c₁.failed = c.failed) (generator : c₁.generator = c.generator) :
    Still limit A S c c₁ :=
  intro stack bases (fun h => failed ▸ h) fun _ => .of_lines (by rw [generator])

theorem refl (c : State) : Still limit A S c c := of_eq rfl rfl rfl rfl

theorem of_same (h : c.Same c₁) : Still limit A S c c₁ :=
  intro h.stack h.bases h.failed fun _ => .of_lines (by rw [h.generator])

theorem trans (first : Still limit A S c c₁) (second : Still limit A S c₁ c₂) :
    Still limit A S c c₂ := Stage.after_still first second

theorem stack_eq (h : Still limit A S c c₁) : c₁.stack = c.stack := congrArg Scopes.stack h.scopes

theorem gains (h : Still limit A S c c₁) (P : Symbol → Prop) : Stage limit A S (Gains P) c c₁ :=
  h.mono (fun _ => id) (.inl h.scopes)

theorem inserts (h : Still limit A S c c₁) : Stage limit A S Inserts c c₁ :=
  (h.gains fun _ => True).inserts

end Still

/-! ## Where names live -/

/-- The variables that can be seen are global or live in these slots. -/
def State.LivesIn (S : Nat → Prop) (c : State) : Prop :=
  ∀ l, c.Locates l → l.isGlobal ∨ S l.slot.toNat

theorem State.livesIn_all (c : State) : c.LivesIn fun _ => True := fun _ _ => .inr trivial

theorem State.LivesIn.of_scopes {c₁ : State} (lives : c.LivesIn S) (same : c₁.scopes = c.scopes) :
    c₁.LivesIn S := by
  have stack : c₁.stack = c.stack := congrArg Scopes.stack same
  have bases : c₁.bases = c.bases := congrArg Scopes.bases same
  intro l located
  apply lives l
  unfold Locates location base at located ⊢
  rwa [stack, bases] at located

theorem State.LivesIn.accessed (lives : c.LivesIn S) {name id : String} {v : Value} {depth : Nat}
    {e : Entry Symbol} (found : c.stack.find? name = some (depth, e))
    (item : e.item = .variable id v) (depth' : Nat) (e' : Entry Symbol)
    (found' : c.stack.find? name = some (depth', e')) :
    (c.location depth' e').isGlobal ∨ S (c.location depth' e').slot.toNat := by
  cases Option.some.inj (found.symm.trans found')
  exact lives _ ⟨name, depth, e, id, v, found, item, rfl⟩

namespace Scopes.Laid

variable {c : State}

theorem form_eq (laid : c.scopes.Laid) {name : String} {depth : Nat} {e : Entry Symbol}
    (found : c.stack.find? name = some (depth, e)) : e.form = e.item.form := by
  rcases findIn_eq_some found with ⟨-, he⟩ | ⟨front, s, rest, inner, -, he, -⟩
  · exact laid.global.form name e he
  · exact (laid.inner s (by simp [State.scopes, inner])).form name e he

theorem livesIn (laid : c.scopes.Laid) : c.LivesIn (· < slotsIn c.stack.inner) := by
  rintro l ⟨name, depth, e, id, v, found, item, rfl⟩
  have form : e.form = .variable := by
    rw [laid.form_eq found, item]
    rfl
  by_cases hd : depth = 0
  · left
    simp [State.location, Stack.locationOf, form, hd, Location.isGlobal]
  · right
    obtain ⟨n, location, lookup⟩ := laid.location_eq found hd form
    have live : n ∈ c.locals.map Prod.snd := by
      obtain ⟨before, behind, split, -⟩ := lookup_eq_some_iff.mp lookup
      have mem : (name, n) ∈ c.locals.reverse := by simp [split]
      exact mem_map.mpr ⟨(name, n), mem_reverse.mp mem, rfl⟩
    rw [laid.map_locals, mem_range] at live
    rw [location]
    simpa [Location.slot] using live

end Scopes.Laid

mutual

theorem Typed.accesses_emit {L : Location → Prop} {S : Nat → Prop}
    (h : ∀ l, L l → l.isGlobal ∨ S l.slot.toNat) :
    (t : Typed) → t.Fits L → Accesses S t.emit
  | .constant v, _ => by
    rw [Typed.emit]
    exact .of_plain fun _ => plain_loadConst v
  | .variable name _ l, fits => by
    rw [Typed.emit]
    exact .of_plain fun _ => plain_load (h l fits)
  | .unary op _ e, fits => by
    rw [Typed.emit]
    exact .bind (e.accesses_emit h (by simpa only [Typed.Fits] using fits)) fun _ =>
      .of_plain fun _ => plain_operation op
  | .binary op _ l r, fits => by
    rw [Typed.emit]
    simp only [Typed.Fits] at fits
    exact .bind (l.accesses_emit h fits.1) fun _ => .bind (r.accesses_emit h fits.2) fun _ =>
      .ite (.of_inner fun _ => inner_relation op) (.of_plain fun _ => plain_operation op)
  | .call f args, fits => by
    rw [Typed.emit]
    simp only [Typed.Fits] at fits
    exact .bind (accesses_emitArgs h args fits.2) fun _ => .of_plain fun _ => plain_invoke _ _

theorem accesses_emitArgs {L : Location → Prop} {S : Nat → Prop}
    (h : ∀ l, L l → l.isGlobal ∨ S l.slot.toNat) :
    (args : List Typed) → FitAll L args → Accesses S (emitArgs args)
  | [], _ => by
    rw [emitArgs]
    exact .pure _
  | t :: rest, fits => by
    rw [emitArgs]
    simp only [FitAll] at fits
    exact .bind (t.accesses_emit h fits.1) fun _ => accesses_emitArgs h rest fits.2

end

namespace Walk

variable {cfg : Config} {pos : Position} {c : State} {A : Stock} {S : Nat → Prop} {step : Emit α}
  {c₁ : State}

/-! ## Single steps -/

theorem leads_error {code : Code} {message : String} :
    Leads (error cfg code pos message) c fun _ => Still cfg.maxLocals A S c :=
  Still.intro rfl rfl (fun h => by cases h) fun h => by cases h

theorem leads_emit (h : Accesses S step) :
    Leads (emit cfg pos step) c fun _ => Still cfg.maxLocals A S c := by
  unfold Leads
  cases hf : c.failed with
  | true =>
    rw [run_emit_of_failed cfg pos step hf]
    exact .refl c
  | false =>
    rcases writes_or_refused step c.generator with ⟨a, w⟩ | ⟨f, refused⟩
    · rw [run_emit_of_writes cfg hf w]
      exact .intro rfl rfl (fun _ => hf) fun _ => by
        have grown := (h c.generator).grown
        rwa [w] at grown
    · rw [run_emit_of_refused cfg hf refused]
      exact .intro rfl rfl (fun _ => hf) fun h => by cases h

theorem leads_emit_of_still (still : Still cfg.maxLocals A S c c₁) (h : Accesses S step) :
    Leads (do let _ ← emit cfg pos step) c₁ fun _ => Still cfg.maxLocals A S c :=
  .bind (leads_emit h) fun _ _ written => .pure (still.trans written)

theorem leads_error_of_still {code : Code} {message : String}
    (still : Still cfg.maxLocals A S c c₁) :
    Leads (error cfg code pos message) c₁ fun _ => Still cfg.maxLocals A S c :=
  leads_error.mono fun _ _ => still.trans

variable (cfg) in
theorem leads_enter (method : Bool) :
    Leads (enter method) c fun _ => Opens cfg.maxLocals A S method c :=
  .silent rfl (fun h hf n hn => h hf n (Nat.lt_of_lt_of_eq hn (Nat.zero_add _)))
    (fun h hf => (h hf).enter method) id rfl

theorem leads_leave (inside : c.stack.inner ≠ []) :
    Leads (leave cfg pos) c fun _ => Closes cfg.maxLocals A S c := by
  unfold Leads
  rw [run_leave]
  unfold Stack.leave
  cases hi : c.stack.inner with
  | nil => exact absurd hi inside
  | cons s rest =>
    refine .silent (by simp [State.scopes, Scopes.leave, hi]) (fun h hf n hn => ?_)
      (fun h hf => ?_) id rfl
    · have lt : n < slotsIn rest := hn
      refine h hf n ?_
      rw [hi, slotsIn]
      omega
    · have left := (h hf).leave
      simpa [State.scopes, Scopes.leave, hi] using left

variable (cfg) in
theorem leads_markAssigned (depth : Nat) (name : String) :
    Leads (markAssigned depth name) c fun _ => Still cfg.maxLocals A S c := .of_eq rfl rfl rfl rfl

variable (cfg) in
theorem leads_markTopAssigned (name : String) :
    Leads (markTopAssigned name) c fun _ => Still cfg.maxLocals A S c := .of_eq rfl rfl rfl rfl

variable (cfg) in
theorem leads_allocate (length : Nat) :
    Leads (allocate length) c fun _ => Still cfg.maxLocals A S c := .of_eq rfl rfl rfl rfl

variable (cfg) in
theorem leads_poll : Leads poll c fun _ => Still cfg.maxLocals A S c := by
  unfold Leads
  rw [run_poll]
  rcases c.polls with _ | _ | n <;> exact .of_eq rfl rfl rfl rfl

/-! ## Declarations -/

variable (cfg pos) in
theorem leads_insert (s : Symbol) :
    Leads (insert cfg pos s) c fun r c' =>
      (r = none ∧ c'.failed ∧ Still cfg.maxLocals A S c c') ∨
      ∃ slot, r = some slot ∧ c.scopes.insert? s = some (slot, c'.scopes) ∧
        c'.failed = c.failed ∧ c'.generator = c.generator := by
  unfold Leads
  rw [run_insert]
  rcases h : c.stack.insert (some s.declaration) with f | ⟨slot, stack⟩
  · exact .inl ⟨rfl, rfl, leads_error⟩
  · exact .inr ⟨slot, rfl, by simp [insert?, State.scopes, h], rfl, rfl⟩

end Walk

theorem slots_of_insert? (h : Γ.insert? x = some (slot, Γ')) :
    slotsIn Γ'.stack.inner = slotsIn Γ.stack.inner +
      if Γ.stack.inner ≠ [] ∧ x.form = .variable then 1 else 0 := by
  obtain ⟨-, hslot, rfl⟩ := insert?_eq_some h
  have slots := Scope.slots_push (d := x.declaration) hslot
  obtain ⟨⟨_ | ⟨s, rest⟩, global⟩, bases⟩ := Γ
  · simp [Stack.setTop, slotsIn]
  · have slots : (s.push x.declaration slot).slots = s.slots + if x.form =
      .variable then 1 else 0 :=
      slots
    simp only [Stack.top, Stack.setTop, headD_cons, slotsIn, slots, ne_eq, reduceCtorEq,
      not_false_eq_true, true_and]
    omega

theorem Scopes.Laid.insert_local (laid : Γ.Laid) (inside : Γ.stack.inner ≠ [])
    (form : x.form = .variable) (h : Γ.insert? x = some (slot, Γ')) :
    Γ'.bases.headD 0 + slot.getD 0 = slotsIn Γ.stack.inner ∧
      localsIn Γ'.stack.inner = localsIn Γ.stack.inner ++ [(x.name, slotsIn Γ.stack.inner)] := by
  obtain ⟨new, hslot, rfl⟩ := insert?_eq_some h
  obtain ⟨⟨_ | ⟨s, rest⟩, global⟩, bases⟩ := Γ
  · exact absurd rfl inside
  · have ownSlot : slot = some s.slots := hslot.trans (if_pos form)
    subst ownSlot
    have own := Scope.frameVars_push (d := x.declaration) (some s.slots)
      (laid.inner s mem_cons_self) new (slotsIn rest)
    rw [if_pos (show x.declaration.form = .variable from form)] at own
    refine ⟨by simp [show bases = _ from laid.bases, basesOf, slotsIn, Nat.add_comm], ?_⟩
    simp only [Stack.setTop, Stack.top, headD_cons, localsIn, own, slotsIn,
      Option.getD_some, append_assoc, Nat.add_comm s.slots]
    rfl

namespace Walk

variable {cfg : Config} {pos : Position} {c c₁ : State} {A : Stock} {S : Nat → Prop} {kind : Kind}
  {name : String} {step : Emit α}

variable (cfg pos) in
theorem leads_insert_other {P : Symbol → Prop} {x : Symbol} (hx : P x) (sort : A.sort x)
    (other : c.stack.inner = [] ∨ x.form ≠ .variable) :
    Leads (insert cfg pos x) c fun _ => Stage cfg.maxLocals A S (Gains P) c := by
  refine (leads_insert cfg pos x (A := A) (S := S)).mono fun r c' h => ?_
  rcases h with ⟨-, -, still⟩ | ⟨slot, -, inserted, failed, generator⟩
  · exact still.gains P
  · refine .silent (.inr ⟨x, slot, hx, inserted⟩) (fun h hf n hn => ?_)
      (fun h hf => (h (failed ▸ hf)).insert? sort inserted) (fun h => failed ▸ h) generator
    have slots : slotsIn c'.stack.inner = slotsIn c.stack.inner := by
      have := slots_of_insert? inserted
      rwa [if_neg (fun both => other.elim both.1 fun h => h both.2)] at this
    exact h (failed ▸ hf) n (slots ▸ hn)

variable (cfg pos) in
theorem leads_insertLocal (laid : c.scopes.Laid) (inside : c.stack.inner ≠ []) (name : String)
    (storable : c.failed = false → isStorable kind) :
    Leads (insertLocal cfg pos name kind) c fun r c' =>
      Stage cfg.maxLocals A S Inserts c c' ∧
      (r = true → ∃ depth e, c'.stack.find? name = some (depth, e) ∧
        e.item = .newVariable name kind) ∧
      (c'.failed = false → localsIn c'.stack.inner =
        localsIn c.stack.inner ++ [(name, slotsIn c.stack.inner)]) := by
  refine .bind (leads_insert cfg pos (.newVariable name kind) (A := A) (S := S)) fun r c₁ h => ?_
  rcases h with ⟨rfl, failed, still⟩ | ⟨slot, rfl, inserted, failed, generator⟩
  · exact .pure ⟨still.inserts, by simp, fun h => absurd (failed.symm.trans h) (by simp)⟩
  · obtain ⟨next, locals⟩ := laid.insert_local inside rfl inserted
    have slots := slots_of_insert? inserted
    rw [if_pos ⟨inside, rfl⟩] at slots
    have declared : Inserts c.scopes c₁.scopes := .inr ⟨_, slot, inserted⟩
    refine .get_bind (.ite (fun fits => .pure ⟨?_, ?_, fun _ => locals⟩) fun _ => ?_)
    · refine .silent declared (fun h hf n hn => ?_) (fun h hf => ?_) (fun h => failed ▸ h) generator
      · have frame : (slotsIn c.stack.inner : Int) < cfg.maxLocals := by
          have frame : ((c₁.bases.headD 0 + slot.getD 0 : Nat) : Int) < cfg.maxLocals := by
            exact_mod_cast fits
          rwa [show c₁.bases.headD 0 + slot.getD 0 = slotsIn c.stack.inner from next] at frame
        have : n < slotsIn c.stack.inner + 1 := slots ▸ hn
        omega
      · have fine : c.failed = false := failed ▸ hf
        exact (h fine).insert? (A.storable (.newVariable name kind) (storable fine)) inserted
    · obtain ⟨depth, found⟩ := find?_of_insert? inserted
      exact fun _ => ⟨depth, _, found, rfl⟩
    · exact ⟨.silent declared (fun _ h => by cases h) (fun _ h => by cases h) (fun h => by cases h)
        generator, by simp, fun h => by cases h⟩

/-! ## Simple statements -/

theorem accesses_of_fits (lives : c.LivesIn S) {t : Typed} (fits : t.Fits c.Locates) :
    Accesses S t.emit := t.accesses_emit lives fits

theorem leads_condition (lives : c.LivesIn S) (e : Expr) :
    Leads (condition cfg pos e) c fun _ => Still cfg.maxLocals A S c := by
  refine .ask (safe_typeExpr e c) (fun _ same => .pure (.of_same same)) ?_
  intro t c₁ same fits
  refine .ite (fun _ => leads_error_of_still (.of_same same)) fun _ => ?_
  exact leads_emit_of_still (.of_same same) (accesses_of_fits lives fits)

theorem leads_print (lives : c.LivesIn S) (newline : Bool) (e : Expr) :
    Leads (print cfg pos newline e) c fun _ => Still cfg.maxLocals A S c := by
  refine .ask (safe_typeExpr e c) (fun _ same => .pure (.of_same same)) ?_
  intro t c₁ same fits
  refine leads_emit_of_still (.of_same same) (.bind atomic_printBegin.accesses ?_)
  exact fun _ => .bind (accesses_of_fits lives fits) fun _ => (atomic_printEnd _ _).accesses

theorem leads_ret (lives : c.LivesIn S) (e : Option Expr) :
    Leads (ret cfg pos e) c fun _ => Still cfg.maxLocals A S c := by
  refine .get_bind ?_
  cases c.function with
  | none =>
    refine .ite (fun _ => leads_error) fun _ => ?_
    exact leads_emit_of_still (.refl c) (.of_plain fun _ => plain_returnVoid)
  | some f =>
    show Leads (returnFrom cfg pos f e) c _
    unfold returnFrom
    rcases f.result? with _ | want <;> rcases e with _ | e
    · exact leads_emit_of_still (.refl c) (.of_plain fun _ => plain_returnVoid)
    · exact leads_error
    · exact leads_error
    · refine .ask (safe_typeExpr e c) (fun _ same => .pure (.of_same same)) ?_
      intro t c₁ same fits
      refine .ite (fun _ => leads_error_of_still (.of_same same)) fun _ => ?_
      exact leads_emit_of_still (.of_same same)
        (.bind (accesses_of_fits lives fits) fun _ => .of_plain fun _ => plain_returnValue)

theorem leads_call (lives : c.LivesIn S) (name : String) (args : List Expr) :
    Leads (call cfg pos name args) c fun _ => Still cfg.maxLocals A S c := by
  refine .ask (safe_typeCall args) (fun _ same => .pure (.of_same same)) ?_
  intro typed c₁ same fits
  refine leads_emit_of_still (.of_same same) ?_
  refine .bind (accesses_emitArgs lives typed.2 fits.2) fun _ => ?_
  exact .bind (.of_plain fun _ => plain_invoke _ _) fun _ =>
    .ite (.of_plain fun _ => plain_instr rfl rfl rfl) (.pure _)

theorem leads_store
    (accessed : ∀ depth e, c.stack.find? name = some (depth, e) → (c.location depth e).isGlobal ∨
      S (c.location depth e).slot.toNat) :
    Leads (store cfg pos name) c fun _ => Still cfg.maxLocals A S c := by
  refine .ask safe_find (fun _ same => .pure (.of_same same)) ?_
  rintro ⟨depth, e⟩ c₁ same found
  have located : c₁.location depth e = c.location depth e := by
    simp only [State.location, State.base, same.bases]
  refine .get_bind (leads_emit_of_still (.of_same same) (.of_plain fun _ => ?_))
  rw [located]
  exact plain_store (accessed depth e found)

theorem leads_assign (lives : c.LivesIn S) (name : String) (e : Expr) :
    Leads (assign cfg pos name e) c fun _ => Still cfg.maxLocals A S c := by
  refine .bind (.of_asked (safe_typeExpr e c)) fun r c₁ asked => ?_
  refine .bind (.of_asked safe_findTarget) fun target c₂ asked₂ => ?_
  have still : Still cfg.maxLocals A S c c₂ := .of_same (asked.1.trans asked₂.1)
  rcases r with _ | t
  · exact .pure still
  · rcases target with _ | ⟨depth, kind⟩
    · exact .pure still
    · refine .ite (fun _ => leads_error_of_still still) fun _ => ?_
      have emitted := accesses_of_fits lives (asked.2 t rfl)
      refine .bind ((leads_emit emitted).mono fun _ _ => still.trans) fun _ c₃ still₃ => ?_
      refine .bind ((leads_markAssigned cfg depth name).mono fun _ _ => still₃.trans) ?_
      intro _ c₄ still₄
      obtain ⟨depth', e', id, v, found, item⟩ := asked₂.2 _ rfl
      rw [asked.1.stack, ← still₄.stack_eq] at found
      have accessed := (lives.of_scopes still₄.scopes).accessed found item
      exact (leads_store accessed).mono fun _ _ => still₄.trans

/-! ## Declarations -/

theorem leads_error_gains {P : Symbol → Prop} {code : Code} {message : String}
    (still : Still cfg.maxLocals A S c c₁) :
    Leads (error cfg code pos message) c₁ fun _ => Stage cfg.maxLocals A S (Gains P) c :=
  (leads_error_of_still still).mono fun _ _ still => still.gains P

theorem leads_declareConstant {name : String} {kind : Option Kind} {init : Expr} :
    Leads (declareConstant cfg pos name kind init) c fun _ => Stage cfg.maxLocals A S
      (Gains (constant name kind init).Introduces) c := by
  refine .ask (safe_typeExpr init c)
    (fun _ same => .pure (Still.gains (.of_same same) _)) fun t c₁ same _ => ?_
  have still : Still cfg.maxLocals A S c c₁ := .of_same same
  dsimp only
  cases agrees : kind.filter (· ≠ t.static.kind) with
  | some k => exact leads_error_gains still
  | none =>
    refine .ite (fun _ => leads_error_gains still) fun known => ?_
    have known : t.static.isInit := by simpa using known
    have written : ∀ k ∈ kind, k = t.static.kind := by
      simpa [Option.filter_eq_none_iff] using agrees
    simp only [Symbol.newConstant, known, if_true]
    have introduces : (constant name kind init).Introduces
      (.constant name t.static) := ⟨_, rfl, known, written⟩
    refine .bind (leads_insert_other cfg pos introduces (A.storable _ known)
      (.inr (by simp [Symbol.form]))) fun _ _ inserted => .pure (.after_still still inserted)

theorem leads_declareArray {name : String} {kind : Kind} {length : Nat} {values : List Value} :
    Leads (declareArray cfg pos name kind length values) c fun _ => Stage cfg.maxLocals A S
      (Gains (array name kind length values).Introduces) c := by
  unfold declareArray
  cases new : ArrayVar.new name kind length with
  | error f => exact leads_error_gains (.refl c)
  | ok a =>
    refine .bind (leads_allocate cfg length (A := A) (S := S)) fun _ c₁ still => ?_
    rcases filled : fillArray a 0 values with ⟨i, f⟩ | a'
    · exact leads_error_gains still
    · exact .bind (leads_insert_other cfg pos ⟨a, a', rfl, new, filled⟩ (A.storable _ trivial)
        (.inr (by simp [Symbol.form]))) fun _ _ inserted => .pure (.after_still still inserted)

theorem leads_storeNew {declared : Bool} (lives : c.LivesIn S)
    (found : declared = true → ∃ depth e, c.stack.find? name = some (depth, e) ∧
      e.item = .newVariable name kind) :
    Leads (if declared then do markTopAssigned name; store cfg pos name else pure ()) c
      fun _ => Still cfg.maxLocals A S c := by
  refine .ite (fun new => ?_) fun _ => .pure (.refl c)
  obtain ⟨depth, e, found, item⟩ := found new
  refine .bind (leads_markTopAssigned cfg name (A := A) (S := S)) fun _ c₁ still => ?_
  rw [← still.stack_eq] at found
  have accessed := (lives.of_scopes still.scopes).accessed found item
  exact (leads_store accessed).mono fun _ _ => still.trans

theorem leads_declareGlobal (outside : c.stack.inner = []) (name : String)
    (storable : isStorable kind) (init : Option Typed) :
    Leads (declareGlobal cfg pos name kind init) c fun _ =>
      Stage cfg.maxLocals A S (Gains (· = .newVariable name kind)) c := by
  refine .ite (fun _ => leads_error.mono fun _ _ still => still.gains _) fun _ => ?_
  refine .bind (leads_insert_other cfg pos (P := (· = .newVariable name kind)) rfl
    (A.storable _ storable) (.inl outside) (S := S)) fun r c₁ inserted => ?_
  refine .ite (fun _ => .pure inserted) fun _ => ?_
  refine .bind (leads_markTopAssigned cfg name (A := A) (S := S)) fun _ c₂ still => ?_
  refine .bind (leads_emit (A := A) (S := S) ?_) fun _ _ written =>
    .pure ((inserted.then_still still).then_still written)
  cases init with
  | none => exact (atomic_declareGlobal _ _).accesses
  | some t => exact (atomic_declareGlobalInit _ _).accesses

/-! ## The parts of branches and loops -/

variable (cfg pos) in
theorem leads_openThen (lives : c.LivesIn S) (cond : Expr) :
    Leads (openThen cfg pos cond) c fun _ => Opens cfg.maxLocals A S false c := by
  refine .bind (leads_condition lives cond (A := A)) fun _ c₁ still₁ => ?_
  refine .bind ((leads_emit (.of_inner fun _ => inner_ifBegin)).mono
    fun _ _ => still₁.trans) fun _ c₂ still₂ => ?_
  exact .bind (leads_enter cfg false) fun _ _ entered => .pure (.after_still still₂ entered)

theorem leads_openLoop (lives : c.LivesIn S) (cond : Expr) :
    Leads (openLoop cfg pos cond) c fun _ => Opens cfg.maxLocals A S false c := by
  refine .bind (leads_emit (.of_inner fun _ => inner_loopBegin) (A := A) (S := S)) ?_
  intro id c₁ still₁
  refine .bind ((leads_condition (lives.of_scopes still₁.scopes) cond).mono fun _ _ =>
    still₁.trans) fun _ c₂ still₂ => ?_
  refine .bind ((leads_emit (.of_inner fun _ => inner_loopTest id)).mono fun _ _ =>
    still₂.trans) fun _ c₃ still₃ => ?_
  exact .bind (leads_enter cfg false) fun _ _ entered => .pure (.after_still still₃ entered)

theorem leads_leave_emit (inside : c.stack.inner ≠ []) (h : Accesses S step) :
    Leads (do leave cfg pos; let _ ← emit cfg pos step) c fun _ => Closes cfg.maxLocals A S c :=
  .bind (leads_leave inside) fun _ _ left => .bind (leads_emit h) fun _ _ written =>
    .pure (left.then_still written)

theorem leads_emit_enter (method : Bool) (h : Accesses S step) :
    Leads (do let _ ← emit cfg pos step; enter method) c fun _ =>
      Opens cfg.maxLocals A S method c :=
  .bind (leads_emit h) fun _ _ written =>
    (leads_enter cfg method).mono fun _ _ entered => .after_still written entered

end Walk

end Compile

end Jasm

import Mathlib.Data.List.GetD
import Jasm.Proofs.Compile.LineFeeds
import Jasm.Proofs.Compile.Trails

/-!
# Slots beyond two bytes

A scope numbers its variables by two bytes, but a frame holds the variables of all scopes around a
statement, one behind the other. What bounds the slots of a frame is the number of slots to a frame,
which can be set to any number. So the slots that are accessed fit two bytes in all programs exactly
if no more than 65536 slots to a frame are allowed.

`Draft.crowded n` needs one slot more than its outer scope has variables: it declares `n` variables
in main, and sets one more in a block behind them.
-/

namespace Jasm

open Assembly List

def Assembly.Generator.operands (g : Generator) : List Nat :=
  g.lines.toList.filterMap fun l => l.2.slot?

namespace Draft

/-- Declares a variable that is named by a number. -/
def numbered (k : Nat) : Stmt := { tag := "var", name := k.repr, kind := "int" }

/-- A block that sets a variable of its own. -/
def setting : Stmt :=
  { tag := "block"
    body := [{ tag := "var", name := "x", kind := "int", value := some { int := some 1 } }] }

/-- A description with `n` variables in main and one more in a block. -/
def crowded (n : Nat) : Draft where
  program := "crowded"
  main := (List.range' 0 n).map numbered ++ [setting]

end Draft

namespace Program

/-- What the statements of the description are once they are checked. -/
def Stmt.numbered (k : Nat) : Stmt := .declare {} (.variable k.repr .integer none)

def Stmt.set : Stmt := .declare {} (.variable "x" .integer (some (.literal (.int 1))))

def Stmt.setting : Stmt := .block {} [set]

end Program

def Program.crowded (n : Nat) : Program where
  name := "crowded"
  globals := []
  functions := []
  main := (List.range' 0 n).map .numbered ++ [.setting]
  mainPos := {}

theorem Draft.checkStmt_numbered (k : Nat) : checkStmt (numbered k) = .ok (.numbered k) := by
  have named : k.repr ≠ "" := by simp
  have known : Kind.parse? "int" = some .integer := rfl
  simp only [numbered, checkStmt, checkDeclaration?, checkName, named, if_false, checkDeclaredKind,
    checkKind, known]
  rfl

theorem Draft.check_crowded {n : Nat} : (crowded n).check.result = some (.crowded n) := by
  have statements (k : Nat) : checkStmts ((List.range' k n).map numbered ++ [setting]) =
      .ok ((List.range' k n).map .numbered ++ [.setting]) := by
    induction n generalizing k with
    | zero => rfl
    | succ n ih =>
      rw [range'_succ, map_cons, cons_append, checkStmts, ih, checkStmt_numbered]
      rfl
  rw [check, crowded, statements]
  rfl

namespace Compile

theorem Passes.grown {limit : Int} {A : Stock} {base : List (String × Nat)} {c c₁ : State}
    {xs : List State} (h : Passes limit A base c xs c₁) (room : c.Room limit)
      (fine : c₁.failed = false) :
    Generator.Grown (fun n => (n : Int) < limit) c.generator c₁.generator := by
  induction h with
  | nil c => exact .refl
  | cons stage _ rest ih =>
    have room₁ := stage.room room
    have fine₁ := rest.failed fine
    exact ((stage.grown fine₁).mono (room₁ fine₁)).trans (ih room₁ fine)

namespace Walk

variable (cfg : Config) {pos : Position} {name : String} {c : State} {g : Generator} {k : Nat}
  {o : Assembly.Options} {n : Nat} {g' : Generator}

/-- All slots that are accessed lie below the limit. -/
theorem grown_program (p : Program) {className : String} (fresh : c.Fresh className o)
    (fine : (behind (program cfg p) c).failed = false) :
    Generator.Grown (fun n => (n : Int) < cfg.maxLocals) c.generator
      (behind (program cfg p) c).generator := by
  have scopes : c.scopes = ⟨{}, [0]⟩ := by rw [State.scopes, fresh.stack, fresh.bases]
  have outside : c.stack.inner = [] := by rw [fresh.stack]
  have room : c.Room cfg.maxLocals := by
    intro _ n hn
    rw [outside] at hn
    cases hn
  exact (passes_program cfg p (scopes ▸ .empty) outside).1.grown room fine

/-! ## Declaring and setting one variable -/

theorem run_insertLocal {kind : Kind} (unused : c.stack.top.get? name = none)
    (free : c.stack.top.slots ≤ Scope.maxSlot)
    (room : ((c.bases.headD 0 + c.stack.top.slots : Nat) : Int) < cfg.maxLocals) :
    (insertLocal cfg pos name kind).run c = (true, { c with
      stack := c.stack.setTop (c.stack.top.push (Symbol.newVariable name kind).declaration
        (some c.stack.top.slots)) }) := by
  have new : c.stack.top.contains name = false := by
    rw [Scope.contains, unused, Option.isSome_none]
  have taken : c.stack.top.insert (some (Symbol.newVariable name kind).declaration) =
      .ok (some c.stack.top.slots, c.stack.top.push (Symbol.newVariable name kind).declaration
        (some c.stack.top.slots)) := by
    simp [Scope.insert, Symbol.declaration, Symbol.newVariable, Symbol.name, Symbol.form, new, free]
  rw [insertLocal, StateT.run_bind, run_insert, Stack.insert, taken]
  show (if ((c.bases.headD 0 + c.stack.top.slots : Nat) : Int) < cfg.maxLocals then _ else _ :
    Walk Bool).run _ = _
  rw [if_pos room]
  rfl

theorem run_store {s : Scope Symbol} {rest : List (Scope Symbol)} {e : Entry Symbol} {base : Nat}
    {bases : List Nat} (inner : c.stack.inner = s :: rest) (behind : c.bases = base :: bases)
    (length : bases.length = rest.length + 1) (found : s.get? name = some e)
    (form : e.form = .variable) (slot : e.slot = some n) (fine : c.failed = false)
    (method : c.generator.phase = .method) :
    (store cfg pos name).run c =
      ((), { c with generator := c.generator.pushInstr (.storeLocal (base + n)) }) := by
  have located : (find cfg pos name).run c = (some (rest.length + 1, e), c) := by
    have here : c.stack.find name = .ok (rest.length + 1, e) := by
      simp [Stack.find, Stack.find?, inner, Stack.findIn, found]
    rw [find, StateT.run_bind, StateT.run_get, pure_bind, here]
    rfl
  have location : c.location (rest.length + 1) e = .frame (base + n : Nat) := by
    have own : c.base (rest.length + 1) = base := by
      rw [State.base, behind, reverse_cons, ← length, ← length_reverse,
        getD_append_right _ _ _ _ le_rfl, Nat.sub_self]
      rfl
    simp [State.location, Stack.locationOf, form, slot, own]
  have written : (Emit.store name (.frame (base + n : Nat))).Writes c.generator ()
      (c.generator.pushInstr (.storeLocal (base + n))) :=
    Emit.writes_storeLocal.mpr ⟨method, Int.natCast_nonneg _, rfl⟩
  rw [store, StateT.run_bind, located]
  show (do let _ ← emit cfg pos (Emit.store name (c.location (rest.length + 1) e)) :
    Walk Unit).run c = _
  rw [location, StateT.run_bind, run_emit_of_writes cfg fine written]
  rfl

/-! ## Declaring many variables -/

/-- In main the variables before the `k`-th one were declared. Nothing is wrong, and the assembly
program is `g`. -/
structure Crowded (g : Generator) (k : Nat) (c : State) : Prop where
  scope : ∃ s, c.stack.inner = [s] ∧ s.slots = k ∧ ∀ j, k ≤ j → s.get? j.repr = none
  bases : c.bases = [0, 0]
  generator : c.generator = g
  failed : c.failed = false
  polls : c.polls = none

theorem leads_numbered (h : Crowded g k c) (free : k ≤ Scope.maxSlot)
    (room : (k : Int) < cfg.maxLocals) :
    Leads (stmt cfg (.numbered k)) c fun _ => Crowded g (k + 1) := by
  obtain ⟨s, inner, rfl, unused⟩ := h.scope
  let c₁ := behind (point (.numbered s.slots)) c
  have top : c₁.stack.top = s := by
    show c.stack.top = s
    rw [Stack.top, inner, headD_cons]
  have bases : c₁.bases = [0, 0] := h.bases
  have inserted : (insertLocal cfg {} s.slots.repr .integer).run c₁ = _ :=
    run_insertLocal cfg (top ▸ unused _ le_rfl) (top ▸ free)
      (by rw [top, bases, headD_cons, Nat.zero_add]; exact room)
  have declared : (declareVariable cfg {} s.slots.repr .integer none).run c₁ = _ :=
    run_declareVariable_of_some cfg {} rfl rfl (show c.stack.inner ≠ [] by rw [inner]; simp)
  show Crowded g _ ((declareVariable cfg {} s.slots.repr .integer none).run c₁).2
  rw [declared, declareLocal, StateT.run_bind, inserted, top]
  refine ⟨⟨s.push (Symbol.newVariable s.slots.repr .integer).declaration (some s.slots), ?_, rfl,
    fun j le => ?_⟩, bases, h.generator, h.failed, h.polls⟩
  · show (c.stack.setTop _).inner = _
    rw [Stack.setTop, inner]
  · rw [Scope.get?_push, if_neg, unused j (Nat.le_of_succ_le le)]
    intro same
    have := Nat.repr_injective same
    omega

theorem leads_setting (h : Crowded g k c) (method : g.phase = .method)
    (room : (k : Int) < cfg.maxLocals) :
    Leads (stmt cfg .setting) c fun _ c' => c'.stack.inner ≠ [] ∧ c'.failed = false ∧
      c'.polls = none ∧ c'.generator = (g.pushInstr (.pushShort 1)).pushInstr (.storeLocal k) := by
  obtain ⟨s, inner, rfl, -⟩ := h.scope
  let d : Declaration Symbol := (Symbol.newVariable "x" .integer).declaration
  let c₁ := behind (enter false) (behind (point .setting) c)
  let c₂ := behind (point .set) c₁
  have inner₂ : c₂.stack.inner = [{}, s] := congrArg _ inner
  have top : c₂.stack.top = {} := by rw [Stack.top, inner₂, headD_cons]
  have bases : c₂.bases = [s.slots, 0, 0] := by
    show (c.bases.headD 0 + c.stack.top.slots) :: c.bases = _
    rw [h.bases, Stack.top, inner, headD_cons, headD_cons, Nat.zero_add]
  let c₃ := { c₂ with generator := g.pushInstr (.pushShort 1) }
  have pushed : (emit cfg {} (Typed.constant (.int 1)).emit).run c₂ = (some (), c₃) := by
    refine run_emit_of_writes cfg h.failed (Emit.writes_loadConst.mpr ⟨.pushShort 1, rfl, ?_⟩)
    rw [show c₂.generator = g from h.generator]
    exact ⟨method, rfl⟩
  have inserted : (insertLocal cfg {} "x" .integer).run c₃ = (true, { c₃ with
      stack := c₂.stack.setTop (c₂.stack.top.push d (some c₂.stack.top.slots)) }) := by
    refine run_insertLocal cfg (c := c₃) ?_ ?_ ?_
    · show c₂.stack.top.get? "x" = none
      rw [top]
      rfl
    · show c₂.stack.top.slots ≤ _
      rw [top]
      exact Nat.zero_le _
    · show ((c₂.bases.headD 0 + c₂.stack.top.slots : Nat) : Int) < _
      rw [top, bases]
      exact room
  let c₄ := behind (markTopAssigned "x") { c₃ with
    stack := c₂.stack.setTop (c₂.stack.top.push d (some c₂.stack.top.slots)) }
  have inner₄ : c₄.stack.inner = [({} : Scope Symbol).push d (some 0), s] := by
    show (c₂.stack.setTop (c₂.stack.top.push d (some c₂.stack.top.slots))).inner = _
    rw [Stack.setTop, top, inner₂]
  let c₅ := { c₄ with
    generator := (g.pushInstr (.pushShort 1)).pushInstr (.storeLocal s.slots) }
  have stored : (store cfg {} "x").run c₄ = ((), c₅) :=
    run_store cfg inner₄ bases rfl (by rw [Scope.get?_push, if_pos rfl]) rfl rfl h.failed method
  have declared : (declare cfg {} (.variable "x" .integer (some (.literal (.int 1))))).run c₂ =
      ((), c₅) := by
    have start : (declareVariable cfg {} "x" .integer (some (.literal (.int 1)))).run c₂ =
        (declareLocal cfg {} "x" .integer (some (.constant (.int 1)))).run c₂ :=
      run_declareVariable_of_some cfg {} rfl rfl (by rw [inner₂]; simp)
    rw [declare, start, declareLocal, StateT.run_bind, pushed]
    show (do
      if ← insertLocal cfg {} "x" .integer then
        markTopAssigned "x"
        store cfg {} "x" : Walk Unit).run c₃ = _
    rw [StateT.run_bind, inserted]
    exact stored
  have walked : (stmts cfg [.set]).run c₁ = ((), c₅) := by
    rw [stmts, StateT.run_bind, run_poll, show c₁.polls = none from h.polls]
    show ((), ((declare cfg {} (.variable "x" .integer (some (.literal (.int 1))))).run c₂).2) = _
    rw [declared]
  have left : c₅.stack.leave = .ok { c₅.stack with inner := [s] } := by
    show c₄.stack.leave = _
    rw [Stack.leave, inner₄]
  have run : (stmt cfg .setting).run c = (leave cfg {}).run ((stmts cfg [.set]).run c₁).2 := rfl
  rw [Leads, run, walked, run_leave, left]
  exact ⟨by simp, h.failed, h.polls, rfl⟩

theorem leads_stmts_cons {s : Program.Stmt} {rest : List Program.Stmt} {Q : State → Prop}
    (live : c.polls = none) (h : Leads (stmt cfg s) c fun _ c₁ =>
      Leads (stmts cfg rest) c₁ fun _ => Q) :
    Leads (stmts cfg (s :: rest)) c fun _ => Q := by
  rw [Leads, stmts, StateT.run_bind, run_poll, live]
  exact h

theorem leads_crowded (h : Crowded g k c) (method : g.phase = .method)
    (free : k + n ≤ Scope.maxSlot + 1) (room : ((k + n : Nat) : Int) < cfg.maxLocals) :
    Leads (stmts cfg ((List.range' k n).map .numbered ++ [.setting])) c fun _ c' =>
      c'.stack.inner ≠ [] ∧ c'.failed = false ∧ c'.polls = none ∧
      c'.generator = (g.pushInstr (.pushShort 1)).pushInstr (.storeLocal (k + n)) := by
  induction n generalizing k c with
  | zero =>
    refine leads_stmts_cons cfg h.polls ((leads_setting cfg h method room).mono fun _ c' done => ?_)
    rw [stmts]
    exact .pure done
  | succ n ih =>
    rw [range'_succ, map_cons, cons_append]
    refine leads_stmts_cons cfg h.polls
      ((leads_numbered cfg h (by omega) (by omega)).mono fun _ c' next => ?_)
    rw [← Nat.add_assoc, Nat.add_right_comm] at *
    exact ih next free room

theorem leads_emit_of_writes {α : Type} {step : Emit α} {a : α} (fine : c.failed = false)
    (w : step.Writes c.generator a g') :
    Leads (emit cfg pos step) c fun _ c₁ => c₁ = { c with generator := g' } := by
  rw [Leads, run_emit_of_writes cfg fine w]

theorem leads_main_crowded (outside : c.stack.inner = []) (bases : c.bases = [0])
    (fine : c.failed = false) (live : c.polls = none) (free : n ≤ Scope.maxSlot + 1)
    (room : (n : Int) < cfg.maxLocals) (begun : Emit.beginMain.Writes c.generator () g)
    (method : g.phase = .method)
    (ended : Emit.endMain.Writes ((g.pushInstr (.pushShort 1)).pushInstr (.storeLocal n)) () g') :
    Leads (main cfg pos (Program.crowded n).main) c fun _ c' =>
      c'.failed = false ∧ c'.generator = g' := by
  rw [← Nat.zero_add n] at free room ended
  rw [Leads, main, run_inSpan]
  show Leads _ (spanStart "main" c) fun _ c' => c'.failed = false ∧ c'.generator = g'
  refine .bind (leads_emit_of_writes cfg (c := spanStart "main" c) fine begun) ?_
  rintro _ _ rfl
  refine .bind (Q := fun _ => Crowded g 0) ⟨⟨{}, congrArg _ outside, rfl, fun _ _ => rfl⟩,
    congrArg _ bases, rfl, fine, live⟩ fun _ _ start => ?_
  refine .bind (leads_crowded cfg start method free room) ?_
  rintro _ c₁ ⟨inside, fine₁, -, written⟩
  refine .bind (Q := fun _ c₂ => c₂ = behind (dumpScopes "main") c₁) rfl ?_
  rintro _ _ rfl
  refine .bind (Q := fun _ c₂ => c₂.failed = false ∧ c₂.generator = c₁.generator) ?_ ?_
  · obtain ⟨s, rest, inner⟩ := exists_cons_of_ne_nil inside
    have left : (behind (dumpScopes "main") c₁).stack.leave =
        .ok { c₁.stack with inner := rest } := by
      show c₁.stack.leave = _
      rw [Stack.leave, inner]
    rw [Leads, run_leave, left]
    exact ⟨fine₁, rfl⟩
  · rintro _ c₂ ⟨fine₂, same⟩
    rw [← written, ← same] at ended
    refine .bind (leads_emit_of_writes cfg fine₂ ended) ?_
    rintro _ _ rfl
    exact .pure ⟨fine₂, rfl⟩

theorem leads_program_crowded (fresh : c.Fresh "crowded" o) (live : c.polls = none)
    (free : n ≤ Scope.maxSlot + 1) (room : (n : Int) < cfg.maxLocals) :
    Leads (do program cfg (.crowded n); close cfg (.crowded n)) c fun _ c' =>
      c'.failed = false ∧ n ∈ c'.generator.operands := by
  have written : ∃ g₁ g₂ g₃ g₄, Emit.programStart.Writes c.generator () g₁ ∧
      Emit.beginMain.Writes g₁ () g₂ ∧ g₂.phase = .method ∧
      Emit.endMain.Writes ((g₂.pushInstr (.pushShort 1)).pushInstr (.storeLocal n)) () g₃ ∧
      Emit.programEnd.Writes g₃ () g₄ ∧ (g₄.close none).1 = [] ∧
        n ∈ (g₄.close none).2.operands := by
    rw [fresh.generator]
    refine ⟨_, _, _, _, rfl, rfl, rfl, rfl, rfl, rfl, ?_⟩
    -- Six lines stand before the one that sets the variable.
    exact mem_filterMap.mpr
      ⟨(_, .instr (.storeLocal n)), mem_of_getElem? (i := 6) rfl, rfl⟩
  obtain ⟨g₁, g₂, g₃, g₄, started, begun, method, ended, finished, complete, accessed⟩ := written
  refine .bind (Q := fun _ c' => c'.failed = false ∧ c'.generator = g₄) ?_ ?_
  · refine .bind (leads_emit_of_writes cfg fresh.failed started) ?_
    rintro _ _ rfl
    show Leads (do main cfg {} (Program.crowded n).main; let _ ← emit cfg {} Emit.programEnd) _ _
    refine .bind (leads_main_crowded cfg (congrArg _ fresh.stack) fresh.bases fresh.failed live free
      room begun method ended) ?_
    rintro _ c₂ ⟨fine, rfl⟩
    refine .bind (leads_emit_of_writes cfg fine finished) ?_
    rintro _ _ rfl
    exact .pure ⟨fine, rfl⟩
  · rintro _ c' ⟨fine, rfl⟩
    rw [Leads, run_close cfg (Prod.ext complete rfl)]
    exact ⟨fine, accessed⟩

end Walk

namespace Job

theorem operand_lt {o : Options} {j : Job} {d : Draft} {p : Program} {w : World}
    (fine : (walkEnd o j d p w).failed = false) :
    ∀ n ∈ (walkEnd o j d p w).generator.operands, (n : Int) < o.assembly.maxLocals := by
  obtain ⟨fine', -, same⟩ := fine_walkEnd fine
  obtain ⟨new, lines, below⟩ := Walk.grown_program (config o d) p (fresh_walkStart o j d w) fine'
  intro n hn
  obtain ⟨l, hl, hs⟩ := mem_filterMap.mp hn
  rw [show (walkEnd o j d p w).generator.lines = _ from same.lines, lines] at hl
  exact below l hl n hs

theorem operand_crowded {o : Options} {n : Nat} (free : n ≤ Scope.maxSlot + 1)
    (room : (n : Int) < o.assembly.maxLocals) :
    (walkEnd o (ofDraft o (.crowded n) 0) (.crowded n) (.crowded n) {}).failed = false ∧
      n ∈ (walkEnd o (ofDraft o (.crowded n) 0) (.crowded n) (.crowded n) {}).generator.operands :=
  Walk.leads_program_crowded (config o (.crowded n)) (fresh_walkStart o _ _ {}) rfl free room

/-- In a program that is compiled without an error only slots below the number of slots to a frame
are accessed. They fit two bytes in all programs exactly if that number is at most 65536. -/
theorem operands_fit_iff (o : Options) :
    (∀ j d p w, d.check.result = some p → (walkEnd o j d p w).failed = false →
      ∀ n ∈ (walkEnd o j d p w).generator.operands, (n : Int) < o.assembly.maxLocals) ∧
    ((∀ j d p w, d.check.result = some p → (walkEnd o j d p w).failed = false →
      ∀ n ∈ (walkEnd o j d p w).generator.operands, n ≤ 65535) ↔ o.assembly.maxLocals ≤ 65536) := by
  refine ⟨fun j d p w _ fine => operand_lt fine, fun fits => ?_, fun few j d p w _ fine n hn => ?_⟩
  · by_contra many
    obtain ⟨fine, accessed⟩ := operand_crowded le_rfl (Int.not_le.mp many)
    exact absurd (fits _ _ _ {} Draft.check_crowded fine 65536 accessed) (by decide)
  · have := operand_lt fine n hn
    omega

/-- With 65537 slots to a frame, a description with 65536 variables in main and one in a block is
compiled without an error, and its code accesses slot 65536. -/
theorem operand_exceeds_two_bytes :
    let o : Options := { codegen := { maxLocals := 65537 } }
    let d : Draft := .crowded 65536
    ∃ p, d.check.result = some p ∧ (walkEnd o (ofDraft o d 0) d p {}).failed = false ∧
      65536 ∈ (walkEnd o (ofDraft o d 0) d p {}).generator.operands :=
  ⟨.crowded 65536, Draft.check_crowded, operand_crowded le_rfl (by decide)⟩

end Job

end Compile

end Jasm

import Jasm.Proofs.Assembly.History

/-!
# The shape of a program in the making

A program keeps its phase, its depth, the open method, the prints that are begun and a note about
its last line next to each other. `Shaped` says how they belong together and how they belong to the
lines that were written: each line stands as far to the right as there are braces open around it.
Every part of a history keeps this shape.

Once a program is closed, no part of a history changes anything but notes about branches and loops.
-/

namespace Jasm.Assembly

open Emit Line

/-- How many braces are open in a phase, as long as the program is not closed. -/
def Phase.depth : Phase → Nat
  | .idle | .done | .closed => 0
  | .program => 1
  | .method => 2

namespace Line

/-- How many braces are open around a line, if `d` are open before it. -/
def around (d : Nat) : Line → Nat
  | .close => d - 1
  | _ => d

/-- How many braces are open behind a line, if `d` are open before it. -/
def behind (d : Nat) : Line → Nat
  | .openClass | .openBody => d + 1
  | .close => d - 1
  | _ => d

/-- Whether control never goes on to the next line. -/
def isTerminal : Line → Bool
  | .instr i => i.isTerminal
  | _ => false

end Line

/-- Each line stands at the depth of the braces that are open around it, and `d` braces are open
behind the last one. -/
inductive Nested : List (Nat × Line) → Nat → Prop where
  | nil : Nested [] 0
  | snoc {ls : List (Nat × Line)} {d : Nat} (l : Line) :
      Nested ls d → Nested (ls ++ [(l.around d, l)]) (l.behind d)

namespace Generator

variable {g g' : Generator}

/-- How the parts of a program belong together. -/
structure Shaped (g : Generator) : Prop where
  method : g.phase ≠ .closed → (g.method.isSome ↔ g.phase = .method)
  prints : g.phase ≠ .closed → g.phase ≠ .method → g.prints = 0
  depth : g.phase ≠ .closed → g.depth = g.phase.depth
  nested : Nested g.lines.toList g.depth
  terminal : g.terminal = g.lines.toList.getLast?.any fun x => x.2.isTerminal

theorem shaped_new {cls : String} {o : Options} : Shaped (.new cls o) where
  method _ := by simp [Generator.new]
  prints _ _ := rfl
  depth _ := rfl
  nested := .nil
  terminal := rfl

theorem nested_push (h : Nested g.lines.toList g.depth) {l : Line} (around :
    l.around g.depth = g.depth)
    (behind : l.behind g.depth = g.depth) : Nested (g.push l).lines.toList g.depth := by
  have snoc := h.snoc l
  rw [around, behind] at snoc
  simpa [push] using snoc

theorem terminal_pushInstr (g : Generator) (i : Instruction) : (g.pushInstr i).terminal =
    (g.pushInstr i).lines.toList.getLast?.any fun x => x.2.isTerminal := by
  simp [pushInstr, push, isTerminal]

namespace Shaped

section

variable (h : Shaped g)
include h

theorem pushInstr (phase : g.phase = .method) {i : Instruction}
    (same : g'.phase = g.phase ∧ g'.depth = g.depth ∧ g'.method = g.method)
    (lines : g'.lines = (g.pushInstr i).lines) (terminal : g'.terminal = i.isTerminal) :
    Shaped g' := by
  obtain ⟨phase', depth, method⟩ := same
  refine ⟨fun _ => ?_, fun _ outside => ?_, fun hp => ?_, ?_, ?_⟩
  · rw [method, phase']
    exact h.method (by simp [phase])
  · exact absurd (phase'.trans phase) outside
  · rw [depth, phase']
    exact h.depth (phase' ▸ hp)
  · rw [lines, depth]
    exact nested_push h.nested rfl rfl
  · rw [lines, terminal]
    exact terminal_pushInstr g i

theorem opened (phase : g.phase = .program) {m : MethodFrame} {header : Line}
    (plain : ∀ d, header.around d = d ∧ header.behind d = d) :
    Shaped (Emit.opened g m header) where
  method _ := by simp [Emit.opened]
  prints _ outside := absurd rfl outside
  depth _ := by
    have depth := h.depth (by simp [phase])
    rw [phase] at depth
    simp [Emit.opened, depth, Phase.depth]
  nested := by
    have first : Nested (g.push header).lines.toList g.depth :=
      nested_push h.nested (plain _).1 (plain _).2
    have second : Nested
      ((g.push header).push (.maxStack g.options.maxStack)).lines.toList g.depth :=
      nested_push first rfl rfl
    have third := nested_push (l := .maxLocals g.options.maxLocals) second rfl rfl
    simpa [Emit.opened, push, around, behind] using third.snoc .openBody
  terminal := by simp [Emit.opened, push, isTerminal]

theorem ended (phase : g.phase = .method) (prints : g.prints = 0) :
    Shaped (Emit.ended g) where
  method _ := by simp [Emit.ended]
  prints _ _ := prints
  depth _ := by
    have depth := h.depth (by simp [phase])
    rw [phase] at depth
    simp [Emit.ended, push, depth, Phase.depth]
  nested := by simpa [Emit.ended, push, around, behind] using h.nested.snoc .close
  terminal := by simp [Emit.ended, push, isTerminal]

theorem congr (phase : g'.phase = g.phase) (method : g'.method = g.method)
    (prints : g'.prints = g.prints) (depth : g'.depth = g.depth) (lines : g'.lines = g.lines)
    (terminal : g'.terminal = g.terminal) : Shaped g' := by
  obtain ⟨h₁, h₂, h₃, h₄, h₅⟩ := h
  rw [← phase, ← method] at h₁
  rw [← phase, ← prints] at h₂
  rw [← phase, ← depth] at h₃
  rw [← lines, ← depth] at h₄
  rw [← lines, ← terminal] at h₅
  exact ⟨h₁, h₂, h₃, h₄, h₅⟩

theorem part {e : Option Event} (p : Part g e g') : Shaped g' := by
  cases p with
  | reserve w =>
    obtain ⟨-, -, -, rfl⟩ := writes_reserve.mp w
    exact h.congr rfl rfl rfl rfl rfl rfl
  | define w =>
    obtain ⟨phase, s, -, -, -, rfl⟩ := writes_define.mp w
    exact h.pushInstr phase ⟨rfl, rfl, rfl⟩ rfl rfl
  | goto w =>
    obtain ⟨phase, s, -, -, rfl⟩ := writes_jump.mp w
    exact h.pushInstr phase ⟨rfl, rfl, rfl⟩ rfl rfl
  | branch w =>
    obtain ⟨phase, s, -, -, rfl⟩ := writes_jump.mp w
    exact h.pushInstr phase ⟨rfl, rfl, rfl⟩ rfl rfl
  | @beginFunction f _ w =>
    cases f with
    | none => exact absurd w not_writes_throw
    | some f =>
      obtain ⟨phase, -, rfl⟩ := writes_beginFunction.mp w
      exact h.opened phase fun _ => ⟨rfl, rfl⟩
  | beginMain w =>
    obtain ⟨phase, rfl⟩ := writes_beginMain.mp w
    exact h.opened phase fun _ => ⟨rfl, rfl⟩
  | endFunction w =>
    obtain ⟨phase, prints, -, rfl⟩ := writes_endFunction.mp w
    split
    · have returned : Shaped (g.pushInstr .ret) := h.pushInstr phase ⟨rfl, rfl, rfl⟩ rfl rfl
      exact returned.ended phase prints
    · exact h.ended phase prints
  | programStart w =>
    obtain ⟨phase, rfl⟩ := writes_programStart.mp w
    have isOpen : g.phase ≠ .closed := by simp [phase]
    have depth : g.depth = 0 := by simp [h.depth isOpen, phase, Phase.depth]
    refine ⟨fun _ => ?_, fun _ _ => h.prints isOpen (by simp [phase]), fun _ => ?_, ?_, ?_⟩
    · simpa [push, phase] using h.method isOpen
    · simp [depth, Phase.depth]
    · simpa [push, around, behind] using h.nested.snoc .openClass
    · simp [push, isTerminal]
  | programEnd w =>
    obtain ⟨phase, -, rfl⟩ := writes_programEnd.mp w
    have isOpen : g.phase ≠ .closed := by simp [phase]
    have depth : g.depth = 1 := by simp [h.depth isOpen, phase, Phase.depth]
    refine ⟨fun _ => ?_, fun _ _ => h.prints isOpen (by simp [phase]), fun _ => ?_, ?_, ?_⟩
    · simpa [push, phase] using h.method isOpen
    · simp [push, depth, Phase.depth]
    · simpa [push, around, behind] using h.nested.snoc .close
    · simp [push, isTerminal]
  | field id init phase =>
    refine ⟨h.method, h.prints, h.depth, nested_push h.nested rfl rfl, ?_⟩
    simp [push, isTerminal]
  | printBegin w =>
    obtain ⟨phase, rfl⟩ := writes_printBegin.mp w
    exact h.pushInstr phase ⟨rfl, rfl, rfl⟩ rfl rfl
  | printEnd w =>
    obtain ⟨phase, -, what, -, rfl⟩ := writes_printEnd.mp w
    exact h.pushInstr phase ⟨rfl, rfl, rfl⟩ rfl rfl
  | instr phase _ _ => exact h.pushInstr phase ⟨rfl, rfl, rfl⟩ rfl rfl
  | note ifs loops => exact h.congr rfl rfl rfl rfl rfl rfl
  | close broken =>
    unfold Generator.close
    split
    · exact h
    · exact ⟨fun isOpen => absurd rfl isOpen, fun isOpen => absurd rfl isOpen,
        fun isOpen => absurd rfl isOpen, h.nested, h.terminal⟩

theorem history {es : List Event} (past : History g es g') : Shaped g' := by
  induction past with
  | refl => exact h
  | snoc _ p ih => exact ih.part p

end

end Shaped

/-- The parts of a program belong together, whatever a client does with it. -/
theorem shaped_run {cls : String} {o : Options} {as : List Action} :
    Shaped (as.foldl act (.new cls o)) := by
  obtain ⟨es, ran⟩ := exists_ran
  exact shaped_new.history ran.history

/-! ## Closed programs -/

/-- Two programs of which the same text can be read, and which have handed out the same labels. -/
structure SameText (g g' : Generator) : Prop where
  className : g'.className = g.className
  options : g'.options = g.options
  lines : g'.lines = g.lines
  labels : g'.labels = g.labels

namespace SameText

theorem refl {g : Generator} : SameText g g := ⟨rfl, rfl, rfl, rfl⟩

theorem trans {g₁ g₂ : Generator} (first : SameText g g₁) (second : SameText g₁ g₂) :
    SameText g g₂ :=
  ⟨second.className.trans first.className, second.options.trans first.options,
    second.lines.trans first.lines, second.labels.trans first.labels⟩

theorem text_eq (h : SameText g g') : g'.text = g.text := by
  unfold text
  rw [h.className, h.options, h.lines]

theorem lineCount_eq (h : SameText g g') : g'.lineCount = g.lineCount := by
  rw [lineCount, h.lines, lineCount]

theorem labelCount_eq (h : SameText g g') : g'.labelCount = g.labelCount := by
  rw [labelCount, h.labels, labelCount]

end SameText

section

variable (closed : g.phase = .closed)
include closed

theorem close_of_closed (broken : Option String) :
    g.close broken = ([.closed], g) := by
  unfold Generator.close
  rw [if_pos closed]

theorem closed_part {e : Option Event} (p : Part g e g') :
    g'.phase = .closed ∧ SameText g g' := by
  cases p with
  | reserve w => exact absurd closed (writes_reserve.mp w).1
  | define w => cases closed.symm.trans (writes_define.mp w).1
  | goto w | branch w => cases closed.symm.trans (writes_jump.mp w).1
  | @beginFunction f _ w =>
    cases f with
    | none => exact absurd w not_writes_throw
    | some f => cases closed.symm.trans (writes_beginFunction.mp w).1
  | beginMain w => cases closed.symm.trans (writes_beginMain.mp w).1
  | endFunction w => cases closed.symm.trans (writes_endFunction.mp w).1
  | programStart w => cases closed.symm.trans (writes_programStart.mp w).1
  | programEnd w => cases closed.symm.trans (writes_programEnd.mp w).1
  | printBegin w => cases closed.symm.trans (writes_printBegin.mp w).1
  | printEnd w => cases closed.symm.trans (writes_printEnd.mp w).1
  | field _ _ phase | instr phase _ _ => cases closed.symm.trans phase
  | note ifs loops => exact ⟨closed, rfl, rfl, rfl, rfl⟩
  | close broken =>
    rw [close_of_closed closed]
    exact ⟨closed, .refl⟩

theorem closed_history {es : List Event} (past : History g es g') :
    g'.phase = .closed ∧ SameText g g' := by
  induction past with
  | refl => exact ⟨closed, .refl⟩
  | snoc _ p ih =>
    obtain ⟨closed₁, same₁⟩ := ih
    obtain ⟨closed₂, same₂⟩ := closed_part closed₁ p
    exact ⟨closed₂, same₁.trans same₂⟩

/-- Nothing that is done behind the end changes the text. -/
theorem closed_run (as : List Action) :
    (as.foldl act g).phase = .closed ∧ SameText g (as.foldl act g) := by
  obtain ⟨es, ran⟩ := exists_ran
  exact closed_history closed ran.history

end

theorem phase_close (g : Generator) (broken : Option String) :
    (g.close broken).2.phase = .closed := by
  unfold Generator.close
  split
  · assumption
  · rfl

theorem sameText_close (g : Generator) (broken : Option String) :
    SameText g (g.close broken).2 := by
  unfold Generator.close
  split
  · exact .refl
  · exact ⟨rfl, rfl, rfl, rfl⟩

end Generator

end Jasm.Assembly

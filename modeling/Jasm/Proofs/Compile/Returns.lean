import Jasm.Proofs.Assembly.Phases
import Jasm.Proofs.Compile.Stacks

/-!
# Methods end with a return

A function with a result has to end with a return, which is checked on its statements. That no jump
target is written behind this return is decided elsewhere: where the two parts of a branch meet, a
note about the last line says whether control comes there. The two agree: the note tells the truth
about the last line, and behind statements that always return it is set. So control never runs over
the end of a method.
-/

namespace Jasm.Assembly

theorem Instruction.isTerminal_iff {i : Instruction} :
    i.isTerminal ↔ (∃ l, i = .goto l) ∨ i = .ret ∨ i = .retValue := by
  cases i <;> simp [isTerminal]

theorem Generator.Shaped.terminal_iff {g : Generator} (h : g.Shaped) :
    g.terminal ↔ ∃ d i, g.lines.toList.getLast? = some (d, .instr i) ∧ i.isTerminal := by
  rw [h.terminal, Option.any_eq_true]
  constructor
  · rintro ⟨⟨d, l⟩, last, terminal⟩
    cases l with
    | instr i => exact ⟨d, i, last, terminal⟩
    | _ => cases terminal
  · rintro ⟨d, i, last, terminal⟩
    exact ⟨_, last, terminal⟩

theorem bodyLines_of_getLast? {o : Options} {body : List Instruction} {i : Instruction}
    (h : body.getLast? = some i) : ∃ front, bodyLines o body = front ++ [.instr i, .close] := by
  obtain ⟨front, rfl⟩ := List.getLast?_eq_some_iff.mp h
  exact ⟨.maxStack o.maxStack :: .maxLocals o.maxLocals :: .openBody :: front.map .instr, by
    simp [bodyLines]⟩

end Jasm.Assembly

namespace Jasm.Compile

open Assembly
open Program (Stmt)

theorem getLast?_method {limit : Int} {Γ : Scopes} {f : Program.Function} {Ts : List TypedStmt}
    (h : Γ.body? limit f = some Ts) (stem : String) (n : Nat) :
    (Scopes.method stem f.signature Ts n).1.body.getLast? = some (returnOf (some f.signature)) := by
  obtain ⟨Γ₁, Γ₂, -, body, -, returns⟩ := Scopes.body?_eq_some h
  cases hr : f.signature.result?.isSome with
  | true => simpa [Scopes.method, hr] using getLast?_of_lastReturns stem _ (returns hr) body n
  | false => simp [Scopes.method, returnOf, hr]

namespace Walk

variable (cfg : Config) {c : State} {className : String} {o : Assembly.Options}

theorem terminal_of_lastReturns {ss : List Stmt} {c c' : State}
    (run : (stmts cfg ss).run c = ((), c')) (clean : c'.Clean) (inside : c.stack.inner ≠ [])
    (returns : Stmt.lastReturns ss) : c'.generator.terminal := by
  obtain ⟨Ts, Γ, resolved, runs⟩ := (ensures_stmts ss).holds c () c' run clean inside
  have last := getLast?_of_lastReturns c.core.stem ss returns resolved c.core.count
  have terminal := runs.writes.terminal
  rw [last] at terminal
  exact terminal.trans isTerminal_returnOf

/-- A program that is compiled without an error and without being cancelled: each of its functions
has a method, and the line in front of the closing brace of that method returns a value exactly if
the function has a result. The entry point ends with a bare return.

This rests on two facts that hold more generally. Whatever a client does with a program in the
making, its last line is noted as one that control does not pass exactly if it is a jump or a
return. And statements that always return, wherever they stand in a method, leave it so noted. -/
theorem methods_end_with_return (p : Program) (fresh : c.Fresh className o)
    (clean : (behind (program cfg p) c).Clean) :
    (∃ k : Assembly.Class,
      (behind (program cfg p) c).generator.lines.toList.map (·.2) = k.lines o.withDefaults ∧
      List.Forall₂ (fun f m => m.name = f.name ∧ m.returns = f.signature.result?.isSome ∧
        ∃ front, m.lines o.withDefaults =
          front ++ [.instr (if m.returns then .retValue else .ret), .close]) p.functions k.methods ∧
      ∃ front, bodyLines o.withDefaults k.entry = front ++ [.instr .ret, .close]) ∧
    (∀ (cls : String) (o : Assembly.Options) (as : List Action),
      let g := as.foldl Generator.act (.new cls o)
      g.terminal ↔ ∃ d i, g.lines.toList.getLast? = some (d, .instr i) ∧
        ((∃ l, i = .goto l) ∨ i = .ret ∨ i = .retValue)) ∧
    ∀ (ss : List Stmt) (c c' : State), (stmts cfg ss).run c = ((), c') → c'.Clean →
      c.stack.inner ≠ [] → Stmt.lastReturns ss → c'.generator.terminal := by
  refine ⟨?_, fun cls o as => ?_, fun ss c c' => terminal_of_lastReturns cfg⟩
  · obtain ⟨k, resolved, lines⟩ := exists_class cfg p fresh clean
    obtain ⟨Γ, Γ', n, Ts, last, declared, methods, main, entry⟩ := Scopes.class?_eq_some resolved
    obtain ⟨-, -, each⟩ := (Scopes.outside_empty.globals? declared).methods? methods
    refine ⟨k, lines, each.imp ?_, bodyLines_of_getLast? (by simp [entry])⟩
    rintro f m ⟨Γ₁, Ts, n, -, -, body, rfl⟩
    have ends := getLast?_method body o.withDefaults.labelStem n
    obtain ⟨front, split⟩ := bodyLines_of_getLast? (o := o.withDefaults) ends
    refine ⟨rfl, rfl, .method f.name f.signature.arity f.signature.result?.isSome :: front, ?_⟩
    rw [Method.lines, split]
    rfl
  · simpa only [Instruction.isTerminal_iff] using Generator.shaped_run.terminal_iff

theorem methods_end_with_return_factorials :
    let cfg : Config := ⟨"", 3⟩
    let c : State := { generator := .new "factorials" {}, reporter := .collecting 10 }
    let o : Assembly.Options := Assembly.Options.withDefaults {}
    let inside := behind (emit cfg {} Emit.beginMain *> enter true)
      (behind (emit cfg {} Emit.programStart) c)
    c.Fresh "factorials" {} ∧ (behind (program cfg factorials) c).Clean ∧
      (∃ k : Assembly.Class,
        (behind (program cfg factorials) c).generator.lines.toList.map (·.2) = k.lines o ∧
        List.Forall₂ (fun f m => m.name = f.name ∧ m.returns = f.signature.result?.isSome ∧
          ∃ front, m.lines o =
            front ++ [.instr (if m.returns then .retValue else .ret), .close])
          factorials.functions k.methods ∧
        ∃ front, bodyLines o k.entry = front ++ [.instr .ret, .close]) ∧
      (behind (stmts cfg [.block {} [.ret {} none]]) inside).Clean ∧
      (behind (stmts cfg [.block {} [.ret {} none]]) inside).generator.terminal := by
  intro cfg c o inside
  have fresh : c.Fresh "factorials" {} := ⟨rfl, rfl, rfl, rfl, rfl, rfl⟩
  have clean : (behind (program cfg factorials) c).Clean := ⟨by decide +kernel, by decide +kernel⟩
  have clean' : (behind (stmts cfg [.block {} [.ret {} none]]) inside).Clean :=
    ⟨by decide +kernel, by decide +kernel⟩
  obtain ⟨methods, -, terminal⟩ := methods_end_with_return cfg factorials fresh clean
  exact ⟨fresh, clean, methods, clean', terminal _ inside _ rfl clean' (by decide +kernel) rfl⟩

end Walk

end Jasm.Compile

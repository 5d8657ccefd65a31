import Jasm.Proofs.Assembly.Indentation
import Jasm.Proofs.Assembly.Quoting
import Jasm.Proofs.Text.Separators

/-!
# Line feeds in the text of a program

Each line of a program is written with one line feed behind it. Names are written as they are, so
that a name with a line feed in it is torn apart, while string constants are escaped. The line feeds
of a text are therefore its lines and the line feeds of all names shown in it, each as often as it
is shown.
-/

namespace Jasm.Assembly

open List

/-- The number of line feeds in a text. -/
def feeds (s : String) : Nat := s.toList.count '\n'

theorem feeds_append {s t : String} : feeds (s ++ t) = feeds s + feeds t := by
  simp [feeds]

theorem feeds_eq_zero_iff {s : String} : feeds s = 0 ↔ '\n' ∉ s.toList := count_eq_zero

theorem feeds_join_cons (s : String) (ss : List String) :
    feeds (String.join (s :: ss)) = feeds s + feeds (String.join ss) := by
  rw [String.join_cons, feeds_append]

theorem feeds_join_append (ss ts : List String) :
    feeds (String.join (ss ++ ts)) = feeds (String.join ss) + feeds (String.join ts) := by
  rw [String.join_append, feeds_append]

theorem feeds_join_eq_zero_iff {ss : List String} :
    feeds (String.join ss) = 0 ↔ ∀ s ∈ ss, '\n' ∉ s.toList := by
  induction ss with
  | nil => simp [feeds]
  | cons s rest ih => rw [feeds_join_cons, Nat.add_eq_zero_iff, feeds_eq_zero_iff, ih,
      forall_mem_cons]

/-! ## Numbers, types and constants -/

theorem feeds_toString_nat (n : Nat) : feeds (toString n) = 0 :=
  feeds_eq_zero_iff.mpr (Text.notMem_nat rfl)

theorem feeds_toString_int (n : Int) : feeds (toString n) = 0 :=
  feeds_eq_zero_iff.mpr (Text.notMem_int rfl (by decide))

theorem feeds_labelOf (stem : String) (n : Nat) : feeds (labelOf stem n) = feeds stem :=
  feeds_append.trans (by rw [feeds_toString_nat]; rfl)

theorem feeds_paramTypes (arity : Nat) : feeds (paramTypes arity) = 0 := by
  have inside : feeds (", ".intercalate (List.replicate arity "int")) = 0 := by
    induction arity with
    | zero => rfl
    | succ n ih =>
      cases n with
      | zero => rfl
      | succ n =>
        rw [replicate_succ, String.intercalate_cons_of_ne_nil (by simp), feeds_append, ih]
        rfl
  rw [paramTypes, feeds_append, feeds_append, inside]
  rfl

theorem feeds_constantText (s : String) : feeds (constantText s) = 0 := by
  have escaped : '\n' ∉ (Text.normalForm s).toList.flatMap constantChar :=
    fun feed => absurd (above_constant _ _ feed) (by decide)
  rw [feeds_eq_zero_iff, constantText]
  simpa using escaped

/-! ## Names -/

def Instruction.names (cls : String) : Instruction → List String
  | .loadGlobal id | .storeGlobal id => [cls, id]
  | .invoke name .. => [cls, name]
  | .branch _ l | .goto l | .label l => [l]
  | _ => []

def Line.names (cls : String) : Line → List String
  | .openClass => [cls]
  | .field id _ => [id]
  | .method name .. => [name]
  | .instr i => i.names cls
  | _ => []

theorem feeds_returnType (returns : Bool) : feeds (returnType returns) = 0 := by
  cases returns <;> rfl

theorem StackOp.feeds_mnemonic (o : StackOp) : feeds o.mnemonic = 0 := by cases o <;> rfl

theorem Cond.feeds_mnemonic (c : Cond) : feeds c.mnemonic = 0 := by cases c <;> rfl

theorem Instruction.feeds_text {cls : String} (i : Instruction) :
    feeds (i.text cls) = feeds (String.join (i.names cls)) := by
  unfold Instruction.text
  cases i with
  | pop | pushStream | ret | retValue =>
    dsimp only
    rfl
  | pushBool b =>
    dsimp only
    cases b <;> rfl
  | op o => exact o.feeds_mnemonic
  | pushString s => exact feeds_append.trans (by rw [feeds_constantText]; rfl)
  | print what newline =>
    simp only [toString_string, feeds_append]
    cases what <;> cases newline <;> rfl
  | branch c l =>
    simp only [toString_string, feeds_append, c.feeds_mnemonic, names, feeds_join_cons]
    simp [feeds]
  | _ =>
    simp only [toString_string, feeds_append, feeds_toString_nat, feeds_toString_int,
      feeds_returnType, feeds_paramTypes, names, feeds_join_cons]
    simp [feeds]

theorem Line.feeds_text (cls : String) (l : Line) :
    feeds (l.text cls) = feeds (String.join (l.names cls)) := by
  unfold Line.text
  cases l with
  | instr i => exact i.feeds_text
  | close | entryPoint | openBody =>
    dsimp only
    rfl
  | field id init =>
    cases init <;>
      simp only [toString_string, feeds_append, feeds_toString_int, names, feeds_join_cons] <;>
      simp [feeds]
  | _ =>
    simp only [toString_string, feeds_append, feeds_toString_int, feeds_returnType,
      feeds_paramTypes, names, feeds_join_cons]
    simp [feeds]

theorem feeds_lineText (indent : Bool) (cls : String) (d : Nat) (l : Line) :
    feeds (Generator.lineText indent cls d l) = 1 + feeds (String.join (l.names cls)) := by
  rw [← l.feeds_text, feeds, toList_lineText, count_append, count_append]
  simp [feeds, count_replicate, Nat.add_comm]

theorem Generator.feeds_text (g : Generator) :
    feeds g.text = g.lineCount +
      feeds (String.join (g.lines.toList.flatMap fun x => x.2.names g.className)) := by
  rw [text_eq_join, textLines, lineCount, ← Array.length_toList]
  induction g.lines.toList with
  | nil => rfl
  | cons x rest ih =>
    rw [map_cons, feeds_join_cons, feeds_lineText, ih, length_cons, flatMap_cons,
      feeds_join_append]
    omega

theorem Generator.feeds_text_eq_iff (g : Generator) : feeds g.text = g.lineCount ↔
    ∀ x ∈ g.lines.toList, ∀ name ∈ x.2.names g.className, '\n' ∉ name.toList := by
  rw [feeds_text, Nat.add_eq_left, feeds_join_eq_zero_iff, forall_mem_flatMap]

end Jasm.Assembly

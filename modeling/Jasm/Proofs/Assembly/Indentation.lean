import Jasm.Proofs.Assembly.Labels

/-!
# Indentation is only for looks

Whether lines are indented is decided when the text is made, and no step asks for it. So two
programs that differ in this alone answer every call in the same way, and their texts differ in
nothing but the tabs at the beginning of lines.

How many tabs a line begins with can be told from its depth. There is one exception: a line that
defines a label shows the stem of all labels, and may show tabs that the stem begins with.
-/

namespace Jasm.Assembly

open Emit List

variable (s : String) (indent : Bool) (cls : String) (d : Nat) (l : Line)

/-! ## Whole runs -/

/-- What a client is told about an action. -/
inductive Answer where
  | call (outcome : Except Fault Reply)
  | close (faults : List Fault)

namespace Generator

def answer (g : Generator) : Action → Answer
  | .call c => .call (g.step c).1
  | .close broken => .close (g.close broken).1

def answers (g : Generator) : List Action → List Answer
  | [] => []
  | a :: as => g.answer a :: (g.act a).answers as

theorem answer_withIndent (g : Generator) (b : Bool) (a : Action) :
    (g.withIndent b).answer a = g.answer a ∧ (g.withIndent b).act a = (g.act a).withIndent b := by
  cases a with
  | call c =>
    have same := (c.traced g).blind b
    exact ⟨congrArg Answer.call (Prod.ext_iff.mp same).1, (Prod.ext_iff.mp same).2⟩
  | close broken =>
    have same : (g.withIndent b).close broken =
        ((g.close broken).1, (g.close broken).2.withIndent b) := by
      unfold Generator.close
      show (if g.phase = .closed then _ else _) = _
      split <;> rfl
    exact ⟨congrArg Answer.close (Prod.ext_iff.mp same).1, (Prod.ext_iff.mp same).2⟩

theorem answers_withIndent (g : Generator) (b : Bool) (as : List Action) :
    (g.withIndent b).answers as = g.answers as ∧
      as.foldl act (g.withIndent b) = (as.foldl act g).withIndent b := by
  induction as generalizing g with
  | nil => exact ⟨rfl, rfl⟩
  | cons a as ih =>
    obtain ⟨answer, act⟩ := answer_withIndent g b a
    obtain ⟨others, last⟩ := ih (g.act a)
    rw [answers, answer, act, others, foldl_cons, act, last]
    exact ⟨rfl, rfl⟩

/-! ## The lines of a text -/

def textLines (g : Generator) : List String :=
  g.lines.toList.map fun x => lineText g.options.indent g.className x.1 x.2

theorem text_eq_join (g : Generator) : g.text = String.join g.textLines := by
  unfold text textLines String.join
  rw [← Array.foldl_toList, foldl_map]

end Generator

def leadingTabs (s : String) : Nat := (s.toList.takeWhile (· = '\t')).length

def behindTabs (s : String) : List Char := s.toList.dropWhile (· = '\t')

def Line.definesLabel : Line → Bool
  | .instr (.label _) => true
  | _ => false

theorem Line.definesLabel_iff {l : Line} : l.definesLabel ↔ ∃ x, l = .instr (.label x) := by
  unfold definesLabel
  split <;> simp_all

theorem toString_string : toString s = s := rfl

theorem toList_pushn (c : Char) (n : Nat) :
    (s.pushn c n).toList = s.toList ++ List.replicate n c := by
  induction n with
  | zero => simp [String.pushn, Nat.repeat]
  | succ n ih =>
    rw [replicate_succ', ← append_assoc, ← ih]
    exact String.toList_push c

theorem toList_lineText :
    (Generator.lineText indent cls d l).toList =
      List.replicate (if indent then d else 0) '\t' ++ ((l.text cls).toList ++ ['\n']) := by
  simp [Generator.lineText, toList_pushn]

theorem takeWhile_tab {s : String} (h : ∀ c ∈ s.toList.head?, c ≠ '\t') :
    s.toList.takeWhile (· = '\t') = [] := by
  cases hs : s.toList with
  | nil => rfl
  | cons c rest => simpa [hs, takeWhile_cons] using h

theorem leadingTabs_append {t : String} (h : ∀ c ∈ t.toList.head?, c ≠ '\t') :
    leadingTabs (s ++ t) = leadingTabs s := by
  unfold leadingTabs
  rw [String.toList_append, takeWhile_append, takeWhile_tab h]
  split
  · next all => simp [all]
  · rfl

theorem leadingTabs_labelOf (stem : String) (n : Nat) :
    leadingTabs (labelOf stem n) = leadingTabs stem := by
  refine leadingTabs_append stem fun c hc => ?_
  have digit : c.isDigit := by
    refine Nat.isDigit_of_mem_toDigits (b := 10) (n := n) (by decide) (by decide) ?_
    rw [← Nat.toList_repr]
    exact mem_of_mem_head? hc
  rintro rfl
  cases digit

theorem StackOp.head?_mnemonic (o : StackOp) : o.mnemonic.toList.head? = some 'i' := by
  cases o <;> simp [mnemonic]

theorem Cond.head?_mnemonic (c : Cond) : c.mnemonic.toList.head? = some 'i' := by
  cases c <;> simp [mnemonic]

theorem head?_instruction {i : Instruction} (h : i.label? = none) :
    ∀ c ∈ (i.text cls).toList.head?, c ≠ '\t' := by
  unfold Instruction.text
  cases i with
  | label x => cases h
  | op o => simp [o.head?_mnemonic]
  | branch c x => simp [toString_string, c.head?_mnemonic]
  | pushBool b => cases b <;> simp
  | _ => simp [toString_string]

theorem leadingTabs_text {l : Line} (h : l.definesLabel = false) :
    leadingTabs (l.text cls) = 0 := by
  refine congrArg List.length (takeWhile_tab ?_)
  unfold Line.text
  cases l with
  | instr i =>
    refine head?_instruction cls ?_
    cases i with
    | label x => cases h
    | _ => rfl
  | field id init => cases init <;> simp [toString_string]
  | _ => simp [toString_string]

theorem leadingTabs_label (l : Label) :
    leadingTabs (Line.text cls (.instr (.label l))) = leadingTabs l :=
  leadingTabs_append l (by simp [toString_string])

theorem leadingTabs_lineText :
    leadingTabs (Generator.lineText indent cls d l) =
      (if indent then d else 0) + leadingTabs (l.text cls) := by
  have rest := leadingTabs_append (l.text cls) (t := "\n") (by simp)
  unfold leadingTabs at rest ⊢
  rw [toList_lineText, takeWhile_append_of_pos (by simp), length_append,
    length_replicate, ← rest, String.toList_append]
  rfl

theorem behindTabs_lineText :
    behindTabs (Generator.lineText indent cls d l) =
      ((l.text cls).toList ++ ['\n']).dropWhile (· = '\t') := by
  unfold behindTabs
  rw [toList_lineText, dropWhile_append_of_pos (by simp)]

theorem Generator.behindTabs_withIndent (g : Generator) {b : Bool} :
    (g.withIndent b).textLines.map behindTabs = g.textLines.map behindTabs := by
  simp only [textLines, withIndent, map_map, Function.comp_def, behindTabs_lineText]

/-! ## What a program is begun with -/

theorem History.looks {g g' : Generator} {es : List Event} (h : History g es g') :
    g'.looks = g.looks := by
  induction h with
  | refl => rfl
  | snoc _ p ih => exact p.shown.2.trans ih

namespace Generator

theorem label_of_mem_lines {cls : String} {o : Options} {es : List Event} {g : Generator}
    (h : History (.new cls o) es g) {d : Nat} {l : Label}
    (mem : (d, .instr (.label l)) ∈ g.lines.toList) :
    ∃ n, l = labelOf o.withDefaults.labelStem n := by
  have sound := Sound.history h
  have shown : .defined l ∈ g.shown := mem_filterMap.mpr ⟨_, mem, rfl⟩
  rw [← h.filter_use] at shown
  obtain ⟨a, b, split⟩ := append_of_mem (mem_filter.mp shown).1
  have known : l ∈ handed es := by
    rw [split, handed_append]
    exact mem_append_left _ (sound.used a _ b l split rfl).1
  have stem : g.labels.stem = o.withDefaults.labelStem := congrArg (fun x => x.2.2) h.looks
  rw [sound.handed, stem] at known
  obtain ⟨n, -, rfl⟩ := mem_map.mp known
  exact ⟨n, rfl⟩

theorem leadingTabs_run {cls : String} (o : Options) {as : List Action} :
    let g := as.foldl act (.new cls o)
    ∀ x ∈ g.lines.toList, leadingTabs (lineText g.options.indent g.className x.1 x.2) =
      (if o.indent then x.1 else 0) +
        if x.2.definesLabel then leadingTabs o.withDefaults.labelStem else 0 := by
  intro g x mem
  obtain ⟨es, ran⟩ := exists_ran
  have looks : g.looks = _ := ran.history.looks
  have indent : g.options.indent = o.indent := congrArg (fun x => x.2.1.indent) looks
  rw [leadingTabs_lineText, indent]
  congr 1
  obtain ⟨d, l⟩ := x
  cases defines : l.definesLabel with
  | false => exact leadingTabs_text _ defines
  | true =>
    obtain ⟨label, rfl⟩ := Line.definesLabel_iff.mp defines
    obtain ⟨n, rfl⟩ := label_of_mem_lines ran.history mem
    exact (leadingTabs_label _ _).trans (leadingTabs_labelOf _ n)

end Generator

end Jasm.Assembly

import Jasm.Proofs.Assembly.LineFeeds
import Jasm.Proofs.Assembly.Phases
import Jasm.Proofs.Compile.Naming
import Jasm.Proofs.Compile.Publishing
import Jasm.Proofs.Compile.Stacks

/-!
# Lines of a published program

The result of a job tells how many lines its program has. A description may name things as it likes,
with line feeds too, and names are written as they are. The main result says when the text has as
many line feeds as it is told to have lines: if there is none in the names of the class, the global
variables and the functions, nor in the stem of labels if a label is shown. What else a description
holds, string constants above all, does not matter.
-/

namespace Jasm.Assembly

/-- A line that is the same in all classes, but for numbers. -/
def Line.isPlain : Line → Bool
  | .close | .entryPoint | .maxStack _ | .maxLocals _ | .openBody => true
  | _ => false

def Class.code (k : Class) : List Instruction := k.methods.flatMap (·.body) ++ k.entry

section

variable {Q : Line → Prop} (plain : ∀ l, l.isPlain → Q l) {o : Options}
include plain

theorem forall_bodyLines {body : List Instruction} :
    (∀ l ∈ bodyLines o body, Q l) ↔ ∀ i ∈ body, Q (.instr i) := by
  simp [bodyLines, -List.mem_cons, -List.mem_append, List.forall_mem_cons, List.forall_mem_append,
    plain (.maxStack _) rfl, plain (.maxLocals _) rfl, plain .openBody rfl, plain .close rfl]

theorem forall_lines {k : Class} : (∀ l ∈ k.lines o, Q l) ↔
    Q .openClass ∧ (∀ f ∈ k.fields, Q (.field f.1 f.2)) ∧
      (∀ m ∈ k.methods, Q (.method m.name m.arity m.returns)) ∧ ∀ i ∈ k.code, Q (.instr i) := by
  simp only [Class.lines, Class.code, Method.lines, List.cons_append, List.forall_mem_cons,
    List.forall_mem_append, List.forall_mem_map, List.forall_mem_flatMap, forall_bodyLines plain,
    forall_and, and_assoc]
  simp [plain .entryPoint rfl, plain .close rfl]

end

end Jasm.Assembly

namespace Jasm.Compile

open Assembly Next

theorem names_of_has {W : Vocabulary} {cls : String} {i : Instruction} (h : W.Has i)
    (className : '\n' ∉ cls.toList) (fields : ∀ id, W.fields id → '\n' ∉ id.toList)
    (functions : ∀ name, W.functions name → '\n' ∉ name.toList) :
    (∀ name ∈ i.names cls, '\n' ∉ name.toList) ↔
      ((Line.instr i).event?.isSome → '\n' ∉ W.stem.toList) := by
  have shown {l : Label} (h : ∃ n, l = labelOf W.stem n) :
      '\n' ∉ l.toList ↔ '\n' ∉ W.stem.toList := by
    obtain ⟨n, rfl⟩ := h
    rw [← feeds_eq_zero_iff, feeds_labelOf, feeds_eq_zero_iff]
  cases i with
  | loadGlobal id | storeGlobal id =>
    simp [Instruction.names, Line.event?, className, fields id h]
  | invoke name =>
    simp [Instruction.names, Line.event?, className, functions name h]
  | branch _ l | goto l | label l => simp [Instruction.names, Line.event?, shown h]
  | _ => simp [Instruction.names, Line.event?]

theorem names_class_iff {limit : Int} {stem : String} {p : Program} {k : Assembly.Class}
    (h : Scopes.class? limit stem p = some k) (cls : String) (o : Assembly.Options) :
    (∀ l ∈ k.lines o, ∀ name ∈ l.names cls, '\n' ∉ name.toList) ↔
      '\n' ∉ cls.toList ∧ (∀ name ∈ globalNames p, '\n' ∉ name.toList) ∧
        (∀ f ∈ p.functions, '\n' ∉ f.name.toList) ∧
        ∀ l ∈ k.lines o, l.event?.isSome → '\n' ∉ stem.toList := by
  obtain ⟨fields, methods, each, entry⟩ := hasAll_of_class? h
  have code : (vocabulary stem p).HasAll k.code := Vocabulary.hasAll_append.mpr
    ⟨List.forall_mem_flatMap.mpr each, entry⟩
  have globals : (∀ f ∈ k.fields, '\n' ∉ f.1.toList) ↔
      ∀ name ∈ globalNames p, '\n' ∉ name.toList := by
    rw [← fields, List.forall_mem_map]
  have functions : (∀ m ∈ k.methods, '\n' ∉ m.name.toList) ↔
      ∀ f ∈ p.functions, '\n' ∉ f.name.toList := by
    rw [← List.forall_mem_map (f := Method.name) (P := fun name => '\n' ∉ name.toList), methods,
      List.forall_mem_map]
  rw [forall_lines (fun l hl => by cases l <;> simp_all [Line.isPlain, Line.names]),
    forall_lines (fun l hl => by cases l <;> simp_all [Line.isPlain, Line.event?])]
  simp only [Line.names, List.forall_mem_singleton, globals, functions]
  refine and_congr_right fun className => and_congr_right fun globals =>
    and_congr_right fun functions => ?_
  have each : ∀ i ∈ k.code, (∀ name ∈ i.names cls, '\n' ∉ name.toList) ↔
      ((Line.instr i).event?.isSome → '\n' ∉ stem.toList) := fun i hi =>
    names_of_has (code i hi) className globals (List.forall_mem_map.mpr functions)
  simpa [Line.event?] using forall₂_congr each

namespace Walk

variable (cfg : Config) {c : State} {className : String} {o : Assembly.Options}

theorem feeds_text_eq_iff (p : Program) (fresh : c.Fresh className o)
    (clean : (behind (program cfg p) c).Clean) :
    let g := (behind (program cfg p) c).generator
    feeds g.text = g.lineCount ↔
      '\n' ∉ className.toList ∧ (∀ name ∈ globalNames p, '\n' ∉ name.toList) ∧
        (∀ f ∈ p.functions, '\n' ∉ f.name.toList) ∧
        (g.shown ≠ [] → '\n' ∉ o.withDefaults.labelStem.toList) := by
  intro g
  obtain ⟨k, resolved, lines, named⟩ := exists_named_class cfg fresh clean
  have onLines (Q : Line → Prop) :
      (∀ x ∈ g.lines.toList, Q x.2) ↔ ∀ l ∈ k.lines o.withDefaults, Q l := by
    rw [← lines, List.forall_mem_map]
  have shown : (g.shown ≠ [] → '\n' ∉ o.withDefaults.labelStem.toList) ↔
      ∀ l ∈ k.lines o.withDefaults, l.event?.isSome → '\n' ∉ o.withDefaults.labelStem.toList := by
    rw [← onLines fun l => l.event?.isSome → '\n' ∉ o.withDefaults.labelStem.toList]
    simp [Generator.shown, Option.isSome_iff_ne_none]
  rw [shown, Generator.feeds_text_eq_iff, ← names_class_iff resolved, ← onLines, named]

theorem fine_of_close (p : Program) (fine : (behind (close cfg p) c).failed = false) :
    c.failed = false ∧ (behind (close cfg p) c).polls = c.polls ∧
      Generator.SameText c.generator (behind (close cfg p) c).generator := by
  have same := Generator.sameText_close c.generator none
  rcases closed : c.generator.close none with ⟨faults, g⟩
  rw [closed] at same
  rw [behind, run_close cfg closed] at fine ⊢
  cases faults with
  | nil => exact ⟨fine, rfl, same⟩
  | cons f faults =>
    -- A fault would be reported, unless an error was found before.
    cases failed : c.failed <;> rw [failed] at fine <;> cases fine

end Walk

/-! ## Jobs -/

namespace Job

variable {o : Options} {j : Job}

theorem settled_lines (j : Job) : j.settled.lines = j.restored.getD j.result.lines := by
  unfold settled
  cases j.restored <;> rfl

theorem step_of_rank_le (late : j.next.rank ≤ 4) (w : World) :
    (j.step o w).1.next.rank ≤ 4 ∧ (j.step o w).1.settled.lines = j.settled.lines ∧
      ∀ text, (j.step o w).1.next.text? = some text → j.next.text? = some text := by
  obtain ⟨next, result, reporter, span, restored⟩ := j
  cases next with
  | load | check | walk => exact absurd late (by simp [rank])
  | keep d text =>
    have published : (publishing o d text).rank ≤ 4 ∧
        ∀ t, (publishing o d text).text? = some t → some text = some t := by
      unfold publishing
      split <;> simp [rank, text?]
    simp only [step, keep]
    split
    · exact ⟨published.1, rfl, published.2⟩
    · split
      · exact ⟨published.1, rfl, published.2⟩
      · exact ⟨published.1, by simp [settled_lines, report], published.2⟩
  | claim d text =>
    simp only [step, claim]
    split
    · exact ⟨by simp [rank], rfl, fun _ => id⟩
    · exact ⟨by simp [rank], by simp [settled_lines, report], by simp [text?]⟩
  | write target text span =>
    simp only [step, write]
    split
    · exact ⟨by simp [rank], by simp [settled_lines], by simp [text?]⟩
    · exact ⟨by simp [rank, report], by simp [settled_lines, report],
        by simp [text?, report]⟩
  | finish stage =>
    refine ⟨by simp [step, finish, rank], ?_, by simp [step, finish, text?]⟩
    simp only [step, finish, settled_lines]
    cases restored <;> rfl
  | «over» cancelled => exact ⟨late, rfl, fun _ => id⟩

theorem steps_of_rank_le (late : j.next.rank ≤ 4) (n : Nat) (w : World) :
    (j.steps o n w).1.settled.lines = j.settled.lines ∧
      ∀ text, (j.steps o n w).1.next.text? = some text → j.next.text? = some text := by
  induction n generalizing j w with
  | zero => exact ⟨rfl, fun _ => id⟩
  | succ n ih =>
    obtain ⟨late', lines, text⟩ := step_of_rank_le (o := o) late w
    obtain ⟨lines', text'⟩ := ih late' (j.step o w).2
    exact ⟨lines'.trans lines, fun t ht => text t (text' t ht)⟩

theorem text?_walk (o : Options) (j : Job) (d : Draft) (p : Program) (w : World) :
    (j.walk o d p w).1.next.rank ≤ 4 ∧ ∀ text, (j.walk o d p w).1.next.text? = some text →
      text = (walkEnd o j d p w).generator.text.toUTF8.toList := by
  rcases next_walk o j d p w with next | next
  · rw [next]
    simp [rank, text?]
  · rw [next]
    split <;> simp [rank, text?, eq_comm]

theorem fine_walkEnd {o : Options} {j : Job} {d : Draft} {p : Program} {w : World}
    (fine : (walkEnd o j d p w).failed = false) :
    let c := Walk.behind (Walk.program (config o d) p) (walkStart o j d w)
    c.failed = false ∧ (walkEnd o j d p w).polls = c.polls ∧
      Generator.SameText c.generator (walkEnd o j d p w).generator := by
  intro c
  exact Walk.fine_of_close (config o d) (c := c) p fine

/-- A job that goes through a program without finding an error. However it goes on, its result tells
the number of lines that were written, and it publishes nothing but their text. The line feeds in
that text are the lines and the line feeds in the names that are shown. So they are as many as lines
exactly if there is none in the names of the program, of its global variables and of its functions,
nor in the stem of labels if a label is shown. -/
theorem feeds_eq_lines_iff (o : Options) (j : Job) (d : Draft) (p : Program) (w : World)
    (new : j.restored = none) (clean : (walkEnd o j d p w).Clean) :
    let g := (walkEnd o j d p w).generator
    (∀ n w', ((j.walk o d p w).1.steps o n w').1.settled.lines = g.lineCount ∧
      ∀ text, ((j.walk o d p w).1.steps o n w').1.next.text? = some text →
        text = g.text.toUTF8.toList) ∧
    feeds g.text = g.lineCount +
      feeds (String.join (g.lines.toList.flatMap fun x => x.2.names d.program)) ∧
    (feeds g.text = g.lineCount ↔
      '\n' ∉ d.program.toList ∧ (∀ name ∈ globalNames p, '\n' ∉ name.toList) ∧
        (∀ f ∈ p.functions, '\n' ∉ f.name.toList) ∧
        (g.shown ≠ [] → '\n' ∉ o.assembly.withDefaults.labelStem.toList)) := by
  intro g
  have fresh := fresh_walkStart o j d w
  obtain ⟨fine, polls, same⟩ := fine_walkEnd clean.ok
  have clean' := State.Clean.mk fine (polls ▸ clean.live)
  obtain ⟨late, text⟩ := text?_walk o j d p w
  refine ⟨fun n w' => ?_, ?_, ?_⟩
  · obtain ⟨lines, text'⟩ := steps_of_rank_le (o := o) late n w'
    refine ⟨lines.trans ?_, fun t ht => text t (text' t ht)⟩
    rw [settled_lines]
    show j.restored.getD _ = _
    rw [new]
    rfl
  · obtain ⟨k, -, -, named⟩ := Walk.exists_named_class (config o d) fresh clean'
    rw [Generator.feeds_text, show g.className = d.program from same.className.trans named]
  · rw [same.text_eq, same.lineCount_eq, Generator.shown, same.lines]
    exact Walk.feeds_text_eq_iff (config o d) p fresh clean'

/-- A description that prints a text of two lines and sets a global variable of a given name. -/
def twoLines (name : String) : Draft :=
  { program := "two", path := "two.toml"
    globals := [{ tag := "var", name := name, kind := "int" }]
    main := [{ tag := "print", value := some { str := some "a\nb" } },
      { tag := "assign", name := name, value := some { int := some 2 } }] }

/-- The line feed in the text that is printed does no harm. -/
theorem feeds_eq_lines_iff_twoLines :
    let d := twoLines "x"
    ∃ p, d.check.result = some p ∧ (ofDraft {} d 0).restored = none ∧
      (walkEnd {} (ofDraft {} d 0) d p {}).Clean ∧
      feeds (walkEnd {} (ofDraft {} d 0) d p {}).generator.text =
        (walkEnd {} (ofDraft {} d 0) d p {}).generator.lineCount := by
  intro d
  have clean : (walkEnd {} (ofDraft {} d 0) d (d.check.result.get rfl) {}).Clean :=
    ⟨by decide +kernel, by decide +kernel⟩
  obtain ⟨-, -, equal⟩ := feeds_eq_lines_iff {} (ofDraft {} d 0) d _ {} rfl clean
  exact ⟨d.check.result.get rfl, rfl, rfl, clean, equal.mpr (by decide +kernel)⟩

/-- A line feed in the name of a variable is written where the variable is declared and where it is
set, and nothing is found to be wrong. -/
theorem feeds_exceed_lines :
    let d := twoLines "x\ny"
    (compile {} d 0 {}).1.1.failed = false ∧ ∃ p, d.check.result = some p ∧
      (walkEnd {} (ofDraft {} d 0) d p {}).Clean ∧
      feeds (walkEnd {} (ofDraft {} d 0) d p {}).generator.text =
        (compile {} d 0 {}).1.1.lines + 2 := by
  refine ⟨by decide +kernel, (twoLines "x\ny").check.result.get rfl, rfl,
    ⟨by decide +kernel, by decide +kernel⟩, ?_⟩
  rw [Generator.feeds_text]
  decide +kernel

end Job

end Jasm.Compile

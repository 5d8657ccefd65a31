import Std.Data.String.ToNat
import Mathlib.Data.List.Nodup
import Jasm.Draft.Basic
import Jasm.Proofs.Text.Separators

/-!
# Positions

The statements of a unit are numbered in program order, and each is told the way to it as a text.

A way leads from a list of statements to one of them, and from there on into the lists inside it.
The text of a way can be read back: each of its steps ends with a number in brackets. So within one
list of statements, however they are nested, no two of them have the same path.
-/

namespace Jasm.Draft

open List

variable (base : String) (n : Nat) (ss : List Stmt)

/-! ## Ways -/

/-- The list that a step of a way leads into. -/
inductive Part where
  /-- The list in which the way begins. -/
  | top
  | thenPart
  | elsePart
  | bodyPart
  deriving DecidableEq

def Part.text : Part → String
  | .top => ""
  | .thenPart => ".then"
  | .elsePart => ".else"
  | .bodyPart => ".body"

/-- The steps to a statement: in which list to go on, and at which place of it. -/
abbrev Way := List (Part × Nat)

def wayText : Way → String
  | [] => ""
  | (part, i) :: rest => part.text ++ "[" ++ toString i ++ "]" ++ wayText rest

theorem wayText_concat (w : Way) (part : Part) (i : Nat) :
    wayText (w ++ [(part, i)]) = wayText w ++ part.text ++ "[" ++ toString i ++ "]" := by
  induction w with
  | nil => simp [wayText]
  | cons step w ih => simp only [cons_append, wayText, ih, String.append_assoc]

theorem wayText_injective : Function.Injective wayText := by
  have chars (part : Part) (i : Nat) (w : Way) : (wayText ((part, i) :: w)).toList =
      part.text.toList ++ '[' :: ((toString i).toList ++ ']' :: (wayText w).toList) := by
    simp [wayText]
  have plain (part : Part) : '[' ∉ part.text.toList := by cases part <;> decide
  intro v w
  induction v generalizing w with
  | nil =>
    intro same
    cases w with
    | nil => rfl
    | cons step w => simpa [wayText] using congrArg String.toList same
  | cons step v ih =>
    intro same
    have same := congrArg String.toList same
    cases w with
    | nil => simp [wayText] at same
    | cons step' w =>
      rw [chars, chars] at same
      obtain ⟨parts, same⟩ := Text.split_at (plain _) (plain _) same
      obtain ⟨places, rest⟩ := Text.split_at (Text.notMem_nat rfl) (Text.notMem_nat rfl) same
      have part : step.1 = step'.1 := by
        revert parts
        cases step.1 <;> cases step'.1 <;> decide
      have place := Nat.repr_injective (String.toList_inj.mp places)
      rw [Prod.ext part place, ih (String.toList_inj.mp rest)]

/-! ## Program order -/

mutual

/-- A statement and all inside it in program order, with the ways to them. -/
def Stmt.listed (way : Way) : Stmt → List (Way × Stmt)
  | s@⟨_, _, _, _, _, _, _, _, thenBody, elseBody, body, _⟩ =>
    (way, s) :: (listedAll way .thenPart 0 thenBody ++ listedAll way .elsePart 0 elseBody ++
      listedAll way .bodyPart 0 body)

/-- The statements of a list and all inside them; `i` is the place of the first one in it. -/
def listedAll (way : Way) (part : Part) (i : Nat) : List Stmt → List (Way × Stmt)
  | [] => []
  | s :: rest => s.listed (way ++ [(part, i)]) ++ listedAll way part (i + 1) rest

end

/-- All statements of a list in program order, with the ways to them. -/
abbrev listing (stmts : List Stmt) : List (Way × Stmt) := listedAll [] .top 0 stmts

def placed (base : String) (n : Nat) (ways : List Way) : List (Way × Position) :=
  (ways.zipIdx n).map fun x => (x.1, ⟨x.2, base ++ wayText x.1⟩)

theorem placed_cons (w : Way) (ways : List Way) :
    placed base n (w :: ways) = (w, ⟨n, base ++ wayText w⟩) :: placed base (n + 1) ways := rfl

theorem placed_append (v w : List Way) :
    placed base n (v ++ w) = placed base n v ++ placed base (n + v.length) w := by
  simp [placed, zipIdx_append]

@[simp] theorem map_fst_placed (base : String) (n : Nat) (ways : List Way) :
    (placed base n ways).map (·.1) = ways := by
  simp [placed, Function.comp_def]

theorem map_index_placed (ways : List Way) :
    (placed base n ways).map (·.2.index) = List.range' n ways.length := by
  simp [placed, Function.comp_def]

theorem path_of_mem_placed {base : String} {n : Nat} {ways : List Way} {x : Way × Position}
    (mem : x ∈ placed base n ways) : x.2.path = base ++ wayText x.1 := by
  obtain ⟨y, -, rfl⟩ := mem_map.mp mem
  rfl

mutual

theorem listed_locate (base : String) (way : Way) (n : Nat) : (s : Stmt) →
    (s.locate (base ++ wayText way) n).2 = n + (s.listed way).length ∧
      ((s.locate (base ++ wayText way) n).1.listed way).map (fun x => (x.1, x.2.pos)) =
        placed base n ((s.listed way).map (·.1))
  | ⟨_, _, _, _, _, _, _, _, thenBody, elseBody, body, _⟩ => by
    obtain ⟨next₁, h₁⟩ := listedAll_locateAll base way .thenPart 0 (n + 1) thenBody
    obtain ⟨next₂, h₂⟩ := listedAll_locateAll base way .elsePart 0
      (n + 1 + (listedAll way .thenPart 0 thenBody).length) elseBody
    obtain ⟨next₃, h₃⟩ := listedAll_locateAll base way .bodyPart 0
      (n + 1 + (listedAll way .thenPart 0 thenBody).length +
        (listedAll way .elsePart 0 elseBody).length) body
    simp only [Part.text] at next₁ h₁ next₂ h₂ next₃ h₃
    simp only [Stmt.locate, Stmt.listed, next₁, next₂, next₃, length_cons, length_append]
    refine ⟨by omega, ?_⟩
    simp only [map_cons, map_append, h₁, h₂, h₃, placed_cons, placed_append,
      length_map, length_append, ← Nat.add_assoc]

theorem listedAll_locateAll (base : String) (way : Way) (part : Part) (i n : Nat) :
    (ss : List Stmt) →
    (locateAll (base ++ wayText way ++ part.text) i n ss).2 = n + (listedAll way part i ss).length ∧
      (listedAll way part i (locateAll (base ++ wayText way ++ part.text) i n ss).1).map
          (fun x => (x.1, x.2.pos)) =
        placed base n ((listedAll way part i ss).map (·.1))
  | [] => by simp [locateAll, listedAll, placed]
  | s :: rest => by
    have path : s!"{base ++ wayText way ++ part.text}[{i}]" =
        base ++ wayText (way ++ [(part, i)]) := by
      simp only [wayText_concat, ← String.append_assoc]
      rfl
    obtain ⟨next₁, h₁⟩ := listed_locate base (way ++ [(part, i)]) n s
    obtain ⟨next₂, h₂⟩ := listedAll_locateAll base way part (i + 1)
      (n + (s.listed (way ++ [(part, i)])).length) rest
    simp only [locateAll, listedAll, path, next₁, next₂, length_append, map_append, h₁, h₂,
      placed_append, length_map, and_true]
    omega

end

/-! ## Different ways -/

mutual

theorem exists_of_mem_listed {way : Way} : (s : Stmt) → ∀ x ∈ s.listed way, ∃ rest,
    x.1 = way ++ rest
  | ⟨_, _, _, _, _, _, _, _, thenBody, elseBody, body, _⟩, x, mem => by
    simp only [Stmt.listed, mem_cons, mem_append] at mem
    rcases mem with rfl | (mem | mem) | mem
    · exact ⟨[], by simp⟩
    all_goals
      obtain ⟨_, _, _, eq⟩ := exists_of_mem_listedAll _ x mem
      exact ⟨_, eq⟩

theorem exists_of_mem_listedAll {way : Way} {part : Part} {i : Nat} : (ss : List Stmt) →
    ∀ x ∈ listedAll way part i ss, ∃ j rest, i ≤ j ∧ x.1 = way ++ (part, j) :: rest
  | [], x, mem => by simp [listedAll] at mem
  | s :: rest, x, mem => by
    rcases mem_append.mp (by simpa only [listedAll] using mem) with mem | mem
    · obtain ⟨steps, eq⟩ := exists_of_mem_listed s x mem
      exact ⟨i, steps, le_rfl, by simp [eq]⟩
    · obtain ⟨j, steps, le, eq⟩ := exists_of_mem_listedAll rest x mem
      exact ⟨j, steps, by omega, eq⟩

end

theorem ne_of_part_ne {way : Way} {part part' : Part} {ss ss' : List Stmt} (ne : part ≠ part') :
    ∀ v ∈ (listedAll way part 0 ss).map (·.1), ∀ w ∈ (listedAll way part' 0 ss').map
      (·.1), v ≠ w := by
  intro v inV w inW same
  obtain ⟨x, inX, rfl⟩ := mem_map.mp inV
  obtain ⟨y, inY, rfl⟩ := mem_map.mp inW
  obtain ⟨_, _, _, eq⟩ := exists_of_mem_listedAll ss x inX
  obtain ⟨_, _, _, eq'⟩ := exists_of_mem_listedAll ss' y inY
  simp only [eq, eq', append_cancel_left_eq, List.cons.injEq, Prod.mk.injEq] at same
  exact ne same.1.1

mutual

theorem nodup_listed (way : Way) : (s : Stmt) → ((s.listed way).map (·.1)).Nodup
  | ⟨_, _, _, _, _, _, _, _, thenBody, elseBody, body, _⟩ => by
    have inside (part : Part) (ss : List Stmt) : way ∉ (listedAll way part 0 ss).map (·.1) := by
      intro mem
      obtain ⟨x, inX, eq⟩ := mem_map.mp mem
      obtain ⟨_, _, _, longer⟩ := exists_of_mem_listedAll ss x inX
      simp [eq] at longer
    simp only [Stmt.listed, map_cons, map_append, nodup_cons, nodup_append,
      mem_append, not_or]
    refine ⟨⟨⟨inside _ _, inside _ _⟩, inside _ _⟩, ⟨nodup_listedAll _, nodup_listedAll _,
      ne_of_part_ne (by decide)⟩, nodup_listedAll _, ?_⟩
    rintro v (inThen | inElse)
    · exact ne_of_part_ne (by decide) v inThen
    · exact ne_of_part_ne (by decide) v inElse

theorem nodup_listedAll {way : Way} {part : Part} {i : Nat} : (ss : List Stmt) →
    ((listedAll way part i ss).map (·.1)).Nodup
  | [] => by simp [listedAll]
  | s :: rest => by
    simp only [listedAll, map_append, nodup_append]
    refine ⟨nodup_listed _ s, nodup_listedAll rest, ?_⟩
    intro v inV w inW same
    obtain ⟨x, inX, rfl⟩ := mem_map.mp inV
    obtain ⟨y, inY, rfl⟩ := mem_map.mp inW
    obtain ⟨_, eq⟩ := exists_of_mem_listed s x inX
    obtain ⟨_, _, _, eq'⟩ := exists_of_mem_listedAll rest y inY
    rw [eq, eq', append_assoc] at same
    simp only [append_cancel_left_eq, cons_append, List.cons.injEq,
      Prod.mk.injEq] at same
    omega

end

/-! ## The positions of a unit -/

/-- Positions whose numbers run from `n` up to `k`. -/
def Runs (n k : Nat) (ps : List Position) : Prop :=
  k = n + ps.length ∧ ps.map (·.index) = List.range' n ps.length

theorem Runs.cons {n k : Nat} {ps : List Position} (path : String) (run : Runs (n + 1) k ps) :
    Runs n k (⟨n, path⟩ :: ps) := by
  obtain ⟨len, run⟩ := run
  refine ⟨by simp only [length_cons]; omega, ?_⟩
  rw [map_cons, run, length_cons, range'_succ]

theorem Runs.append {n k m : Nat} {ps qs : List Position} (first : Runs n k ps)
    (second : Runs k m qs) : Runs n m (ps ++ qs) := by
  obtain ⟨rfl, run₁⟩ := first
  obtain ⟨rfl, run₂⟩ := second
  refine ⟨by simp only [length_append]; omega, ?_⟩
  rw [map_append, run₁, run₂, length_append, range'_append_1]

theorem map_pos_locateAll :
    (listing (locateAll base 0 n ss).1).map (fun x => (x.1, x.2.pos)) =
      placed base n ((listing ss).map (·.1)) := by
  simpa [Part.text, wayText] using (listedAll_locateAll base [] .top 0 n ss).2

theorem runs_locateAll :
    Runs n (locateAll base 0 n ss).2 ((listing (locateAll base 0 n ss).1).map (·.2.pos)) := by
  have next := (listedAll_locateAll base [] .top 0 n ss).1
  have all := map_pos_locateAll base n ss
  have index := congrArg (List.map (·.2.index)) all
  have length := congrArg List.length (congrArg (List.map (·.1)) all)
  simp only [Part.text, wayText, String.append_empty] at next
  simp only [map_index_placed, map_fst_placed, map_map, Function.comp_def,
    length_map] at index length
  refine ⟨by rw [next, length_map, length], ?_⟩
  rw [map_map, length_map, length]
  exact index

def functionPositions (fs : List Function) : List Position :=
  fs.flatMap fun f => f.pos :: (listing f.body).map (·.2.pos)

def positions (d : Draft) : List Position :=
  (listing d.globals).map (·.2.pos) ++ functionPositions d.functions ++
    d.mainPos :: (listing d.main).map (·.2.pos)

/-- The lists of statements that a unit consists of, each with the text that begins its paths. -/
def sections (d : Draft) : List (String × List Stmt) :=
  ("globals", d.globals) :: d.functions.map (fun f => (s!"fn {f.name}/body", f.body)) ++
    [("main/body", d.main)]

/-- What numbering makes of one of these lists. -/
structure Located (before after : String × List Stmt) : Prop where
  base : after.1 = before.1
  ways : (listing after.2).map (·.1) = (listing before.2).map (·.1)
  path : ∀ x ∈ listing after.2, x.2.pos.path = after.1 ++ wayText x.1
  distinct : ((listing after.2).map (·.2.pos.path)).Nodup
  determines : ∀ x ∈ listing after.2, ∀ y ∈ listing after.2, x.2.pos.path = y.2.pos.path → x = y

theorem located_locateAll :
    Located (base, ss) (base, (locateAll base 0 n ss).1) := by
  have all := map_pos_locateAll base n ss
  have path : ∀ x ∈ listing (locateAll base 0 n ss).1, x.2.pos.path = base ++ wayText x.1 := by
    intro x mem
    exact path_of_mem_placed (all ▸ mem_map.mpr ⟨x, mem, rfl⟩)
  have determines : ∀ x ∈ listing (locateAll base 0 n ss).1,
    ∀ y ∈ listing (locateAll base 0 n ss).1,
      x.2.pos.path = y.2.pos.path → x = y := by
    intro x inX y inY same
    rw [path x inX, path y inY, String.append_right_inj] at same
    exact inj_on_of_nodup_map (nodup_listedAll _) inX inY (wayText_injective same)
  exact {
    base := rfl
    ways := by simpa [Function.comp_def] using congrArg (List.map (·.1)) all
    path
    distinct := (List.Nodup.of_map _ (nodup_listedAll _)).map_on determines
    determines }

theorem runs_locateFunctions (fs : List Function) :
    Runs n (locateFunctions n fs).2 (functionPositions (locateFunctions n fs).1) := by
  induction fs generalizing n with
  | nil => exact ⟨rfl, rfl⟩
  | cons f rest ih =>
    have body := runs_locateAll s!"fn {f.name}/body" (n + 1) f.body
    exact (body.cons s!"fn {f.name}").append (ih _)

theorem located_locateFunctions (fs : List Function) :
    List.Forall₂ Located (fs.map fun f => (s!"fn {f.name}/body", f.body))
      ((locateFunctions n fs).1.map fun f => (s!"fn {f.name}/body", f.body)) := by
  induction fs generalizing n with
  | nil => exact .nil
  | cons f rest ih => exact .cons (located_locateAll _ _ _) (ih _)

/-- Numbering counts everything in a unit once and in program order, and it gives the statements of
each of its lists different paths, from which their places can be read. -/
theorem locate_numbers_and_tells_apart (d : Draft) :
    d.locate.positions.map (·.index) = List.range d.locate.positions.length ∧
      List.Forall₂ Located d.sections d.locate.sections := by
  constructor
  · have globals := runs_locateAll "globals" 0 d.globals
    have functions := runs_locateFunctions (locateAll "globals" 0 0 d.globals).2 d.functions
    have main := runs_locateAll "main/body"
      ((locateFunctions (locateAll "globals" 0 0 d.globals).2 d.functions).2 + 1) d.main
    rw [List.range_eq_range']
    exact ((globals.append functions).append (main.cons "main")).2
  · exact List.rel_append (.cons (located_locateAll _ _ _) (located_locateFunctions _ _))
      (.cons (located_locateAll _ _ _) .nil)

end Jasm.Draft

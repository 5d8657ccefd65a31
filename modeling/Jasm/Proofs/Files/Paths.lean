import Mathlib.Data.List.Infix
import Jasm.Proofs.Files.Ways

/-!
# Paths as text

A path is the text of its parts with slashes between them. Its last part, if that is a name, is the
last name on its way, whatever is done to the parts before it.

The shortest form of a path starts with its steps upwards, of which a rooted path has none, and goes
on with names only. It leads where the path leads. So does the directory part of a path, followed by
its last part: for any path, and whatever its last part is.
-/

namespace Jasm

open Jasm.Path List String

namespace Path

open Files (IsName)

variable {cs : List Char} {name path part last b : String} {ps rest before kept : List String}
  {rooted : Bool}

/-! ## Text and parts -/

theorem splitChars_ne_nil (cs : List Char) : splitChars cs ≠ [] := by
  cases cs with
  | nil => exact cons_ne_nil _ _
  | cons c rest =>
    rw [splitChars]
    split
    · exact cons_ne_nil _ _
    · split <;> exact cons_ne_nil _ _

theorem splitChars_append_slash (a b : List Char) :
    splitChars (a ++ '/' :: b) = splitChars a ++ splitChars b := by
  induction a with
  | nil =>
    obtain ⟨part, parts, h⟩ := exists_cons_of_ne_nil (splitChars_ne_nil b)
    simp [splitChars, h]
  | cons c a ih =>
    obtain ⟨part, parts, h⟩ := exists_cons_of_ne_nil (splitChars_ne_nil a)
    rw [cons_append, splitChars, ih, splitChars, h]
    by_cases hc : c = '/' <;> simp [hc]

theorem splitChars_of_notMem (h : '/' ∉ cs) : splitChars cs = [cs] := by
  induction cs with
  | nil => rfl
  | cons c rest ih =>
    obtain ⟨hc, hrest⟩ := not_or.mp (mem_cons.not.mp h)
    rw [splitChars, ih hrest]
    exact if_neg fun e => hc e.symm

theorem notMem_of_mem_splitChars {part : List Char} (h : part ∈ splitChars cs) :
    '/' ∉ part := by
  induction cs generalizing part with
  | nil =>
    rw [splitChars, mem_singleton] at h
    rw [h]
    exact not_mem_nil
  | cons c rest ih =>
    obtain ⟨first, others, hs⟩ := exists_cons_of_ne_nil (splitChars_ne_nil rest)
    rw [splitChars, hs] at h
    dsimp only at h
    split at h
    · rcases mem_cons.mp h with rfl | h
      · exact not_mem_nil
      · exact ih (hs ▸ h)
    · next hc =>
        rcases mem_cons.mp h with rfl | h
        · refine mem_cons.not.mpr (not_or.mpr ⟨fun e => hc e.symm, ?_⟩)
          exact ih (hs ▸ mem_cons_self)
        · exact ih (hs ▸ mem_cons_of_mem _ h)

theorem parts_slash (a b : String) : parts (a ++ "/" ++ b) = parts a ++ parts b := by
  unfold parts
  rw [toList_append, toList_append, List.append_assoc]
  rw [show "/".toList ++ b.toList = '/' :: b.toList from rfl, splitChars_append_slash,
    map_append]

theorem parts_ne_nil {path : String} : parts path ≠ [] := by
  intro h
  exact splitChars_ne_nil _ (map_eq_nil_iff.mp h)

theorem parts_of_notMem (h : '/' ∉ name.toList) : parts name = [name] := by
  rw [parts, splitChars_of_notMem h, map_singleton, ofList_toList]

theorem notMem_of_mem_parts (h : part ∈ parts path) : '/' ∉ part.toList := by
  obtain ⟨cs, hcs, rfl⟩ := mem_map.mp h
  rw [toList_ofList]
  exact notMem_of_mem_splitChars hcs

theorem parts_intercalate (ne : ps ≠ []) (plain : ∀ p ∈ ps, '/' ∉ p.toList) :
    parts ("/".intercalate ps) = ps := by
  induction ps with
  | nil => exact absurd rfl ne
  | cons p rest ih =>
    have first := parts_of_notMem (plain p mem_cons_self)
    by_cases h : rest = []
    · rw [h, String.intercalate_singleton, first]
    · rw [intercalate_cons_of_ne_nil h, parts_slash, first,
        ih h fun q hq => plain q (mem_cons_of_mem p hq), singleton_append]

theorem intercalate_parts (path : String) : "/".intercalate (parts path) = path := by
  have chars (cs : List Char) :
      "/".intercalate ((splitChars cs).map String.ofList) = String.ofList cs := by
    induction cs with
    | nil => rfl
    | cons c rest ih =>
      obtain ⟨part, others, hs⟩ := exists_cons_of_ne_nil (splitChars_ne_nil rest)
      rw [hs] at ih
      rw [splitChars, hs]
      dsimp only
      split
      · next hc =>
          subst hc
          rw [map_cons, String.intercalate_cons_of_ne_nil (by simp), ih]
          rw [← toList_inj]
          simp
      · rw [map_cons, ofList_cons]
        rw [map_cons] at ih
        by_cases h : others = []
        · subst h
          rw [map_nil, String.intercalate_singleton] at ih ⊢
          rw [ih, ofList_cons]
        · have ne : others.map String.ofList ≠ [] := by simpa using h
          rw [intercalate_cons_of_ne_nil ne] at ih ⊢
          rw [ofList_cons, ← ih]
          simp only [String.append_assoc]
  rw [parts, chars, ofList_toList]

theorem parts_append {a : String} {front : List String} (h : parts a = front ++ [last])
    (plain : '/' ∉ name.toList) : parts (a ++ name) = front ++ [last ++ name] := by
  have all : ∀ p ∈ front ++ [last ++ name], '/' ∉ p.toList := by
    intro p hp
    rcases mem_append.mp hp with hp | hp
    · exact notMem_of_mem_parts (by rw [h]; exact mem_append_left _ hp)
    · rw [mem_singleton.mp hp, toList_append, mem_append, not_or]
      exact ⟨notMem_of_mem_parts (by rw [h]; exact mem_append_right _ mem_cons_self), plain⟩
  have text : a ++ name = "/".intercalate (front ++ [last ++ name]) := by
    rw [← intercalate_parts a, h]
    by_cases hf : front = []
    · rw [hf, nil_append, nil_append, String.intercalate_singleton,
        String.intercalate_singleton]
    · rw [intercalate_append_of_ne_nil hf (cons_ne_nil _ _),
        intercalate_append_of_ne_nil hf (cons_ne_nil _ _),
        String.intercalate_singleton, String.intercalate_singleton, String.append_assoc]
  rw [text, parts_intercalate (by simp) all]

theorem exists_parts (path : String) : ∃ front last, parts path = front ++ [last] :=
  (eq_nil_or_concat' (parts path)).resolve_left parts_ne_nil

/-! ## The last part of a path -/

/-- The last part of a path. -/
def Last (path part : String) : Prop := ∃ before, parts path = before ++ [part]

theorem Last.slash (h : Last b part) {a : String} :
    Last (a ++ "/" ++ b) part := by
  obtain ⟨before, hb⟩ := h
  exact ⟨parts a ++ before, by rw [parts_slash, hb, List.append_assoc]⟩

theorem last_self (h : '/' ∉ name.toList) : Last name name :=
  ⟨[], parts_of_notMem h⟩

theorem Last.notMem (h : Last path part) : '/' ∉ part.toList := by
  obtain ⟨before, hp⟩ := h
  exact notMem_of_mem_parts (by rw [hp]; exact mem_append_right _ mem_cons_self)

theorem keepPart_name (hn : IsName name) (rooted : Bool) (kept : List String) :
    keepPart rooted kept name = name :: kept := by
  simp [keepPart, hn.1, hn.2.1, hn.2.2]

theorem last_intercalate {ps : List String} (h : Last b part) :
    Last ("/".intercalate (ps ++ [b])) part := by
  by_cases hps : ps = []
  · subst hps
    rwa [nil_append, String.intercalate_singleton]
  · rw [intercalate_append_of_ne_nil hps (cons_ne_nil _ _),
      String.intercalate_singleton]
    exact h.slash

theorem Last.clean (h : Last path part) (hn : Files.IsName part) :
    Last (clean path) part := by
  have plain := last_self h.notMem
  obtain ⟨before, hp⟩ := h
  rw [Path.clean, cleanParts, hp, foldl_concat, keepPart_name hn, reverse_cons, ofParts]
  split
  · rw [show "/" = "" ++ "/" from rfl]
    exact (last_intercalate plain).slash
  · rw [if_neg (by simp)]
    exact last_intercalate plain

theorem last_join (ps : List String) (h : Last b part) (hn : Files.IsName part) :
    Last (join (ps ++ [b])) part := by
  have hb : b ≠ "" := by
    rintro rfl
    obtain ⟨before, hp⟩ := h
    rw [show parts "" = [] ++ [""] from rfl] at hp
    exact hn.1 (append_inj_right' hp rfl |> singleton_inj.mp).symm
  have drop : ∃ rest, (ps ++ [b]).dropWhile (· = "") = rest ++ [b] := by
    induction ps with
    | nil => exact ⟨[], by simp [hb]⟩
    | cons p ps ih =>
      rw [cons_append, dropWhile_cons]
      split
      · exact ih
      · exact ⟨p :: ps, rfl⟩
  obtain ⟨rest, hr⟩ := drop
  have joined : join (ps ++ [b]) = Path.clean ("/".intercalate (rest ++ [b])) := by
    unfold join
    rw [hr]
    cases rest <;> rfl
  rw [joined]
  exact (last_intercalate h).clean hn

theorem isRooted_append {a : String} (h : a ≠ "") (b : String) :
    isRooted (a ++ b) = isRooted a := by
  unfold isRooted
  cases ha : a.toList with
  | nil => exact absurd (toList_eq_nil_iff.mp ha) h
  | cons c rest => rw [toList_append, ha, cons_append]; rfl

theorem isRooted_of_head (h : parts path = "" :: rest) (ne : path ≠ "") : isRooted path = true := by
  rw [← intercalate_parts path, h] at ne ⊢
  cases rest with
  | nil => exact absurd rfl ne
  | cons p rest =>
    rw [String.intercalate_cons_cons, isRooted, toList_append, toList_append]
    rfl

/-! ## The form of the parts -/

/-- Steps upwards, of which a rooted path has none, and then names only. -/
def Tidy (rooted : Bool) (ps : List String) : Prop :=
  (∀ p ∈ ps, (p = ".." ∧ rooted = false ∨ IsName p) ∧ '/' ∉ p.toList) ∧
    ps.Pairwise fun first second => IsName first → IsName second

theorem Tidy.notMem (h : Tidy rooted ps) {p : String} (mem : p ∈ ps) : p ≠ "" ∧ '/' ∉ p.toList := by
  obtain ⟨⟨rfl, -⟩ | name, plain⟩ := h.1 p mem
  · decide
  · exact ⟨name.1, plain⟩

theorem Tidy.names (h : Tidy rooted ps) (split : ps = before ++ name :: rest) (hn : IsName name) :
    ∀ p ∈ rest, IsName p := by
  obtain ⟨-, order⟩ := h
  rw [split, pairwise_append, pairwise_cons] at order
  exact fun p hp => order.2.1.1 p hp hn

theorem tidy_keepPart (h : Tidy rooted kept.reverse) (plain : '/' ∉ part.toList) :
    Tidy rooted (keepPart rooted kept part).reverse := by
  simp only [Tidy, mem_reverse, pairwise_reverse] at h ⊢
  obtain ⟨all, order⟩ := h
  unfold keepPart
  split
  · exact ⟨all, order⟩
  · next stays =>
      split
      · cases kept with
        | nil => cases rooted <;> simp
        | cons last before =>
          obtain ⟨behind, order'⟩ := pairwise_cons.mp order
          dsimp only
          split
          · next up =>
              -- only steps upwards are before one
              refine ⟨forall_mem_cons.mpr ⟨up ▸ all _ mem_cons_self, all⟩,
                pairwise_cons.mpr ⟨forall_mem_cons.mpr ⟨fun name => up ▸ name, ?_⟩, order⟩⟩
              exact fun p hp name => up ▸ behind p hp name
          · exact ⟨fun p hp => all p (mem_cons_of_mem _ hp), order'⟩
      · next down =>
          have name : IsName part := by
            simp only [Bool.or_eq_true, decide_eq_true_eq, not_or] at stays
            exact ⟨stays.1, stays.2, down⟩
          exact ⟨forall_mem_cons.mpr ⟨⟨.inr name, plain⟩, all⟩,
            pairwise_cons.mpr ⟨fun _ _ _ => name, order⟩⟩

theorem tidy_cleanParts (path : String) : Tidy (isRooted path) (cleanParts path) :=
  List.foldlRecOn (motive := fun kept : List String => Tidy _ kept.reverse) _ _ ⟨by simp, by simp⟩
    fun _ h _ hp => tidy_keepPart h (notMem_of_mem_parts hp)

/-! ## The text of the parts -/

theorem isRooted_ofParts (h : Tidy rooted ps) :
    isRooted (ofParts rooted ps) = rooted := by
  unfold ofParts
  split
  · next hr => rw [hr, isRooted, toList_append]; rfl
  · next hr =>
      rw [Bool.not_eq_true] at hr
      subst hr
      cases ps with
      | nil => rfl
      | cons p rest =>
        obtain ⟨ne, plain⟩ := h.notMem mem_cons_self
        have first : isRooted p = false := by
          rw [isRooted, decide_eq_false_iff_not]
          intro hs
          exact plain (mem_of_head? hs)
        rw [if_neg (by simp)]
        by_cases hrest : rest = []
        · rw [hrest, String.intercalate_singleton, first]
        · rw [intercalate_cons_of_ne_nil hrest, String.append_assoc, isRooted_append ne,
            first]

/-- The parts of a path in its shortest form: a path that stays in place has the part `.`, and a
rooted one starts with an empty part. -/
def textParts (rooted : Bool) (ps : List String) : List String :=
  if rooted then "" :: (if ps = [] then [""] else ps) else if ps = [] then ["."] else ps

theorem foldl_textParts {α : Type} {f : α → String → α} {x : α} (stays : f x "" = x ∧ f x "." = x)
    (rooted : Bool) (ps : List String) : (textParts rooted ps).foldl f x = ps.foldl f x := by
  unfold textParts
  split <;> split <;> simp_all

theorem parts_ofParts (h : Tidy rooted ps) :
    parts (ofParts rooted ps) = textParts rooted ps := by
  have plain : ∀ p ∈ ps, '/' ∉ p.toList := fun p hp => (h.notMem hp).2
  unfold ofParts textParts
  split
  · rw [show "/" ++ "/".intercalate ps = "" ++ "/" ++ "/".intercalate ps from rfl, parts_slash]
    split
    · next hps => rw [hps]; rfl
    · next hps => rw [parts_intercalate hps plain]; rfl
  · by_cases hps : ps = []
    · rw [hps]; rfl
    · rw [if_neg (by simpa using hps), if_neg hps, parts_intercalate hps plain]

theorem isRooted_clean {path : String} : isRooted (clean path) = isRooted path :=
  isRooted_ofParts (tidy_cleanParts path)

theorem parts_clean (path : String) :
    parts (clean path) = textParts (isRooted path) (cleanParts path) :=
  parts_ofParts (tidy_cleanParts path)

theorem clean_ne_empty (path : String) : clean path ≠ "" := by
  intro h
  have hp := parts_clean path
  rw [h, show parts "" = [""] from rfl, textParts] at hp
  have tidy := tidy_cleanParts path
  split at hp
  · simp only [List.cons.injEq, true_and] at hp
    split at hp
    · cases hp
    · next ne => exact ne hp.symm
  · split at hp
    · exact absurd (singleton_inj.mp hp) (by decide)
    · refine (tidy.notMem ?_).1 rfl
      rw [← hp]
      exact mem_cons_self

theorem names_of_parts_clean (split : parts (clean path) = before ++ name :: rest)
    (hn : IsName name) :
    ∀ p ∈ rest, IsName p := by
  have tidy := tidy_cleanParts path
  rw [parts_clean, textParts] at split
  split at split
  · -- the name is not the empty part that stands first
    cases before with
    | nil => exact absurd (List.cons.inj split).1.symm hn.1
    | cons x before =>
      have split := (List.cons.inj split).2
      split at split
      · have mem : name ∈ [""] := by
          rw [split]
          exact mem_append_right _ mem_cons_self
        exact absurd (mem_singleton.mp mem) hn.1
      · exact tidy.names split hn
  · split at split
    · have mem : name ∈ ["."] := by
        rw [split]
        exact mem_append_right _ mem_cons_self
      exact absurd (mem_singleton.mp mem) hn.2.1
    · exact tidy.names split hn

theorem dir_of_parts (h : parts path = before ++ [last]) :
    dir path = if before = [] then "." else clean ("/".intercalate before ++ "/") := by
  unfold dir
  rw [h, reverse_append, reverse_singleton, singleton_append]
  cases hb : before.reverse with
  | nil => rw [if_pos (reverse_eq_nil_iff.mp hb)]
  | cons x rest =>
    rw [if_neg fun e => by simp [e] at hb]
    dsimp only
    rw [← hb, reverse_reverse]

theorem dir_eq_clean (path : String) : ∃ p, dir path = clean p := by
  obtain ⟨before, last, h⟩ := exists_parts path
  rw [dir_of_parts h]
  split
  · exact ⟨"", rfl⟩
  · exact ⟨_, rfl⟩

end Path

/-! ## Where paths lead -/

namespace Files

theorem wayFrom_append (done a b : List String) :
    wayFrom done (a ++ b) = wayFrom (wayFrom done a).reverse b := by
  simp [wayFrom]

theorem wayFrom_names {names : List String} (h : ∀ p ∈ names, IsName p) (done : List String) :
    wayFrom done names = done.reverse ++ names := by
  induction names generalizing done with
  | nil => simp [wayFrom]
  | cons name rest ih =>
    rw [forall_mem_cons] at h
    show wayFrom (advance done name) rest = _
    rw [advance_name h.1, ih h.2]
    simp

variable {rooted : Bool} {done kept : List String}

theorem foldl_keepPart (hr : rooted = true → done = []) (h : Tidy rooted kept.reverse)
    (part : String) : (keepPart rooted kept part).reverse.foldl advance done =
      advance (kept.reverse.foldl advance done) part := by
  unfold keepPart
  split
  · next stays => rw [advance, if_pos stays]
  · split
    · next up =>
        subst up
        rcases kept with _ | ⟨last, before⟩
        · cases rooted with
          | true =>
            rw [hr rfl]
            rfl
          | false => rfl
        · dsimp only
          split
          · rw [reverse_cons, foldl_concat]
          · next down =>
              obtain ⟨⟨up, -⟩ | name, -⟩ := h.1 last (by simp)
              · exact absurd up down
              · rw [reverse_cons, foldl_concat, advance_name name]
                rfl
    · rw [reverse_cons, foldl_concat]

theorem wayFrom_cleanParts {path : String} (hr : isRooted path = true → done = []) :
    wayFrom done (cleanParts path) = wayFrom done (parts path) := by
  have all (ps : List String) (plain : ∀ p ∈ ps, '/' ∉ p.toList) {kept : List String}
      (h : Tidy (isRooted path) kept.reverse) :
      (ps.foldl (keepPart (isRooted path)) kept).reverse.foldl advance done =
        ps.foldl advance (kept.reverse.foldl advance done) := by
    induction ps generalizing kept with
    | nil => rfl
    | cons part rest ih =>
      rw [forall_mem_cons] at plain
      rw [foldl_cons, foldl_cons, ih plain.2 (tidy_keepPart h plain.1),
        foldl_keepPart hr h]
  rw [wayFrom, wayFrom, cleanParts, all _ (fun _ => notMem_of_mem_parts) ⟨by simp, by simp⟩]
  rfl

theorem partsOf_slash {path : String} (ne : path ≠ "") (rest : String) (fs : Files) :
    fs.partsOf (path ++ "/" ++ rest) = fs.partsOf path ++ parts rest := by
  rw [partsOf, partsOf, parts_slash, String.append_assoc, isRooted_append ne]
  split
  · rfl
  · rw [List.append_assoc]

theorem wayFrom_textParts (rooted : Bool) (done ps : List String) :
    wayFrom done (textParts rooted ps) = wayFrom done ps := by
  rw [wayFrom, foldl_textParts ⟨rfl, rfl⟩, wayFrom]

theorem way_clean (fs : Files) (path : String) : fs.way (Path.clean path) = fs.way path := by
  unfold way partsOf
  rw [isRooted_clean, parts_clean]
  split
  · rw [wayFrom_textParts, wayFrom_cleanParts fun _ => rfl]
  · next hr =>
      rw [wayFrom_append, wayFrom_append, wayFrom_textParts,
        wayFrom_cleanParts fun h => absurd h hr]

theorem way_eq_dir {path last : String} {before : List String}
    (h : parts path = before ++ [last]) (fs : Files) :
    fs.way path = wayFrom (fs.way (dir path)).reverse [last] := by
  have text := intercalate_parts path
  rw [dir_of_parts h]
  split
  · next hb =>
      subst hb
      rw [h, nil_append, String.intercalate_singleton] at text
      have unrooted : isRooted path = false := by
        rw [isRooted, decide_eq_false_iff_not]
        intro hs
        have mem : last ∈ parts path := by rw [h]; exact mem_cons_self
        apply notMem_of_mem_parts mem
        rw [text]
        exact mem_of_head? hs
      rw [way, partsOf, unrooted, if_neg Bool.false_ne_true, h, nil_append, wayFrom_append]
      congr 2
      rw [way, partsOf, if_neg (by decide), wayFrom_append]
      simp [show parts "." = ["."] from rfl, wayFrom, advance]
  · next hb =>
      rw [h, intercalate_append_of_ne_nil hb (cons_ne_nil _ _),
        String.intercalate_singleton] at text
      have ne : "/".intercalate before ++ "/" ≠ "" := by
        intro e
        have := congrArg String.length e
        simp at this
      have rooted : isRooted path = isRooted ("/".intercalate before ++ "/") := by
        rw [← text, isRooted_append ne]
      have plain : ∀ p ∈ before, '/' ∉ p.toList := by
        intro p hp
        exact notMem_of_mem_parts (by rw [h]; exact mem_append_left _ hp)
      have parts : parts ("/".intercalate before ++ "/") = before ++ [""] := by
        have := parts_slash ("/".intercalate before) ""
        rwa [append_empty, parts_intercalate hb plain] at this
      rw [way_clean, way, way, partsOf, partsOf, ← rooted, parts, h]
      split <;> simp [wayFrom, advance]

end Files

end Jasm

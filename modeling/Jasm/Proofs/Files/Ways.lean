import Mathlib.Data.List.Infix
import Jasm.Files.Basic

/-!
# What is where in a file tree

At the end of a way there is nothing, a directory, or a file. Putting a file or an empty directory
where no directory is changes the end of that way only, and so does removing a file. A path that can
be followed leads to a way that is read off its text: what the tree holds decides whether the path
can be followed, but not where it leads.
-/

namespace Jasm

open List

namespace FileNode

variable {node inner n : FileNode} {name x : String} {es : List (String × FileNode)}
  {other : List String}

def bytes? : FileNode → Option ByteArray
  | .file bytes => some bytes
  | .dir _ => none

/-- What is at the end of a way: a directory is `some none`. -/
def shape (way : List String) (n : FileNode) : Option (Option ByteArray) :=
  (n.get? way).map bytes?

@[simp] theorem shape_nil (n : FileNode) : n.shape [] = some n.bytes? := rfl

@[simp] theorem shape_cons_dir (name : String) (way : List String)
    (es : List (String × FileNode)) :
    (dir es).shape (name :: way) = (es.lookup name).bind (shape way) := by
  show (((es.lookup name).bind (get? way)).map bytes?) = _
  cases es.lookup name <;> rfl

theorem mem_of_lookup (h : es.lookup name = some n) : (name, n) ∈ es := by
  obtain ⟨before, after, rfl, -⟩ := lookup_eq_some_iff.mp h
  simp

theorem lookup_of_mem (distinct : (es.map Prod.fst).Nodup) (mem : (name, n) ∈ es) :
    es.lookup name = some n := by
  obtain ⟨before, after, rfl⟩ := append_of_mem mem
  rw [map_append, map_cons, nodup_append] at distinct
  refine lookup_eq_some_iff.mpr ⟨before, after, rfl, fun x inBefore => bne_iff_ne.mpr ?_⟩
  exact (distinct.2.2 x.1 (mem_map_of_mem inBefore) name mem_cons_self).symm

theorem lookup_cons_eq (x name : String) (node : FileNode) (es : List (String × FileNode)) :
    ((name, node) :: es).lookup x = if x = name then some node else es.lookup x := by
  rw [lookup_cons]
  by_cases h : x = name
  · rw [if_pos h, h, beq_self_eq_true]
  · rw [if_neg h, beq_false_of_ne h]

theorem lookup_putEntry (name : String) (es : List (String × FileNode)) (node : FileNode)
    (x : String) :
    (putEntry name node es).lookup x = if x = name then some node else es.lookup x := by
  unfold putEntry
  induction es with
  | nil => rw [insertBy, lookup_cons_eq]
  | cons e rest ih =>
    obtain ⟨n, old⟩ := e
    rw [insertBy]
    dsimp only
    split
    · next h =>
        rw [lookup_cons_eq, lookup_cons_eq, ← h]
        split <;> rfl
    · next h =>
        split
        · rw [lookup_cons_eq]
        · rw [lookup_cons_eq, lookup_cons_eq, ih]
          by_cases hx : x = n
          · rw [if_pos hx, if_pos hx, if_neg fun e => h (e.symm.trans hx)]
          · rw [if_neg hx, if_neg hx]

theorem lookup_filter (name : String) (es : List (String × FileNode)) (x : String) :
    (es.filter (·.1 ≠ name)).lookup x = if x = name then none else es.lookup x := by
  induction es with
  | nil => simp
  | cons e rest ih =>
    obtain ⟨n, old⟩ := e
    rw [filter_cons, lookup_cons_eq]
    by_cases hn : n = name
    · rw [if_neg (by simp [hn]), ih]
      by_cases hx : x = name
      · rw [if_pos hx, if_pos hx]
      · rw [if_neg hx, if_neg hx, if_neg fun e => hx (e.trans hn)]
    · rw [if_pos (by simp [hn]), lookup_cons_eq, ih]
      by_cases hx : x = name
      · rw [if_pos hx, if_pos hx, if_neg fun e => hn (e.symm.trans hx)]
      · rw [if_neg hx, if_neg hx]

theorem get?_append (a b : List String) (n : FileNode) :
    n.get? (a ++ b) = (n.get? a).bind (get? b) := by
  induction a generalizing n with
  | nil => rfl
  | cons name a ih =>
    rw [cons_append, get?, get?]
    cases n.child? name with
    | none => rfl
    | some inner => exact ih inner

theorem shape_cons_of_entries (h : n.entries = []) (name : String) (way : List String) :
    n.shape (name :: way) = none := by
  rw [shape, get?, child?, h]
  rfl

theorem shape_of_append {a b : List String} (hb : b ≠ [])
    (there : n.shape (a ++ b) ≠ none) : n.shape a = some none := by
  obtain ⟨name, rest, rfl⟩ := exists_cons_of_ne_nil hb
  unfold shape at there ⊢
  rw [get?_append] at there
  cases ha : n.get? a with
  | none => rw [ha] at there; exact absurd rfl there
  | some inner =>
    cases inner with
    | dir es => rfl
    | file bytes => rw [ha] at there; exact absurd rfl there

/-- The change of some entries makes `r` the one of a name, and leaves the others. -/
def Sets (f : String → List (String × FileNode) → List (String × FileNode)) (r : Option FileNode) :
    Prop :=
  ∀ name es x, (f name es).lookup x = if x = name then r else es.lookup x

/-- What is changed at the end of a way is seen behind that way only. -/
theorem shape_alter [DecidableEq ByteArray] {r : Option FileNode}
    {f : String → List (String × FileNode) → List (String × FileNode)} (sets : Sets f r)
    {way : List String} (ne : way ≠ []) (n : FileNode) (other : List String) :
    (alter f way n).shape other =
      if way <+: other ∧ n.shape way.dropLast = some none then
        (r.bind (get? (other.drop way.length))).map bytes?
      else n.shape other := by
  induction way generalizing n other with
  | nil => exact absurd rfl ne
  | cons name way ih =>
    cases n with
    | file bytes =>
      have outside : shape (name :: way).dropLast (file bytes) ≠ some none := by
        cases way <;> exact fun h => by cases h
      rw [if_neg fun h => outside h.2]
      cases way <;> rfl
    | dir es =>
      cases way with
      | nil =>
        cases other with
        | nil => simp [alter, bytes?]
        | cons x rest =>
          rw [alter, shape_cons_dir, shape_cons_dir, sets]
          by_cases h : x = name
          · have here : (r.bind (get? rest)).map bytes? = r.bind (shape rest) := Option.map_bind
            simp [h, here, bytes?]
          · simp [h, Ne.symm h]
      | cons y ys =>
        rw [dropLast_cons_cons, shape_cons_dir, alter.eq_def]
        cases hi : es.lookup name with
        | none => simp [hi]
        | some inner =>
          cases other with
          | nil => simp [hi, bytes?]
          | cons x rest =>
            simp only [hi, shape_cons_dir, lookup_putEntry]
            by_cases h : x = name
            · simp [h, hi, ih (cons_ne_nil y ys)]
            · simp [h, Ne.symm h]

theorem shape_put_of_ne (leaf : node.entries = []) {way : List String} (ne : other ≠ way)
    (free : n.shape way ≠ some none) :
    (put node way n).shape other = n.shape other := by
  have behind {rest : List String} (more : rest ≠ []) : node.shape rest =
    n.shape (way ++ rest) := by
    obtain ⟨name, rest, rfl⟩ := exists_cons_of_ne_nil more
    rw [shape_cons_of_entries leaf]
    exact by_contra fun there => free (shape_of_append more (Ne.symm there))
  unfold put
  split
  · next h =>
      subst h
      exact behind ne
  · next h =>
      rw [shape_alter (lookup_putEntry · · node) h]
      split
      · next inside =>
          obtain ⟨⟨rest, rfl⟩, -⟩ := inside
          rw [drop_left]
          exact behind fun e => ne (by simp [e])
      · rfl

theorem shape_put_self {node : FileNode} {before : List String}
    (around : n.shape before = some none) :
    (put node (before ++ [name]) n).shape (before ++ [name]) = some node.bytes? := by
  rw [put, if_neg (by simp), shape_alter (lookup_putEntry · · node) (by simp)]
  simp [around, get?]

theorem shape_put_dir (es : List (String × FileNode)) (way : List String) (n : FileNode) :
    (put (.dir es) way n).shape way = some none ∨
      (put (.dir es) way n).shape way = n.shape way := by
  unfold put
  split
  · next h =>
      subst h
      exact .inl rfl
  · next h =>
      rw [shape_alter (lookup_putEntry · · _) h]
      split
      · exact .inl (by simp [get?, bytes?])
      · exact .inr rfl

theorem shape_erase_of_leaf {way : List String} (ne : other ≠ way) {leaf : FileNode}
    (found : n.get? way = some leaf) (empty : leaf.entries = []) :
    (erase way n).shape other = n.shape other := by
  by_cases h : way = []
  · subst h
    rfl
  · rw [erase, shape_alter lookup_filter h]
    split
    · next inside =>
        obtain ⟨⟨rest, rfl⟩, -⟩ := inside
        obtain ⟨name, rest, rfl⟩ := exists_cons_of_ne_nil (l := rest) fun e => ne (by simp [e])
        rw [shape, get?_append, found]
        exact (shape_cons_of_entries empty name rest).symm
    · rfl

theorem shape_erase_of_ne {way : List String} (ne : other ≠ way) {bytes : ByteArray}
    (file : n.shape way = some (some bytes)) :
    (erase way n).shape other = n.shape other := by
  obtain ⟨leaf, found, hb⟩ := Option.map_eq_some_iff.mp file
  cases leaf with
  | file _ => exact shape_erase_of_leaf ne found rfl
  | dir es => cases hb

theorem shape_erase_self {way : List String} (ne : way ≠ []) (n : FileNode) :
    (erase way n).shape way = none := by
  rw [erase, shape_alter lookup_filter ne]
  split
  · rfl
  · next outside =>
      -- there is no directory around it
      have split : way.dropLast ++ [way.getLast ne] = way := dropLast_append_getLast ne
      refine by_contra fun there => outside ⟨prefix_refl _, ?_⟩
      exact shape_of_append (cons_ne_nil _ []) (split.symm ▸ there)

end FileNode

/-! ## Following paths -/

namespace Files

variable {root : FileNode} {done parts : List String} {node : Option FileNode} {name path : String}
  {fs : Files}

/-- Where the parts of a path lead from a way, which is given in reverse. -/
def wayFrom (done parts : List String) : List String := (parts.foldl advance done).reverse

def partsOf (fs : Files) (path : String) : List String :=
  if Path.isRooted path then Path.parts path else Path.parts fs.cwd ++ Path.parts path

/-- Where a path leads, if it can be followed. -/
def way (fs : Files) (path : String) : List String := wayFrom [] (fs.partsOf path)

/-- A part that is the name of an entry. -/
def IsName (part : String) : Prop := part ≠ "" ∧ part ≠ "." ∧ part ≠ ".."

theorem advance_name (hn : IsName name) (done : List String) :
    advance done name = name :: done := by
  simp [advance, hn.1, hn.2.1, hn.2.2]

theorem wayFrom_append_name (hn : IsName name) (done parts : List String) :
    wayFrom done (parts ++ [name]) = wayFrom done parts ++ [name] := by
  simp [wayFrom, advance_name hn]

theorem follow_eq_ok {way : List String} (h : follow root done parts = .ok (way, node)) :
    way = wayFrom done parts ∧ node = root.get? way := by
  induction parts generalizing done with
  | nil =>
    cases h
    exact ⟨rfl, rfl⟩
  | cons part rest ih =>
    rw [follow] at h
    split at h
    · next hn =>
        split at h
        · next hlast =>
            rw [Bool.and_eq_true, decide_eq_true_iff, List.isEmpty_iff] at hlast
            obtain ⟨rfl, rfl⟩ := hlast
            cases h
            exact ⟨rfl, hn.symm⟩
        · cases h
    · cases h
    · split at h
      · cases h
      · exact ih h

theorem follow_cons_iff {part : String} {rest : List String} {found : List String × Option FileNode}
    (more : part ≠ "" ∨ rest ≠ [] ∨ found.2 ≠ none) : follow root done (part :: rest) = .ok found ↔
      root.shape done.reverse = some none ∧ part.utf8ByteSize ≤ maxName ∧
        follow root (advance done part) rest = .ok found := by
  rw [follow, FileNode.shape]
  rcases root.get? done.reverse with _ | ⟨bytes⟩ | ⟨es⟩
  · refine iff_of_false (fun h => ?_) (by simp)
    dsimp only at h
    split at h <;> cases h
    simp_all
  · simp [FileNode.bytes?]
  · by_cases long : maxName < part.utf8ByteSize
    · simp [long, Nat.not_le_of_lt long]
    · simp [long, FileNode.bytes?, Nat.le_of_not_lt long]

theorem shape_of_follow (hn : IsName name) {way : List String}
    (h : follow root done (parts ++ [name]) = .ok (way, node)) :
    root.shape (wayFrom done parts) = some none := by
  induction parts generalizing done with
  | nil => exact ((follow_cons_iff (.inl hn.1)).mp h).1
  | cons part rest ih => exact ih ((follow_cons_iff (.inr (by simp))).mp h).2.2

theorem follow_of_dirs {root' : FileNode} (hn : IsName name)
    (dirs : ∀ way, root.shape way = some none → root'.shape way = some none) {way : List String}
    (h : follow root done (parts ++ [name]) = .ok (way, node)) :
    follow root' done (parts ++ [name]) = .ok (way, root'.get? way) := by
  induction parts generalizing done with
  | nil =>
    obtain ⟨dir, short, last⟩ := (follow_cons_iff (.inl hn.1)).mp h
    refine (follow_cons_iff (.inl hn.1)).mpr ⟨dirs _ dir, short, ?_⟩
    cases last
    rfl
  | cons part rest ih =>
    obtain ⟨dir, short, last⟩ := (follow_cons_iff (.inr (by simp))).mp h
    exact (follow_cons_iff (.inr (by simp))).mpr ⟨dirs _ dir, short, ih last⟩

/-- The text of a path that a system looks at. -/
def IsText (path : String) : Prop :=
  '\x00' ∉ path.toList ∧ path ≠ "" ∧ path.utf8ByteSize ≤ maxPath

theorem resolve_iff {found : List String × Option FileNode} : fs.resolve path = .ok found ↔
    IsText path ∧ follow fs.root [] (fs.partsOf path) = .ok found := by
  rw [resolve, IsText, partsOf]
  by_cases nul : '\x00' ∈ path.toList
  · simp [nul]
  · by_cases none : path = ""
    · simp [none]
    · by_cases long : maxPath < path.utf8ByteSize
      · simp [nul, none, long, Nat.not_le_of_lt long]
      · simp [nul, none, long, Nat.le_of_not_lt long]

theorem resolve_way {way : List String} (h : fs.resolve path = .ok (way, node)) :
    way = fs.way path ∧ node = fs.root.get? way :=
  follow_eq_ok (resolve_iff.mp h).2

theorem resolve_of_dirs {fs' : Files} {before way : List String}
    (hp : fs.partsOf path = before ++ [name]) (hn : IsName name) (cwd : fs'.cwd = fs.cwd)
    (dirs : ∀ way, fs.root.shape way = some none → fs'.root.shape way = some none)
    (h : fs.resolve path = .ok (way, node)) : fs'.resolve path = .ok (way, fs'.root.get? way) := by
  obtain ⟨text, followed⟩ := resolve_iff.mp h
  have hp' : fs'.partsOf path = before ++ [name] := by rw [partsOf, cwd, ← hp, partsOf]
  rw [hp] at followed
  refine resolve_iff.mpr ⟨text, ?_⟩
  rw [hp']
  exact follow_of_dirs hn dirs followed

theorem node_iff {n : FileNode} :
    fs.node path = .ok n ↔ fs.resolve path = .ok (fs.way path, some n) := by
  unfold Files.node
  rcases hr : fs.resolve path with e | ⟨way, found⟩
  · constructor <;> intro h <;> cases h
  · obtain ⟨rfl, -⟩ := resolve_way hr
    cases found <;> constructor <;> intro h <;> cases h <;> rfl

/-- The file at the end of a way. -/
def file? (fs : Files) (way : List String) : Option ByteArray := (fs.root.shape way).join

theorem read_iff {bytes : ByteArray} : fs.read path = .ok bytes ↔
    (∃ found, fs.resolve path = .ok found) ∧ fs.file? (fs.way path) = some bytes := by
  unfold read Files.node
  rcases hr : fs.resolve path with e | ⟨way, found⟩
  · simp [bind, Except.bind]
  · obtain ⟨rfl, there⟩ := resolve_way hr
    rw [file?, FileNode.shape, ← there]
    rcases found with _ | ⟨bytes⟩ | ⟨es⟩ <;>
      simp [FileNode.bytes?, bind, Except.bind, pure, Except.pure, throw, throwThe,
        MonadExceptOf.throw]

end Files

end Jasm

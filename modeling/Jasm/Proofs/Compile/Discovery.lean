import Jasm.Compile.All
import Jasm.Proofs.Diagnostic.Sorting
import Jasm.Proofs.Files.Replacing

/-!
# Finding units

Which units are found at some paths depends on what the file tree holds there, but on neither the
order of the paths nor how often one is given. What can be followed can be followed in its shortest
form, so that each unit is found again under the path it was found by.
-/

namespace Jasm

open Jasm.Path Files List FileNode

/-! ## Paths in their shortest form -/

namespace Path

variable {c : Char} {path part p : String} {ps kept : List String} {rooted : Bool}

theorem mem_splitChars {cs : List Char} (hc : c ≠ '/') :
    c ∈ cs ↔ ∃ part ∈ splitChars cs, c ∈ part := by
  induction cs with
  | nil => simp [splitChars]
  | cons d rest ih =>
    obtain ⟨part, parts, hs⟩ := exists_cons_of_ne_nil (splitChars_ne_nil rest)
    rw [hs] at ih
    rw [splitChars, hs]
    by_cases hd : d = '/' <;> simp [hd, ih, hc, or_assoc]

theorem mem_toList (hc : c ≠ '/') : c ∈ path.toList ↔ ∃ part ∈ parts path, c ∈ part.toList := by
  rw [mem_splitChars hc, parts]
  simp

theorem mem_of_mem_cleanParts (mem : p ∈ cleanParts path) : p ∈ parts path := by
  have kept : ∀ p ∈ (parts path).foldl (keepPart (isRooted path)) [], p ∈ parts path := by
    refine List.foldlRecOn (motive := fun kept => ∀ p ∈ kept, p ∈ parts path) _ _ (by simp) ?_
    intro kept all part hp
    unfold keepPart
    grind
  exact kept p (mem_reverse.mp mem)

theorem Tidy.tail (h : Tidy rooted (p :: ps)) : Tidy rooted ps :=
  ⟨(forall_mem_cons.mp h.1).2, (pairwise_cons.mp h.2).2⟩

theorem tidy_of_names (h : ∀ p ∈ ps, IsName p ∧ '/' ∉ p.toList) : Tidy true ps :=
  ⟨fun p hp => ⟨.inr (h p hp).1, (h p hp).2⟩,
    pairwise_of_forall_mem_list fun _ _ q hq _ => (h q hq).1⟩

theorem foldl_keepPart_of_tidy (h : Tidy rooted (kept.reverse ++ ps)) :
    ps.foldl (keepPart rooted) kept = ps.reverse ++ kept := by
  induction ps generalizing kept with
  | nil => rfl
  | cons p rest ih =>
    have step : keepPart rooted kept p = p :: kept := by
      obtain ⟨⟨rfl, rfl⟩ | name, -⟩ := h.1 p (by simp)
      · cases kept with
        | nil => rfl
        | cons last before =>
          -- a name before a step upwards would have been taken back
          have up : last = ".." := by
            obtain ⟨⟨up, -⟩ | name, -⟩ := h.1 last (by simp)
            · exact up
            · have split : (last :: before).reverse ++ ".." :: rest =
                  before.reverse ++ last :: ".." :: rest := by simp
              exact absurd rfl (h.names split name ".." mem_cons_self).2.2
          rw [up]
          rfl
      · exact keepPart_name name rooted kept
    rw [foldl_cons, step, ih (by simpa using h)]
    simp

theorem clean_clean {path : String} : clean (clean path) = clean path := by
  have again : cleanParts (clean path) = cleanParts path := by
    have fold : (cleanParts path).foldl (keepPart (isRooted path)) [] =
      (cleanParts path).reverse ++ [] :=
      foldl_keepPart_of_tidy (tidy_cleanParts path)
    rw [cleanParts, isRooted_clean, parts_clean, foldl_textParts ⟨rfl, rfl⟩, fold, append_nil,
      reverse_reverse]
  rw [clean, isRooted_clean, again]
  rfl

end Path

/-! ## Following them -/

namespace Files

variable {fs : Files} {root n : FileNode} {done a b ps way : List String} {part path : String}
  {rooted : Bool}

theorem follow_some_iff {rest : List String} : follow root done (part :: rest) = .ok (way, some n) ↔
    root.shape done.reverse = some none ∧ part.utf8ByteSize ≤ maxName ∧
      follow root (advance done part) rest = .ok (way, some n) :=
  follow_cons_iff (.inr (.inr nofun))

theorem follow_append {found : List String} {m : FileNode}
    (h : follow root done (a ++ b) = .ok (way, some n)) (x : List String) :
    follow root done (a ++ x) = .ok (found, some m) ↔
      follow root (a.foldl advance done) x = .ok (found, some m) := by
  induction a generalizing done with
  | nil => rfl
  | cons part a ih =>
    obtain ⟨dir, short, h⟩ := follow_some_iff.mp h
    rw [cons_append, follow_some_iff, ih h]
    simp [dir, short]

theorem short_of_follow (h : follow root done ps = .ok (way, some n)) :
    ∀ p ∈ ps, p.utf8ByteSize ≤ maxName := by
  induction ps generalizing done with
  | nil => simp
  | cons part rest ih =>
    obtain ⟨-, short, h⟩ := follow_some_iff.mp h
    exact forall_mem_cons.mpr ⟨short, ih h⟩

theorem shape_ne_none (found : root.get? way = some n) : root.shape way ≠ none := by
  simp [shape, found]

theorem follow_tidy (tidy : Tidy rooted ps) (short : ∀ p ∈ ps, p.utf8ByteSize ≤ maxName)
    (dir : ps ≠ [] → root.shape done.reverse = some none)
    (there : root.get? (wayFrom done ps) = some n) :
    follow root done ps = .ok (wayFrom done ps, some n) := by
  induction ps generalizing done with
  | nil =>
    rw [← there]
    rfl
  | cons p rest ih =>
    replace dir := dir (cons_ne_nil p rest)
    rw [forall_mem_cons] at short
    refine follow_some_iff.mpr ⟨dir, short.1, ?_⟩
    refine ih tidy.tail short.2 (fun more => ?_) there
    obtain ⟨⟨rfl, -⟩ | name, -⟩ := tidy.1 p mem_cons_self
    · -- what is around a directory is a directory
      cases done with
      | nil => exact dir
      | cons last before =>
        rw [reverse_cons] at dir
        exact shape_of_append (cons_ne_nil last []) (dir ▸ Option.some_ne_none _)
    · have names := wayFrom_names (tidy.names (nil_append _).symm name) (advance done p)
      exact shape_of_append more (shape_ne_none (names ▸ there))

theorem follow_below {m : FileNode} (h : follow root done a = .ok (way, some n))
    (names : ∀ p ∈ ps, (IsName p ∧ '/' ∉ p.toList) ∧ p.utf8ByteSize ≤ maxName)
    (there : n.get? ps = some m) : follow root done (a ++ ps) = .ok (way ++ ps, some m) := by
  obtain ⟨rfl, found⟩ := follow_eq_ok h
  have below : wayFrom (a.foldl advance done) ps = wayFrom done a ++ ps :=
    wayFrom_names (fun p hp => (names p hp).1.1) _
  have whole : root.get? (wayFrom done a ++ ps) = some m := by
    rw [get?_append, ← found]
    exact there
  rw [← append_nil a] at h
  rw [follow_append h, ← below]
  refine follow_tidy (tidy_of_names fun p hp => (names p hp).1) (fun p hp => (names p hp).2)
    (fun more => ?_) (below ▸ whole)
  exact shape_of_append more (shape_ne_none whole)

theorem follow_textParts (dir : root.shape done.reverse = some none) :
    follow root done (textParts rooted ps) = .ok (way, some n) ↔
      follow root done ps = .ok (way, some n) := by
  have stays (s : String) (hs : s = "" ∨ s = ".") (rest : List String) :
      follow root done (s :: rest) = .ok (way, some n) ↔
        follow root done rest = .ok (way, some n) := by
    rw [follow_some_iff]
    rcases hs with rfl | rfl <;> exact ⟨fun h => h.2.2, fun h => ⟨dir, by decide, h⟩⟩
  unfold textParts
  split <;> split <;> simp_all

/-- What can be followed can be followed in its shortest form. -/
theorem follow_clean (h : follow fs.root [] (fs.partsOf path) = .ok (way, some n)) :
    follow fs.root [] (fs.partsOf (clean path)) = .ok (fs.way path, some n) := by
  obtain ⟨base, hbase, rooted⟩ : ∃ base, (∀ p, isRooted p = isRooted path →
      fs.partsOf p = base ++ parts p) ∧ (isRooted path = true → base = []) := by
    by_cases hr : isRooted path = true
    · exact ⟨[], fun p h => by simp [partsOf, h, hr], fun _ => rfl⟩
    · exact ⟨parts fs.cwd, fun p h => by simp [partsOf, h, hr], fun h => absurd h hr⟩
  have there := (follow_eq_ok h).2
  rw [(follow_eq_ok h).1] at there
  have way : fs.way path = wayFrom (base.foldl advance []) (cleanParts path) := by
    rw [wayFrom_cleanParts fun hr => by rw [rooted hr]; rfl, Files.way, hbase path rfl, wayFrom,
      foldl_append, wayFrom]
  rw [hbase path rfl] at h
  have followed := (follow_append h _).mp h
  have short := short_of_follow followed
  have dir : fs.root.shape (base.foldl advance []).reverse = some none := by
    obtain ⟨first, rest, hp⟩ := exists_cons_of_ne_nil parts_ne_nil
    rw [hp] at followed
    exact (follow_some_iff.mp followed).1
  rw [hbase _ isRooted_clean, parts_clean, follow_append h, follow_textParts dir, way]
  exact follow_tidy (tidy_cleanParts path) (fun p hp => short p (mem_of_mem_cleanParts hp))
    (fun _ => dir) (way ▸ there.symm)

theorem node_clean (h : follow fs.root [] (fs.partsOf path) = .ok (way, some n))
    (text : ∀ p ∈ parts path, '\x00' ∉ p.toList) :
    fs.node (clean path) = .ok n ↔ (clean path).utf8ByteSize ≤ maxPath := by
  have nul : '\x00' ∉ (clean path).toList := by
    rw [mem_toList (by decide), parts_clean]
    rintro ⟨p, mem, nul⟩
    have known : p = "" ∨ p = "." ∨ p ∈ cleanParts path := by
      unfold textParts at mem
      grind
    rcases known with rfl | rfl | known
    · simp at nul
    · simp at nul
    · exact text p (mem_of_mem_cleanParts known) nul
  rw [node_iff, resolve_iff, way_clean, IsText, and_iff_left (follow_clean h)]
  simp [nul, clean_ne_empty]

end Files

/-! ## Trees -/

namespace FileNode

variable {es : List (String × FileNode)} {n m : FileNode} {name : String} {way : List String}
  {bytes : ByteArray}

/-- The names that entries of a directory can have. -/
def isEntryName (name : String) : Bool :=
  name ≠ "" && name ≠ "." && name ≠ ".." && !name.toList.contains '/' &&
    name.utf8ByteSize ≤ maxName && !name.toList.contains '\x00'

mutual

/-- Whether the entries of each directory have names that they can have, and different ones. -/
def isProper : FileNode → Bool
  | .file _ => true
  | .dir es => (es.map Prod.fst).Nodup && areProper es

def areProper : List (String × FileNode) → Bool
  | [] => true
  | (name, n) :: rest => isEntryName name && n.isProper && areProper rest

end

theorem mem_filesOf : (name :: way, bytes) ∈ filesOf es ↔
    ∃ n, (name, n) ∈ es ∧ (way, bytes) ∈ n.files := by
  induction es with
  | nil => simp [filesOf]
  | cons e rest ih =>
    rw [filesOf]
    grind

theorem nil_notMem_filesOf : ([], bytes) ∉ filesOf es := by
  induction es with
  | nil => simp [filesOf]
  | cons e rest ih => simp [filesOf, ih]

theorem isProper_dir : (dir es).isProper = true ↔ (es.map Prod.fst).Nodup ∧
    ∀ e ∈ es, isEntryName e.1 = true ∧ e.2.isProper = true := by
  have all : areProper es = true ↔ ∀ e ∈ es, isEntryName e.1 = true ∧ e.2.isProper = true := by
    induction es with
    | nil => simp [areProper]
    | cons e rest ih => simp [areProper, ih]
  rw [isProper, Bool.and_eq_true, decide_eq_true_iff, all]

theorem proper_of_get? (proper : n.isProper = true) (found : n.get? way = some m) :
    m.isProper = true ∧ ∀ name ∈ way, isEntryName name = true := by
  induction way generalizing n with
  | nil =>
    cases found
    exact ⟨proper, by simp⟩
  | cons name way ih =>
    obtain ⟨child, here, behind⟩ := Option.bind_eq_some_iff.mp found
    cases n with
    | file bytes => cases here
    | dir es =>
      obtain ⟨named, inner⟩ := (isProper_dir.mp proper).2 _ (mem_of_lookup here)
      exact ⟨(ih inner behind).1, forall_mem_cons.mpr ⟨named, (ih inner behind).2⟩⟩

theorem mem_files (proper : n.isProper = true) :
    (way, bytes) ∈ n.files ↔ n.get? way = some (.file bytes) := by
  induction way generalizing n with
  | nil =>
    cases n with
    | file bytes' => simp [files, get?, eq_comm]
    | dir es => simp [files, nil_notMem_filesOf, get?]
  | cons name way ih =>
    cases n with
    | file bytes' => simp [files, get?, child?, entries]
    | dir es =>
      obtain ⟨distinct, all⟩ := isProper_dir.mp proper
      rw [files, mem_filesOf, get?, Option.bind_eq_some_iff]
      constructor
      · rintro ⟨child, mem, found⟩
        exact ⟨child, lookup_of_mem distinct mem, (ih (all _ mem).2).mp found⟩
      · rintro ⟨child, here, found⟩
        have mem := mem_of_lookup here
        exact ⟨child, mem, (ih (all _ mem).2).mpr found⟩

theorem mem_dirsOf : name :: way ∈ dirsOf es ↔ ∃ n, (name, n) ∈ es ∧ way ∈ n.dirs := by
  induction es with
  | nil => simp [dirsOf]
  | cons e rest ih =>
    rw [dirsOf]
    grind

theorem nil_notMem_dirsOf : [] ∉ dirsOf es := by
  induction es with
  | nil => simp [dirsOf]
  | cons e rest ih => simp [dirsOf, ih]

theorem get?_of_mem_dirs (proper : n.isProper = true) (mem : way ∈ n.dirs) :
    ∃ es, n.get? way = some (.dir es) := by
  induction way generalizing n with
  | nil =>
    cases n with
    | file bytes => cases mem
    | dir es => exact ⟨es, rfl⟩
  | cons name way ih =>
    cases n with
    | file bytes => cases mem
    | dir es =>
      obtain ⟨distinct, all⟩ := isProper_dir.mp proper
      obtain ⟨child, here, mem⟩ := mem_dirsOf.mp ((mem_cons.mp mem).resolve_left (cons_ne_nil _ _))
      obtain ⟨inner, found⟩ := ih (all _ here).2 mem
      exact ⟨inner, Option.bind_eq_some_iff.mpr ⟨child, lookup_of_mem distinct here, found⟩⟩

end FileNode

/-! ## Units -/

namespace Compile

variable {fs : Files} {root u name : String} {roots : List String} {n : FileNode}

/-- A path stands for a unit: for itself if it is a file, and else for each file below it that has
the name of a unit. -/
def StandsFor (fs : Files) (root u : String) : Prop :=
  ∃ n, fs.node root = .ok n ∧ ((∃ bytes, n = .file bytes) ∧ u = clean root ∨
    ∃ way name bytes, n.get? (way ++ [name]) = some (.file bytes) ∧
      (".toml".toList <:+ name.toList ∧ name ≠ "jasmc.toml") ∧ u = join (root :: (way ++ [name])))

theorem isUnitName_iff {name : String} :
    isUnitName name = true ↔ ".toml".toList <:+ name.toList ∧ name ≠ "jasmc.toml" := by
  rw [isUnitName, Bool.and_eq_true, FileOp.endsWith_iff, decide_eq_true_iff]
  rfl

theorem standsFor_file {bytes : ByteArray} (here : fs.node root = .ok (.file bytes)) :
    StandsFor fs root u ↔ u = clean root := by
  constructor
  · rintro ⟨n, here', ⟨-, rfl⟩ | ⟨way, name, _, there, -⟩⟩
    · rfl
    · cases here.symm.trans here'
      cases way <;> cases there
  · rintro rfl
    exact ⟨_, here, .inl ⟨⟨bytes, rfl⟩, rfl⟩⟩

theorem standsFor_dir {es : List (String × FileNode)} (proper : (dir es).isProper = true)
    (here : fs.node root = .ok (.dir es)) : StandsFor fs root u ↔
      ∃ way ∈ filesOf es, isUnitName (way.1.getLastD "") = true ∧ join (root :: way.1) = u := by
  constructor
  · rintro ⟨n, here', ⟨⟨bytes, rfl⟩, -⟩ | ⟨way, name, bytes, there, unit, rfl⟩⟩
    · cases here.symm.trans here'
    · cases here.symm.trans here'
      refine ⟨_, (mem_files proper).mpr there, ?_, rfl⟩
      rw [getLastD_concat]
      exact isUnitName_iff.mpr unit
  · rintro ⟨⟨way, bytes⟩, mem, unit, rfl⟩
    rcases eq_nil_or_concat' way with rfl | ⟨way, name, rfl⟩
    · exact absurd mem nil_notMem_filesOf
    · rw [getLastD_concat, isUnitName_iff] at unit
      exact ⟨_, here, .inr ⟨way, name, bytes, (mem_files proper).mp mem, unit, rfl⟩⟩

theorem forM_eq_ok {ε α : Type} {f : α → Except ε PUnit} {as : List α}
    (h : ∀ a ∈ as, f a = .ok ⟨⟩) : as.forM f = .ok ⟨⟩ := by
  induction as with
  | nil => rfl
  | cons a rest ih =>
    rw [forall_mem_cons] at h
    show f a >>= (fun _ => rest.forM f) = _
    rw [h.1]
    exact ih h.2

theorem exists?_iff : fs.exists? root = true ↔ ∃ n, fs.node root = .ok n := by
  unfold Files.exists?
  cases fs.node root <;> simp [Except.toBool]

/-- The ways to the directories below a path. -/
def dirsBelow (fs : Files) (root : String) : List (List String) :=
  match fs.node root with
  | .ok n => dirsOf n.entries
  | .error _ => []

/-- The path of each directory below a path is one that can be opened: it is not too long. -/
def Open (fs : Files) (root : String) : Prop :=
  ∀ way ∈ dirsBelow fs root, (join (root :: way)).utf8ByteSize ≤ maxPath

instance (fs : Files) (root : String) : Decidable (Open fs root) :=
  inferInstanceAs (Decidable (∀ way ∈ _, _))

theorem open_of_file {bytes : ByteArray} (here : fs.node root = .ok (.file bytes)) :
    Open fs root := by
  simp [Open, dirsBelow, here, entries, dirsOf]

/-- What lies below a path is found by its own path, if that is short enough. -/
theorem node_join {m : FileNode} {ws : List String} (proper : fs.root.isProper = true)
    (here : fs.node root = .ok n) (more : ws ≠ []) (there : n.get? ws = some m) :
    clean (join (root :: ws)) = join (root :: ws) ∧
      (fs.node (join (root :: ws)) = .ok m ↔ (join (root :: ws)).utf8ByteSize ≤ maxPath) := by
  obtain ⟨⟨nul, ne, -⟩, followed⟩ := resolve_iff.mp (node_iff.mp here)
  have text : ∀ p ∈ parts root, '\x00' ∉ p.toList := fun p hp hc =>
    nul ((mem_toList (by decide)).mpr ⟨p, hp, hc⟩)
  have inner := (proper_of_get? proper (resolve_way (node_iff.mp here)).2.symm).1
  have named : ∀ p ∈ ws, (IsName p ∧ '/' ∉ p.toList) ∧ p.utf8ByteSize ≤ maxName ∧
      '\x00' ∉ p.toList := by
    intro p hp
    simpa [isEntryName, IsName, and_assoc] using (proper_of_get? inner there).2 p hp
  have split : parts ("/".intercalate ws) = ws := parts_intercalate more fun p hp =>
    (named p hp).1.2
  have joined : join (root :: ws) = clean (root ++ "/" ++ "/".intercalate ws) := by
    rw [join, dropWhile_cons_of_neg (by simpa using ne)]
    exact congrArg clean (String.intercalate_cons_of_ne_nil more)
  have below := follow_below followed (fun p hp => ⟨(named p hp).1, (named p hp).2.1⟩) there
  rw [joined]
  refine ⟨clean_clean, node_clean (by rwa [partsOf_slash ne, split]) ?_⟩
  rw [parts_slash, split]
  exact fun p hp => (mem_append.mp hp).elim (text p) fun hp => (named p hp).2.2

theorem unitsAt_ok (proper : fs.root.isProper = true) (there : fs.exists? root = true)
    (opens : Open fs root) :
    ∃ units, unitsAt fs root = .ok units ∧ ∀ u, u ∈ units ↔ StandsFor fs root u := by
  obtain ⟨n, here⟩ := exists?_iff.mp there
  have inner := (proper_of_get? proper (resolve_way (node_iff.mp here)).2.symm).1
  rw [unitsAt, here]
  cases n with
  | file bytes => exact ⟨_, rfl, fun u => mem_singleton.trans (standsFor_file here).symm⟩
  | dir es =>
    have opened : (dirsOf es).forM (fun way => openDir fs (join (root :: way))) = .ok ⟨⟩ := by
      refine forM_eq_ok fun way mem => ?_
      obtain ⟨inside, found⟩ := get?_of_mem_dirs inner (mem_cons_of_mem _ mem)
      have more : way ≠ [] := fun nil => nil_notMem_dirsOf (nil ▸ mem)
      have short := opens way (by rw [dirsBelow, here]; exact mem)
      rw [openDir, (node_join proper here more found).2.mpr short]
    refine ⟨_, by simp only [opened]; rfl, fun u => ?_⟩
    rw [standsFor_dir inner here]
    simp

theorem listUnits_ok (proper : fs.root.isProper = true)
    (all : ∀ root ∈ roots, fs.exists? root = true) (opens : ∀ root ∈ roots, Open fs root) :
    ∃ units, listUnits fs roots = .ok units ∧
      units.Pairwise (· < ·) ∧ ∀ u, u ∈ units ↔ ∃ root ∈ roots, StandsFor fs root u := by
  have found : ∃ found, roots.mapM (unitsAt fs) = .ok found ∧
      ∀ u, u ∈ found.flatten ↔ ∃ root ∈ roots, StandsFor fs root u := by
    induction roots with
    | nil => exact ⟨[], rfl, by simp⟩
    | cons root rest ih =>
      rw [forall_mem_cons] at all opens
      obtain ⟨found, hf, mem⟩ := ih all.2 opens.2
      obtain ⟨units, hu, mem'⟩ := unitsAt_ok proper all.1 opens.1
      refine ⟨units :: found, ?_, by simp [mem, mem']⟩
      rw [mapM_cons, hu, hf]
      rfl
  obtain ⟨found, hf, mem⟩ := found
  have same : ∀ x ∈ found.flatten, ∀ y ∈ found.flatten, id x = id y → x = y := fun _ _ _ _ h => h
  refine ⟨sortBy id found.flatten, ?_, pairwise_sortBy, fun u => (mem_sortBy same u).trans (mem u)⟩
  rw [listUnits, hf]
  rfl

theorem exists_of_mapM {found : List (List String)} (h : roots.mapM (unitsAt fs) = .ok found) :
    ∀ root ∈ roots, fs.exists? root = true := by
  induction roots generalizing found with
  | nil => simp
  | cons root rest ih =>
    rw [mapM_cons] at h
    cases hu : unitsAt fs root with
    | error f => rw [hu] at h; cases h
    | ok units =>
      cases hr : rest.mapM (unitsAt fs) with
      | error f => rw [hu, hr] at h; cases h
      | ok others =>
        refine forall_mem_cons.mpr ⟨?_, ih hr⟩
        unfold unitsAt at hu
        cases here : fs.node root with
        | error e => rw [here] at hu; cases hu
        | ok n => exact exists?_iff.mpr ⟨n, here⟩

theorem exists_of_listUnits {units : List String} (h : listUnits fs roots = .ok units) :
    ∀ root ∈ roots, fs.exists? root = true := by
  unfold listUnits at h
  cases found : roots.mapM (unitsAt fs) with
  | error f => rw [found] at h; cases h
  | ok all => exact exists_of_mapM found

/-- A unit that was found is found by its own path, if that is short enough. -/
theorem StandsFor.again (proper : fs.root.isProper = true) (h : StandsFor fs root u) :
    clean u = u ∧ ∃ bytes, fs.node u = .ok (.file bytes) ↔ u.utf8ByteSize ≤ maxPath := by
  obtain ⟨n, here, ⟨⟨bytes, rfl⟩, rfl⟩ | ⟨way, name, bytes, there, -, rfl⟩⟩ := h
  · obtain ⟨⟨nul, -, -⟩, followed⟩ := resolve_iff.mp (node_iff.mp here)
    have text : ∀ p ∈ parts root, '\x00' ∉ p.toList := fun p hp hc =>
      nul ((mem_toList (by decide)).mpr ⟨p, hp, hc⟩)
    exact ⟨clean_clean, bytes, node_clean followed text⟩
  · obtain ⟨cleaned, found⟩ := node_join proper here (by simp) there
    exact ⟨cleaned, bytes, found⟩

end Compile

end Jasm

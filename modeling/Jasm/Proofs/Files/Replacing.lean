import Std.Data.String.ToNat
import Mathlib.Data.List.Nodup
import Mathlib.Data.List.Perm.Subperm
import Jasm.Proofs.Files.Paths
import Jasm.Proofs.Text.Separators

/-!
# Replacing a file is all or nothing

Whichever step of replacing a file fails, and whatever it leaves behind, all files are as before;
only directories on the way to the file may have been made. If no step fails the file holds the new
bytes, and nothing else differs. In both cases the temporary file is gone.

Operations are described by what holds after they succeeded and what holds after they failed. While
the temporary file is there, the tree is the one before with one more file in it, which can always
be written and removed.
-/

namespace Jasm

open Jasm.Path FileNode List Option String Files

/-! ## Directories on a way -/

namespace FileNode

theorem shape_dropLast {way : List String} {n : FileNode} (h : n.shape way = some none) :
    n.shape way.dropLast = some none := by
  by_cases hw : way = []
  · subst hw
    exact h
  · refine shape_of_append (cons_ne_nil (way.getLast hw) []) ?_
    rw [dropLast_append_getLast, h]
    exact some_ne_none _

end FileNode

/-! ## Paths around a path -/

namespace Path

/-- Text that a path starts with, up to one of its slashes or to its end. -/
structure Around (outer path : String) : Prop where
  rooted : isRooted outer = isRooted path
  parts : ∃ rest, parts path = parts outer ++ rest

theorem Around.refl (path : String) : Around path path := ⟨rfl, [], by simp⟩

theorem Around.trans {a b c : String} (first : Around a b) (second : Around b c) : Around a c := by
  obtain ⟨rest, hb⟩ := first.parts
  obtain ⟨rest', hc⟩ := second.parts
  exact ⟨first.rooted.trans second.rooted, rest ++ rest', by rw [hc, hb, List.append_assoc]⟩

end Path

namespace FileOp

theorem around_parent? {path outer : String} (h : parent? path = some outer) :
    Around outer path := by
  unfold parent? at h
  dsimp only at h
  split at h
  · cases h
  · next long =>
      obtain rfl := Option.some.inj h
      generalize hb : (path.toList.reverse.dropWhile (· = '/')).dropWhile (· ≠ '/') = before at long
      obtain ⟨x, outer, rfl⟩ : ∃ x outer, before = x :: outer := by
        apply exists_cons_of_ne_nil
        rintro rfl
        exact long (by simp)
      have slash : x = '/' := by
        have := head?_dropWhile_not (· ≠ '/') (path.toList.reverse.dropWhile (· = '/'))
        rw [hb] at this
        simpa using this
      subst slash
      -- the path is the outer one, a slash, and more text
      obtain ⟨tail, ht⟩ : ('/' :: outer) <:+ path.toList.reverse := by
        rw [← hb]
        exact (dropWhile_suffix _).trans (dropWhile_suffix _)
      have text : path = String.ofList outer.reverse ++ "/" ++ String.ofList tail.reverse := by
        rw [← toList_inj, ← reverse_inj, ← ht]
        simp
      have ne : String.ofList outer.reverse ≠ "" := by
        intro e
        have : outer.reverse = [] := by
          rw [← toList_ofList (l := outer.reverse), e]
          rfl
        rw [reverse_eq_nil_iff] at this
        exact long (by simp [this])
      rw [tail_cons]
      clear h hb ht
      subst text
      refine ⟨?_, Path.parts (String.ofList tail.reverse), parts_slash _ _⟩
      rw [String.append_assoc, isRooted_append ne]

theorem around_outer? {levels : Nat} {path outer : String} (h : outer? levels path = some outer) :
    Around outer path := by
  induction levels generalizing path with
  | zero => exact around_parent? h
  | succ levels ih =>
    obtain ⟨p, hp, h⟩ := bind_eq_some_iff.mp h
    exact (ih h).trans (around_parent? hp)

end FileOp

/-! ## What changes -/

namespace Files

variable {fs fs' fs₁ fs₂ : Files}

theorem partsOf_eq {path part : String} (h : Last path part) (fs : Files) :
    ∃ before, fs.partsOf path = before ++ [part] := by
  obtain ⟨before, hp⟩ := h
  unfold partsOf
  split
  · exact ⟨before, hp⟩
  · exact ⟨Path.parts fs.cwd ++ before, by rw [hp, List.append_assoc]⟩

theorem getLast?_way {path part : String} (h : Last path part) (hn : IsName part)
    (fs : Files) : (fs.way path).getLast? = some part := by
  obtain ⟨before, hp⟩ := partsOf_eq h fs
  rw [way, hp, wayFrom_append_name hn]
  simp

/-- Only files at ways in `W` may differ, and no directory is gone. -/
structure SameBut (W : List String → Prop) (fs fs' : Files) : Prop where
  cwd : fs'.cwd = fs.cwd
  files : ∀ way, ¬ W way → fs'.file? way = fs.file? way
  dirs : ∀ way, fs.root.shape way = some none → fs'.root.shape way = some none

namespace SameBut

variable {W V : List String → Prop}

theorem trans (first : SameBut W fs fs₁) (second : SameBut W fs₁ fs₂) : SameBut W fs fs₂ where
  cwd := second.cwd.trans first.cwd
  files way h := (second.files way h).trans (first.files way h)
  dirs way h := second.dirs way (first.dirs way h)

theorem mono (h : SameBut W fs fs') (weaker : ∀ way, W way → V way) : SameBut V fs fs' :=
  ⟨h.cwd, fun way hv => h.files way fun hw => hv (weaker way hw), h.dirs⟩

theorem way (h : SameBut W fs fs') (path : String) : fs'.way path = fs.way path := by
  rw [Files.way, Files.way, partsOf, partsOf, h.cwd]

theorem read {path part : String} {bytes : ByteArray} (h : SameBut W fs fs')
    (hl : Last path part) (hn : IsName part) (apart : ¬ W (fs.way path))
    (found : fs.read path = .ok bytes) : fs'.read path = .ok bytes := by
  obtain ⟨before, hp⟩ := partsOf_eq hl fs
  obtain ⟨⟨_, hr⟩, file⟩ := read_iff.mp found
  refine read_iff.mpr ⟨⟨_, resolve_of_dirs hp hn h.cwd h.dirs hr⟩, ?_⟩
  rw [h.way, h.files _ apart, file]

end SameBut

/-- No directory is gone, and outside `W` everything is as before, but that missing directories on
the way `dir` may have been made. -/
structure Spared (W : List String → Prop) (dir : List String) (fs fs' : Files) : Prop where
  cwd : fs'.cwd = fs.cwd
  dirs : ∀ way, fs.root.shape way = some none → fs'.root.shape way = some none
  shapes : ∀ way, ¬ W way → fs'.root.shape way = fs.root.shape way ∨
    fs.root.shape way = none ∧ fs'.root.shape way = some none ∧ way <+: dir

namespace Spared

variable {W V : List String → Prop} {dir : List String}

theorem of_shapes (cwd : fs'.cwd = fs.cwd)
    (shapes : ∀ way, fs'.root.shape way = fs.root.shape way ∨
      fs.root.shape way = none ∧ fs'.root.shape way = some none ∧ way <+: dir) :
    Spared W dir fs fs' := by
  refine ⟨cwd, fun way isDir => ?_, fun way _ => shapes way⟩
  rcases shapes way with same | ⟨-, made, -⟩
  · exact same.trans isDir
  · exact made

theorem refl (fs : Files) : Spared W dir fs fs := of_shapes rfl fun _ => .inl rfl

theorem mono (h : Spared W dir fs fs') (weaker : ∀ way, W way → V way) : Spared V dir fs fs' :=
  ⟨h.cwd, h.dirs, fun way hv => h.shapes way fun hw => hv (weaker way hw)⟩

theorem trans (first : Spared W dir fs fs₁) (second : Spared W dir fs₁ fs₂) :
    Spared W dir fs fs₂ := by
  refine ⟨second.cwd.trans first.cwd, fun way h => second.dirs way (first.dirs way h), ?_⟩
  intro way hw
  rcases first.shapes way hw with h₁ | ⟨nothing, made, on⟩
  · rw [← h₁]
    exact second.shapes way hw
  · exact .inr ⟨nothing, second.dirs way made, on⟩

theorem sameBut (h : Spared W dir fs fs') : SameBut W fs fs' := by
  refine ⟨h.cwd, fun way hw => ?_, h.dirs⟩
  unfold file?
  rcases h.shapes way hw with same | ⟨nothing, made, -⟩
  · rw [same]
  · rw [nothing, made]
    rfl

end Spared

theorem exists_name_of_follow {root : FileNode} {done parts way : List String}
    (there : root.get? done.reverse ≠ none) (h : follow root done parts = .ok (way, none)) :
    ∃ before name rest, parts = before ++ name :: rest ∧ IsName name ∧ ∀ p ∈ rest, p = "" := by
  induction parts generalizing done with
  | nil =>
    rw [follow] at h
    injection h with h
    exact absurd (congrArg Prod.snd h) there
  | cons part rest ih =>
    rw [follow] at h
    split at h
    · next hn => exact absurd hn there
    · cases h
    · next es hd =>
        split at h
        · cases h
        · by_cases gone : root.get? (advance done part).reverse = none
          · -- nothing is there, so that only a slash can follow
            refine ⟨[], part, rest, rfl, ?_, ?_⟩
            · unfold advance at gone
              split at gone
              · exact absurd gone there
              · next stays =>
                  split at gone
                  · have dir : root.shape done.reverse = some none := by rw [shape, hd]; rfl
                    have around := shape_dropLast dir
                    rw [dropLast_reverse, shape, gone] at around
                    cases around
                  · next down =>
                      simp only [Bool.or_eq_true, decide_eq_true_eq, not_or] at stays
                      exact ⟨stays.1, stays.2, down⟩
            · cases rest with
              | nil => simp
              | cons next rest =>
                rw [follow, gone] at h
                dsimp only at h
                split at h
                · next last =>
                    simp only [Bool.and_eq_true, decide_eq_true_eq, List.isEmpty_iff] at last
                    simp [last.1, last.2]
                · cases h
          · obtain ⟨before, name, rest', rfl, found⟩ := ih gone h
            exact ⟨part :: before, name, rest', rfl, found⟩

theorem way_isPrefix {outer path : String} (around : Around outer (clean path))
    {way : List String} (h : fs.resolve outer = .ok (way, none)) :
    fs.way outer <+: fs.way (clean path) := by
  obtain ⟨rest, hrest⟩ := around.parts
  have start : fs.root.get? ([] : List String).reverse ≠ none := some_ne_none _
  obtain ⟨before, name, tail, split, hn, empty⟩ := exists_name_of_follow start (resolve_iff.mp h).2
  -- the name is one of the path's own parts
  obtain ⟨front, own⟩ : ∃ front, Path.parts outer = front ++ name :: tail := by
    unfold partsOf at split
    split at split
    · exact ⟨before, split⟩
    · next unrooted =>
        obtain ⟨mid, -, hmid⟩ | ⟨mid, -, hmid⟩ := append_eq_append_iff.mp split
        · exact ⟨mid, hmid⟩
        · cases mid with
          | nil => exact ⟨[], hmid.symm⟩
          | cons x mid =>
            obtain ⟨first, others, hp⟩ := exists_cons_of_ne_nil parts_ne_nil
            have inTail : first ∈ tail := by
              rw [(List.cons.inj hmid).2, hp]
              exact mem_append_right _ mem_cons_self
            rw [empty first inTail] at hp
            exact absurd (isRooted_of_head hp (resolve_iff.mp h).1.2.1) unrooted
  have whole : Path.parts (clean path) = front ++ name :: (tail ++ rest) := by
    rw [hrest, own, List.append_assoc, cons_append]
  have names := names_of_parts_clean whole hn
  have longer : fs.partsOf (clean path) = fs.partsOf outer ++ rest := by
    unfold partsOf
    rw [around.rooted, hrest]
    split
    · rfl
    · rw [List.append_assoc]
  rw [Files.way, Files.way, longer, wayFrom_append,
    wayFrom_names fun p hp => names p (mem_append_right _ hp), reverse_reverse]
  exact prefix_append _ _

theorem putFile {path name : String} {before : List String} {node : Option FileNode}
    (hp : fs.partsOf path = before ++ [name]) (hn : IsName name)
    (hr : fs.resolve path = .ok (fs.way path, node))
    (free : fs.root.shape (fs.way path) ≠ some none) {bytes : ByteArray} :
    let fs' : Files := { fs with root := .put (.file bytes) (fs.way path) fs.root }
    fs'.resolve path = .ok (fs.way path, some (.file bytes)) ∧
      ∀ way, way ≠ fs.way path → fs'.root.shape way = fs.root.shape way := by
  have hway : fs.way path = wayFrom [] before ++ [name] := by
    rw [way, hp, wayFrom_append_name hn]
  have around : fs.root.shape (wayFrom [] before) = some none := by
    have hf := (resolve_iff.mp hr).2
    rw [hp] at hf
    exact shape_of_follow hn hf
  have others (way : List String) (ne : way ≠ fs.way path) :
      (put (.file bytes) (fs.way path) fs.root).shape way = fs.root.shape way :=
    shape_put_of_ne rfl ne free
  have file : FileNode.get? (fs.way path) (.put (.file bytes) (fs.way path) fs.root) =
      some (.file bytes) := by
    have there : (put (.file bytes) (fs.way path) fs.root).shape (fs.way path) =
        some (some bytes) := by
      rw [hway]
      exact shape_put_self around
    obtain ⟨n, hget, hb⟩ := map_eq_some_iff.mp there
    cases n with
    | dir es => cases hb
    | file found => rw [hget]; cases hb; rfl
  refine ⟨?_, others⟩
  rw [← file]
  refine resolve_of_dirs hp hn rfl (fun way isDir => ?_) hr
  exact (others way fun e => free (e ▸ isDir)).trans isDir

theorem shape_of_get?_none {way : List String} (h : none = fs.root.get? way) :
    fs.root.shape way = none := by
  rw [FileNode.shape, ← h]
  rfl

end Files

namespace FileOp

open Files (Spared SameBut IsName)

variable {fs fs' : Files} {n : FileNode} {temp : String} {bytes : ByteArray} {fs₁ : Files}

/-! ## What holds after an operation -/

/-- What holds after an operation succeeded, and what after it failed. -/
structure Meets {ε α : Type} (m : ExceptT ε (StateM Files) α) (fs : Files)
    (P : α → Files → Prop) (F : Files → Prop) : Prop where
  ok : ∀ {a fs'}, m.run.run fs = (.ok a, fs') → P a fs'
  failed : ∀ {e fs'}, m.run.run fs = (.error e, fs') → F fs'

namespace Meets

variable {ε α β : Type} {P P' : α → Files → Prop} {Q : β → Files → Prop} {F F' : Files → Prop}
  {m : ExceptT ε (StateM Files) α}

theorem of_ok {a : α} (run : m.run.run fs = (.ok a, fs')) (h : P a fs') : Meets m fs P F := by
  constructor
  · intro _ _ run'
    cases run.symm.trans run'
    exact h
  · intro _ _ run'
    cases run.symm.trans run'

theorem of_error {e : ε} (run : m.run.run fs = (.error e, fs')) (h : F fs') : Meets m fs P F := by
  constructor
  · intro _ _ run'
    cases run.symm.trans run'
  · intro _ _ run'
    cases run.symm.trans run'
    exact h

theorem imp (h : Meets m fs P F) (ok : ∀ a fs', P a fs' → P' a fs')
    (failed : ∀ fs', F fs' → F' fs') : Meets m fs P' F' :=
  ⟨fun run => ok _ _ (h.ok run), fun run => failed _ (h.failed run)⟩

theorem bind {k : α → ExceptT ε (StateM Files) β} (first : Meets m fs P F)
    (second : ∀ a fs', P a fs' → Meets (k a) fs' Q F) :
    Meets (m >>= k) fs Q F := by
  have run : (m >>= k).run.run fs =
      (ExceptT.bindCont k (m.run.run fs).1).run (m.run.run fs).2 := rfl
  cases hm : m.run.run fs with
  | mk r fs' =>
    rw [hm] at run
    cases r with
    | error e => exact of_error run (first.failed hm)
    | ok a =>
      have next := second a fs' (first.ok hm)
      exact ⟨fun h => next.ok (run.symm.trans h), fun h => next.failed (run.symm.trans h)⟩

theorem get_bind {k : Files → ExceptT ε (StateM Files) β} (h : Meets (k fs) fs Q F) :
    Meets ((get : ExceptT ε (StateM Files) Files) >>= k) fs Q F :=
  ⟨h.ok, h.failed⟩

theorem tryCatch {m : FileOp α} {handler : FileFault → FileOp α} (h : Meets m fs P F)
    (handled : ∀ e fs', F fs' → Meets (handler e) fs' P F') :
    Meets (tryCatchThe FileFault m handler) fs P F' := by
  have run : (tryCatchThe FileFault m handler).run.run fs =
      (fun p : Except FileFault α × Files => match p.1 with
        | .ok a => (.ok a, p.2)
        | .error e => (handler e).run.run p.2) (m.run.run fs) := by
    simp only [tryCatchThe, MonadExceptOf.tryCatch, ExceptT.tryCatch, ExceptT.run, ExceptT.mk,
      StateT.run_bind]
    rcases StateT.run m fs with ⟨_ | _, _⟩ <;> rfl
  cases hm : m.run.run fs with
  | mk r fs' =>
    rw [hm] at run
    cases r with
    | ok a => exact of_ok run (h.ok hm)
    | error e =>
      have next := handled e fs' (h.failed hm)
      exact ⟨fun h => next.ok (run.symm.trans h), fun h => next.failed (run.symm.trans h)⟩

theorem step {op : FileOp α} (h : Meets op fs P F) {cleanUp : FileOp Unit}
    (cleaned : ∀ fs', F fs' → F' (cleanUp.run.run fs').2) {what : String} :
    Meets (FileOp.step what cleanUp op) fs P F' := by
  cases hop : op.run.run fs with
  | mk r fs' =>
    cases r with
    | ok a =>
      refine of_ok ?_ (h.ok hop)
      show FileOp.step what cleanUp op fs = _
      rw [FileOp.step, hop]
    | error e =>
      have run : (FileOp.step what cleanUp op).run.run fs =
          (.error s!"{what}: {e.message}", (cleanUp.run.run fs').2) := by
        show FileOp.step what cleanUp op fs = _
        rw [FileOp.step, hop]
      exact of_error run (cleaned fs' (h.failed hop))

theorem risk {hazard : Option Errno} {part op : FileOp Unit} {P : Unit → Files → Prop}
    (hit : ∀ e, hazard = some e → Meets part fs (fun _ => F) F)
    (whole : hazard = none → Meets op fs P F) (operation : String) (paths : List String) :
    Meets (FileOp.risk hazard operation paths part op) fs P F := by
  cases hazard with
  | none => exact whole rfl
  | some e => exact (hit e rfl).bind fun _ _ h => of_error rfl h

end Meets

/-! ## Making directories -/

theorem meets_makeDir {outer path : String} (around : Around outer (clean path))
    (fs : Files) :
    Meets (makeDir outer) fs
      (fun _ => Spared (fun _ => False) (fs.way (clean path)) fs)
      (Spared (fun _ => False) (fs.way (clean path)) fs) := by
  rw [makeDir]
  apply Meets.get_bind
  cases hr : fs.resolve outer with
  | error e => exact .of_error rfl (.refl fs)
  | ok found =>
    obtain ⟨way, node⟩ := found
    cases node with
    | some n => exact .of_error rfl (.refl fs)
    | none =>
      have on := way_isPrefix around hr
      obtain ⟨rfl, hnode⟩ := resolve_way hr
      have nothing := shape_of_get?_none hnode
      refine .of_ok rfl (.of_shapes rfl fun other => ?_)
      by_cases ho : other = fs.way outer
      · rw [ho]
        rcases shape_put_dir [] (fs.way outer) fs.root with made | same
        · exact .inr ⟨nothing, made, on⟩
        · exact .inl same
      · refine .inl (shape_put_of_ne rfl ho ?_)
        rw [nothing]
        exact (some_ne_none _).symm

theorem meets_makeDirsWithin (limit : Nat) {outer path : String}
    (around : Around outer (clean path)) (fs : Files) :
    Meets (makeDirsWithin limit outer) fs
      (fun _ => Spared (fun _ => False) (fs.way (clean path)) fs)
      (Spared (fun _ => False) (fs.way (clean path)) fs) := by
  induction limit generalizing outer fs with
  | zero => exact .of_ok rfl (.refl fs)
  | succ limit ih =>
    have last (fs₁ : Files) (made : Spared (fun _ => False) (fs.way (clean path)) fs fs₁) :
        Meets (makeDir outer) fs₁
          (fun _ => Spared (fun _ => False) (fs.way (clean path)) fs)
          (Spared (fun _ => False) (fs.way (clean path)) fs) := by
      have one := meets_makeDir around fs₁
      rw [made.sameBut.way] at one
      exact one.imp (fun _ _ h => made.trans h) fun _ h => made.trans h
    rw [makeDirsWithin]
    apply Meets.get_bind
    cases fs.node outer with
    | ok n =>
      cases n with
      | dir es => exact .of_ok rfl (.refl fs)
      | file bytes => exact .of_error rfl (.refl fs)
    | error e =>
      cases hp : parent? outer with
      | none => exact last fs (.refl fs)
      | some p => exact (ih ((around_parent? hp).trans around) fs).bind fun _ => last

theorem makeDirs_of_isDir {path : String} (h : fs.isDir path = true) :
    (makeDirs path).run.run fs = (.ok (), fs) := by
  unfold Files.isDir at h
  rw [makeDirs, makeDirsWithin, ExceptT.run_bind, StateT.run_bind]
  show StateT.run (ExceptT.run _) fs = _
  cases hn : fs.node path with
  | error e => rw [hn] at h; cases h
  | ok n =>
    cases n with
    | file bytes => rw [hn] at h; cases h
    | dir es => rfl

theorem meets_makeDirs {path : String} {fs : Files} :
    Meets (makeDirs (Path.dir path)) fs
      (fun _ fs' => Spared (fun _ => False) (fs.way (Path.dir path)) fs fs' ∧
        (fs.isDir (Path.dir path) = true → fs' = fs))
      (fun fs' => Spared (fun _ => False) (fs.way (Path.dir path)) fs fs' ∧
        fs.isDir (Path.dir path) ≠ true) := by
  by_cases there : fs.isDir (Path.dir path) = true
  · exact .of_ok (makeDirs_of_isDir there) ⟨.refl fs, fun _ => rfl⟩
  · obtain ⟨p, hp⟩ := dir_eq_clean path
    have made := meets_makeDirsWithin ((clean p).length + 1) (.refl (clean p)) fs
    rw [← hp] at made
    exact made.imp (fun _ _ h => ⟨h, fun h => absurd h there⟩) fun _ h => ⟨h, there⟩

theorem meets_makeOuter {levels : Nat} {path : String} {fs : Files} :
    Meets (makeOuter levels (Path.dir path)) fs
      (fun _ => Spared (fun _ => False) (fs.way (Path.dir path)) fs)
      (Spared (fun _ => False) (fs.way (Path.dir path)) fs) := by
  obtain ⟨p, hp⟩ := dir_eq_clean path
  rw [hp, makeOuter]
  cases ho : outer? levels (clean p) with
  | none => exact .of_ok rfl (.refl fs)
  | some outer => exact meets_makeDirsWithin _ (around_outer? ho) fs

/-! ## The temporary file -/

/-- The tree before with one more file in it, which is found by its path. -/
structure Holds (fs : Files) (temp : String) (bytes : ByteArray) (fs' : Files) : Prop where
  cwd : fs'.cwd = fs.cwd
  nothing : fs.root.shape (fs.way temp) = none
  others : ∀ way, way ≠ fs.way temp → fs'.root.shape way = fs.root.shape way
  found : fs'.resolve temp = .ok (fs.way temp, some (.file bytes))
  last : ∃ before name, fs.partsOf temp = before ++ [name] ∧ IsName name

namespace Holds

variable {temp path : String} {bytes : ByteArray}

section

variable (h : Holds fs temp bytes fs')
include h

theorem shape :
    fs'.root.shape (fs.way temp) = some (some bytes) := by
  rw [FileNode.shape, ← (resolve_way h.found).2]
  rfl

theorem way {path : String} : fs'.way path = fs.way path := by
  rw [Files.way, Files.way, Files.partsOf, Files.partsOf, h.cwd]

theorem dirs {way : List String} :
    fs'.root.shape way = some none ↔ fs.root.shape way = some none := by
  by_cases hw : way = fs.way temp
  · rw [hw, h.shape, h.nothing]
    simp
  · rw [h.others way hw]

theorem write {new : ByteArray} :
    ∃ fs₁, (FileOp.write temp new).run.run fs' = (.ok (), fs₁) ∧ Holds fs temp new fs₁ := by
  obtain ⟨before, name, hp, hn⟩ := h.last
  have run : (FileOp.write temp new).run.run fs' =
      (.ok (), { fs' with root := .put (.file new) (fs'.way temp) fs'.root }) := by
    show (orFail "open" [temp] (fs'.resolve temp) >>= _).run.run fs' = _
    rw [h.found, h.way]
    rfl
  have hr := h.found
  rw [← h.way] at hr
  have free : fs'.root.shape (fs'.way temp) ≠ some none := by
    rw [h.way, h.shape]
    simp
  have hp' : fs'.partsOf temp = before ++ [name] := by
    rw [partsOf, h.cwd]
    exact hp
  obtain ⟨found, others⟩ := putFile hp' hn hr free
  rw [h.way] at found others
  refine ⟨_, run, h.cwd, h.nothing, fun way ne => ?_, ?_, h.last⟩
  · rw [h.way]
    exact (others way ne).trans (h.others way ne)
  · rw [h.way]
    exact found

theorem shape_erase {way : List String} :
    (fs'.root.erase (fs.way temp)).shape way = fs.root.shape way := by
  by_cases hw : way = fs.way temp
  · obtain ⟨before, name, hp, hn⟩ := h.last
    have ne : fs.way temp ≠ [] := by
      rw [Files.way, hp, Files.wayFrom_append_name hn]
      simp
    rw [hw, h.nothing]
    exact shape_erase_self ne fs'.root
  · rw [← h.others way hw]
    exact shape_erase_of_ne hw h.shape

theorem remove (dir : List String) :
    Spared (fun _ => False) dir fs ((FileOp.remove temp).run.run fs').2 := by
  have run : (FileOp.remove temp).run.run fs' =
      (.ok (), { fs' with root := fs'.root.erase (fs.way temp) }) := by
    show (orFail "remove" [temp] (fs'.resolve temp) >>= _).run.run fs' = _
    rw [h.found]
    rfl
  rw [run]
  exact .of_shapes h.cwd fun way => .inl h.shape_erase

end

end Holds

/-! ### Its name -/

/-- A name with a number in it. -/
def numbered (stem ending : String) (n : Nat) : String := stem ++ toString n ++ ending

theorem isName_of_length {part : String} (h : 3 ≤ part.length) : IsName part := by
  refine ⟨?_, ?_, ?_⟩ <;>
    · rintro rfl
      exact absurd h (by decide)

theorem notMem_numbered {stem ending : String} (hs : '/' ∉ stem.toList) (he : '/' ∉ ending.toList)
    (n : Nat) : '/' ∉ (numbered stem ending n).toList := by
  rw [numbered, toList_append, toList_append, mem_append, mem_append]
  rintro ((h | h) | h)
  · exact hs h
  · exact Text.notMem_nat rfl h
  · exact he h

theorem numbered_injective {stem ending : String} :
    Function.Injective (numbered stem ending) := by
  intro m n h
  have digits : (toString m : String) = toString n :=
    (append_right_inj stem).mp ((append_left_inj ending).mp h)
  exact Nat.repr_injective digits

theorem freshName_spec {entries : List (String × FileNode)} {stem ending : String} :
    (∃ n, freshName entries stem ending = numbered stem ending n) ∧
      entries.lookup (freshName entries stem ending) = none := by
  have eq : freshName entries stem ending =
      (((List.range (entries.length + 1)).map (numbered stem ending)).find?
        fun n => (entries.lookup n).isNone).getD (numbered stem ending entries.length) := rfl
  generalize hnames : (List.range (entries.length + 1)).map (numbered stem ending) = names at eq
  cases hf : names.find? fun n => (entries.lookup n).isNone with
  | some name =>
    have free := find?_some hf
    have mem := mem_of_find?_eq_some hf
    rw [← hnames] at mem
    obtain ⟨n, -, hn⟩ := mem_map.mp mem
    rw [eq, hf, getD_some]
    exact ⟨⟨n, hn.symm⟩, isNone_iff_eq_none.mp free⟩
  | none =>
    -- otherwise the entries had all these names, which are more
    have distinct : names.Nodup := by
      rw [← hnames]
      exact nodup_range.map numbered_injective
    have among : names ⊆ entries.map Prod.fst := by
      intro name hname
      have taken := find?_eq_none.mp hf name hname
      rw [isNone_iff_eq_none] at taken
      obtain ⟨node, hnode⟩ := ne_none_iff_exists'.mp taken
      exact mem_map_of_mem (FileNode.mem_of_lookup hnode)
    have many := (List.Nodup.subperm distinct among).length_le
    rw [← hnames, List.length_map, length_range, List.length_map] at many
    exact absurd many (Nat.not_succ_le_self _)

theorem endsWith_iff {s t : String} : s.endsWith t = true ↔ t.toList <:+ s.toList := by
  rw [← endsWith_toSlice, String.Slice.endsWith_string_iff, copy_toSlice]

theorem way_inside {dir name : String} (ne : dir ≠ "") (hn : IsName name)
    (plain : '/' ∉ name.toList) {fs : Files} :
    fs.way (inside dir name) = fs.way dir ++ [name] ∧
      ∃ before, fs.partsOf (inside dir name) = before ++ [name] := by
  obtain ⟨more, hmore⟩ : ∃ more, inside dir name = dir ++ more := by
    unfold inside
    split
    · exact ⟨name, rfl⟩
    · exact ⟨"/" ++ name, append_assoc⟩
  have rooted : Path.isRooted (inside dir name) = Path.isRooted dir := by
    rw [hmore, isRooted_append ne]
  -- a slash at the end of the directory is an empty part, which leads nowhere
  obtain ⟨before, parts, same⟩ : ∃ before, Path.parts (inside dir name) = before ++ [name] ∧
      ∀ done, wayFrom done before = wayFrom done (Path.parts dir) := by
    unfold inside
    split
    · next hs =>
        obtain ⟨cs, hcs⟩ := endsWith_iff.mp hs
        have text : dir = String.ofList cs ++ "/" ++ "" := by
          rw [← toList_inj, ← hcs]
          simp
        refine ⟨Path.parts (String.ofList cs), ?_, fun done => ?_⟩
        · rw [text, append_empty, parts_slash, parts_of_notMem plain]
        · rw [text, parts_slash, wayFrom_append]
          simp [show Path.parts "" = [""] from rfl, wayFrom, advance]
    · refine ⟨Path.parts dir, ?_, fun done => rfl⟩
      have := parts_slash dir name
      rwa [parts_of_notMem plain] at this
  unfold way partsOf
  rw [rooted, parts]
  split
  · exact ⟨by rw [wayFrom_append_name hn, same], before, rfl⟩
  · refine ⟨?_, Path.parts fs.cwd ++ before, by rw [List.append_assoc]⟩
    rw [← List.append_assoc, wayFrom_append_name hn, wayFrom_append, same,
      ← wayFrom_append]

theorem node_eq {path : String} (h : fs.node path = .ok n) :
    fs.root.get? (fs.way path) = some n :=
  (resolve_way (node_iff.mp h)).2.symm

def entriesOf (dir : String) (fs : Files) : List (String × FileNode) :=
  match fs.node dir with
  | .ok n => n.entries
  | .error _ => []

def freshPath (fs : Files) (dir stem ending : String) : String :=
  inside dir (freshName (entriesOf dir fs) stem ending)

theorem meets_createFresh {dir stem ending : String} (ne : dir ≠ "") (long : 3 ≤ stem.length)
    (hs : '/' ∉ stem.toList) (he : '/' ∉ ending.toList) {fs : Files} :
    Meets (createFresh dir stem ending) fs
      (fun temp fs' => Holds fs temp .empty fs' ∧ fs.root.shape (fs.way dir) = some none)
      (fun fs' => fs' = fs ∧
        (fs.isDir dir = true → ∀ found, fs.resolve (freshPath fs dir stem ending)
          ≠ .ok found)) := by
  obtain ⟨⟨n, hname⟩, fresh⟩ := freshName_spec
  have hn : IsName (freshName (entriesOf dir fs) stem ending) := by
    apply isName_of_length
    rw [hname, numbered, String.length_append, String.length_append]
    omega
  have plain : '/' ∉ (freshName (entriesOf dir fs) stem ending).toList := by
    rw [hname]
    exact notMem_numbered hs he n
  obtain ⟨hway, before, hp⟩ := way_inside ne hn plain
  change fs.way (freshPath fs dir stem ending) = _ at hway
  change fs.partsOf (freshPath fs dir stem ending) = _ at hp
  rw [createFresh]
  apply Meets.get_bind
  apply Meets.get_bind
  show Meets (orFail "open" [freshPath fs dir stem ending]
    (fs.resolve (freshPath fs dir stem ending)) >>= _) fs _ _
  cases hr : fs.resolve (freshPath fs dir stem ending) with
  | error e => exact .of_error rfl ⟨rfl, fun _ found h => by cases h⟩
  | ok found =>
    obtain ⟨way, node⟩ := found
    obtain ⟨rfl, hnode⟩ := resolve_way hr
    cases node with
    | none =>
      have nothing := shape_of_get?_none hnode
      have around : fs.root.shape (fs.way dir) = some none := by
        have hf := (resolve_iff.mp hr).2
        rw [hp] at hf
        rw [way, hp, wayFrom_append_name hn] at hway
        rw [← append_cancel_right hway]
        exact shape_of_follow hn hf
      have free : fs.root.shape (fs.way (freshPath fs dir stem ending)) ≠ some none := by
        rw [nothing]
        exact (some_ne_none _).symm
      obtain ⟨found, others⟩ := putFile hp hn hr free
      exact .of_ok rfl ⟨⟨rfl, nothing, others, found, before, _, hp, hn⟩, around⟩
    | some m =>
      -- the name is not that of an entry
      refine .of_error rfl ⟨rfl, fun there _ _ => ?_⟩
      unfold Files.isDir at there
      cases hd : fs.node dir with
      | error e => rw [hd] at there; cases there
      | ok d =>
        have entries : entriesOf dir fs = d.entries := by rw [entriesOf, hd]
        rw [hway, get?_append, node_eq hd, bind_some, FileNode.get?,
          child?, ← entries, fresh] at hnode
        cases hnode

/-! ## Renaming -/

theorem isName_of_last {path last : String} {before : List String}
    (h : Path.parts path = before ++ [last])
    (around : fs.root.shape (fs.way (Path.dir path)) = some none)
    (free : fs.root.shape (fs.way path) ≠ some none) : IsName last := by
  have hway := way_eq_dir h fs
  refine ⟨?_, ?_, ?_⟩ <;> rintro rfl <;> apply free <;> rw [hway]
  · simpa [wayFrom, advance] using around
  · simpa [wayFrom, advance] using around
  · simpa [wayFrom, advance] using shape_dropLast around

/-- A path that can be followed, and not to a directory. -/
def Free (fs : Files) (path : String) : Prop :=
  ∃ node, fs.resolve path = .ok (fs.way path, node) ∧ fs.root.shape (fs.way path) ≠ some none

theorem rename_run {old new : String} {way : List String}
    (found : fs.resolve old = .ok (way, some n)) :
    (rename old new).run.run fs =
      (orFail "rename" [old, new] (fs.resolve new) >>= fun target => do
        if target.2.any FileNode.isDir then fail "rename" [old, new] .exists
        modify fun fs => { fs with root := .put n target.1 (fs.root.erase way) } :
        FileOp Unit).run.run fs := by
  show (orFail "rename" [old, new] (fs.resolve old) >>= _).run.run fs = _
  rw [found]
  rfl

theorem Holds.meets_rename {path : String} (h : Holds fs temp bytes fs')
    (around : fs.root.shape (fs.way (Path.dir path)) = some none) (dir : List String) :
    Meets (rename temp path) fs'
      (fun _ fs₁ => fs₁.read path = .ok bytes ∧ Spared (· = fs.way path) dir fs fs₁)
      (fun fs₁ => fs₁ = fs' ∧ ¬ Free fs path) := by
  obtain ⟨front, last, hparts⟩ := exists_parts path
  obtain ⟨before, hp⟩ := partsOf_eq ⟨front, hparts⟩ fs
  have run : (rename temp path).run.run fs' = _ := rename_run h.found
  cases hr : fs'.resolve path with
  | error e =>
    rw [hr] at run
    refine .of_error run ⟨rfl, ?_⟩
    rintro ⟨node, found, free⟩
    have hn := isName_of_last hparts around free
    have := resolve_of_dirs hp hn h.cwd (fun _ => h.dirs.mpr) found
    rw [hr] at this
    cases this
  | ok found =>
    obtain ⟨way, node⟩ := found
    obtain ⟨rfl, hnode⟩ := resolve_way hr
    have isDir : node.any FileNode.isDir = true ↔ fs.root.shape (fs.way path) = some none := by
      rw [← h.dirs, ← h.way, FileNode.shape, ← hnode]
      rcases node with _ | (_ | _) <;> simp [FileNode.isDir, bytes?]
    rw [hr] at run
    cases any : node.any FileNode.isDir with
    | true =>
      simp only [orFail, pure_bind, any] at run
      refine .of_error run ⟨rfl, ?_⟩
      rintro ⟨_, _, free⟩
      exact free (isDir.mp any)
    | false =>
      simp only [orFail, pure_bind, any] at run
      have free : fs.root.shape (fs.way path) ≠ some none := by
        rw [ne_eq, ← isDir, any]
        exact Bool.false_ne_true
      have hn := isName_of_last hparts around free
      -- once the temporary file is away, the tree is the one before
      let bare : Files := { fs' with root := fs'.root.erase (fs.way temp) }
      have sameWay : bare.way path = fs.way path := h.way
      have hp' : fs'.partsOf path = before ++ [last] := by
        rw [partsOf, h.cwd]
        exact hp
      have found : bare.resolve path = .ok (bare.way path, bare.root.get? (bare.way path)) :=
        resolve_of_dirs hp' hn rfl
          (fun way isDir => h.shape_erase.trans (h.dirs.mp isDir)) hr
      have free' : bare.root.shape (bare.way path) ≠ some none := by
        rw [sameWay]
        exact fun none => free (h.shape_erase.symm.trans none)
      have hbare : bare.partsOf path = before ++ [last] := hp'
      obtain ⟨there, others⟩ := putFile hbare hn found free'
      rw [sameWay] at there others
      rw [h.way] at run
      have same (way : List String) (ne : way ≠ fs.way path) :=
        (others way ne).trans h.shape_erase
      refine .of_ok run ⟨by unfold Files.read Files.node; rw [there]; rfl, h.cwd, ?_,
        fun way ne => .inl (same way ne)⟩
      intro way isDir
      exact (same way fun e => free (e ▸ isDir)).trans isDir

/-! ## Replacing -/

def Hazards.Calm (hazards : Hazards) : Prop :=
  hazards.makeDir = none ∧ hazards.create = none ∧ hazards.write = none ∧
    hazards.close = none ∧ hazards.rename = none

/-- A file can be replaced: its directory is there, a temporary file can be made in it, and the path
can be followed and does not lead to a directory. -/
structure Replaceable (fs : Files) (path : String) : Prop where
  dir : fs.isDir (Path.dir path) = true
  temp : ∃ found, fs.resolve (freshPath fs (Path.dir path) ".jasmc-" ".tmp") = .ok found
  free : Free fs path

/-- How a file is left that was not replaced: as before, and there is a reason. -/
def Kept (hazards : Hazards) (path : String) (fs fs' : Files) : Prop :=
  Spared (fun _ => False) (fs.way (Path.dir path)) fs fs' ∧
    ¬ (hazards.Calm ∧ Replaceable fs path)

variable {hazards : Hazards} {path : String}

theorem meets_directory {hazards : Hazards} {path : String} {fs : Files} :
    Meets (risk hazards.makeDir "mkdir" [Path.dir path]
        (makeOuter hazards.levels (Path.dir path)) (makeDirs (Path.dir path))) fs
      (fun _ fs₁ => Spared (fun _ => False) (fs.way (Path.dir path)) fs fs₁ ∧
        (Replaceable fs path → fs₁ = fs))
      (Kept hazards path fs) := by
  apply Meets.risk
  · intro e hit
    have hurt : ¬ (hazards.Calm ∧ Replaceable fs path) := by
      rintro ⟨calm, -⟩
      rw [calm.1] at hit
      cases hit
    exact meets_makeOuter.imp (fun _ _ made => ⟨made, hurt⟩)
      fun _ made => ⟨made, hurt⟩
  · intro _
    refine meets_makeDirs.imp ?_ ?_
    · rintro _ fs₁ ⟨made, same⟩
      exact ⟨made, fun ready => same ready.dir⟩
    · rintro fs₁ ⟨made, missing⟩
      exact ⟨made, fun ready => missing ready.2.dir⟩

theorem meets_temporary (made : Spared (fun _ => False) (fs.way (Path.dir path)) fs fs₁)
    (same : Replaceable fs path → fs₁ = fs) :
    Meets (match hazards.create with
        | some e => fail "open" [inside (Path.dir path) ".jasmc-0.tmp"] e
        | none => createFresh (Path.dir path) ".jasmc-" ".tmp") fs₁
      (fun temp fs₂ => Holds fs₁ temp .empty fs₂ ∧
        fs₁.root.shape (fs₁.way (Path.dir path)) = some none)
      (Kept hazards path fs) := by
  cases hc : hazards.create with
  | some e =>
    refine .of_error rfl ⟨made, ?_⟩
    rintro ⟨⟨-, calm, -⟩, -⟩
    rw [hc] at calm
    cases calm
  | none =>
    have ne : Path.dir path ≠ "" := by
      obtain ⟨p, hp⟩ := dir_eq_clean path
      rw [hp]
      exact clean_ne_empty p
    dsimp only
    refine (meets_createFresh ne (by decide) (by decide) (by decide)).imp
      (fun _ _ created => created) ?_
    rintro _ ⟨rfl, refused⟩
    refine ⟨made, ?_⟩
    rintro ⟨-, ready⟩
    obtain rfl := same ready
    obtain ⟨found, hfound⟩ := ready.temp
    exact refused ready.dir found hfound

def publish (hazards : Hazards) (path : String) (bytes : ByteArray) (temp : String) :
    ExceptT String (StateM Files) Unit := do
  step "write output" (remove temp)
    (risk hazards.write "write" [temp] (write temp (bytes.extract 0 hazards.written))
      (write temp bytes))
  step "close output" (remove temp) (risk hazards.close "close" [temp] (pure ()) (pure ()))
  step "publish output" (remove temp)
    (risk hazards.rename "rename" [temp, path] (pure ()) (rename temp path))

theorem meets_publish {fs₂ : Files} {bytes : ByteArray}
    (made : Spared (fun _ => False) (fs.way (Path.dir path)) fs fs₁)
    (same : Replaceable fs path → fs₁ = fs) (empty : Holds fs₁ temp .empty fs₂)
    (around : fs₁.root.shape (fs₁.way (Path.dir path)) = some none) :
    Meets (publish hazards path bytes temp) fs₂
      (fun _ fs' => fs'.read path = .ok bytes ∧
        Spared (· = fs.way path) (fs.way (Path.dir path)) fs fs')
      (Kept hazards path fs) := by
  have hit {hazard : Option Errno} {e : Errno} (h : hazard = some e)
      (calm : hazards.Calm → hazard = none) : ¬ (hazards.Calm ∧ Replaceable fs path) := by
    rintro ⟨all, -⟩
    rw [calm all] at h
    cases h
  have discard (fs₃ : Files) (h : (∃ b, Holds fs₁ temp b fs₃) ∧
      ¬ (hazards.Calm ∧ Replaceable fs path)) :
      Kept hazards path fs ((remove temp).run.run fs₃).2 := by
    obtain ⟨⟨b, held⟩, reason⟩ := h
    exact ⟨made.trans (held.remove _), reason⟩
  -- the whole of the new bytes, or a part of them
  refine Meets.bind (P := fun _ => Holds fs₁ temp bytes) (Meets.step (.risk ?_ ?_ _ _) discard) ?_
  · intro e h
    obtain ⟨fs₃, run, held⟩ := empty.write
    exact .of_ok run ⟨⟨_, held⟩, hit h fun calm => calm.2.2.1⟩
  · intro _
    obtain ⟨fs₃, run, held⟩ := empty.write
    exact .of_ok run held
  intro _ fs₃ held
  refine Meets.bind (P := fun _ => Holds fs₁ temp bytes) (Meets.step (.risk ?_ ?_ _ _) discard) ?_
  · intro e h
    exact .of_ok rfl ⟨⟨_, held⟩, hit h fun calm => calm.2.2.2.1⟩
  · intro _
    exact .of_ok rfl held
  intro _ fs₄ held
  refine Meets.step (.risk ?_ ?_ _ _) discard
  · intro e h
    exact .of_ok rfl ⟨⟨_, held⟩, hit h fun calm => calm.2.2.2.2⟩
  · intro _
    refine (held.meets_rename around (fs.way (Path.dir path))).imp ?_ ?_
    · rintro _ fs₅ ⟨read, moved⟩
      rw [made.sameBut.way] at moved
      exact ⟨read, (made.mono fun _ h => h.elim).trans moved⟩
    · rintro _ ⟨rfl, notFree⟩
      refine ⟨⟨_, held⟩, ?_⟩
      rintro ⟨-, ready⟩
      rw [same ready] at notFree
      exact notFree ready.free

theorem meets_replaceFile {hazards : Hazards} {path : String} {bytes : ByteArray} {fs : Files} :
    Meets (replaceFile hazards path bytes) fs
      (fun _ fs' => fs'.read path = .ok bytes ∧
        Spared (· = fs.way path) (fs.way (Path.dir path)) fs fs')
      (Kept hazards path fs) := by
  refine Meets.bind (meets_directory.step (fun _ kept => kept)) ?_
  rintro _ fs₁ ⟨made, same⟩
  refine Meets.bind ((meets_temporary made same).step (fun _ kept => kept)) ?_
  rintro temp fs₂ ⟨empty, around⟩
  exact meets_publish made same empty around

/-- Whichever steps fail, a file is replaced as a whole or everything is as before. It is replaced
if nothing stands in the way. -/
theorem replaceFile_all_or_nothing (hazards : Hazards) (path : String) (bytes : ByteArray)
    (fs : Files) :
    Meets (replaceFile hazards path bytes) fs
      (fun _ fs' => fs'.read path = .ok bytes ∧
        Spared (· = fs.way path) (fs.way (Path.dir path)) fs fs')
      (fun fs' => Spared (fun _ => False) (fs.way (Path.dir path)) fs fs' ∧
        ¬ (hazards.Calm ∧ Replaceable fs path)) :=
  meets_replaceFile

theorem replaceFile_ok {path : String} {u : Unit}
    (h : (replaceFile hazards path bytes).run.run fs = (.ok u, fs')) :
    SameBut (· = fs.way path) fs fs' ∧ fs'.read path = .ok bytes := by
  obtain ⟨read, spared⟩ := meets_replaceFile.ok h
  exact ⟨spared.sameBut, read⟩

end FileOp

end Jasm

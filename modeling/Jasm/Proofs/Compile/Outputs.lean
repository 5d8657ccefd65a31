import Jasm.Compile.Outputs
import Jasm.Proofs.Compile.Restoring

/-!
# Programs in the output directory

A program is written where its name leads from the output directory. A name without a slash leads
right into it, and from there the program is removed with all others. A name with a slash may lead
out of it. What does not have the ending of a program is never removed.
-/

namespace Jasm

open Jasm.Path Files FileOp List FileNode

namespace Files

variable {dir name : String}

theorem way_join (ne : dir ≠ "") (fs : Files) :
    fs.way (join [dir, name]) = wayFrom (fs.way dir).reverse (parts name) := by
  have joined : join [dir, name] = clean (dir ++ "/" ++ name) := by
    rw [join, dropWhile_cons_of_neg (by simpa using ne)]
    rfl
  rw [joined, way_clean, way, partsOf_slash ne, wayFrom_append, way]

theorem way_entry (ne : dir ≠ "") (hn : IsName name) (plain : '/' ∉ name.toList)
    (fs : Files) : fs.way (join [dir, name]) = fs.way dir ++ [name] := by
  rw [way_join ne, parts_of_notMem plain]
  simp [wayFrom, advance_name hn]

end Files

namespace Compile

open FileOp (Meets)
open Files (IsName)

variable {fs fs' : Files} {dir path name last : String} {paths : List String}
  {entries : List (String × FileNode)} {bytes : ByteArray}

/-! ## Removing one program after the other -/

def IsOutput (name : String) : Prop := name.endsWith outputEnding = true

theorem isOutput_iff : IsOutput name ↔ ∃ stem, name = stem ++ outputEnding := by
  rw [IsOutput, endsWith_iff]
  constructor
  · rintro ⟨cs, hcs⟩
    exact ⟨String.ofList cs, by rw [← String.toList_inj, String.toList_append, ← hcs]; simp⟩
  · rintro ⟨stem, rfl⟩
    exact ⟨stem.toList, String.toList_append.symm⟩

theorem IsOutput.isName (h : IsOutput name) : IsName name := by
  obtain ⟨stem, rfl⟩ := isOutput_iff.mp h
  refine isName_of_length ?_
  rw [String.length_append]
  exact Nat.le_trans (by decide) (Nat.le_add_left _ _)

theorem IsOutput.exists_last (h : IsOutput name) : ∃ last, Last name last ∧ IsOutput last := by
  obtain ⟨stem, rfl⟩ := isOutput_iff.mp h
  obtain ⟨before, last, hp⟩ := exists_parts stem
  exact ⟨_, ⟨before, parts_append hp (by decide)⟩, isOutput_iff.mpr ⟨last, rfl⟩⟩

/-- Nothing was touched but what has the ending of a program. -/
structure Tidied (fs fs' : Files) : Prop where
  cwd : fs'.cwd = fs.cwd
  others : ∀ way, (∀ name, way.getLast? = some name → ¬ IsOutput name) →
    fs'.root.shape way = fs.root.shape way

theorem Tidied.refl (fs : Files) : Tidied fs fs := ⟨rfl, fun _ _ => rfl⟩

theorem Tidied.trans {fs₁ fs₂ : Files} (first : Tidied fs fs₁) (second : Tidied fs₁ fs₂) :
    Tidied fs fs₂ :=
  ⟨second.cwd.trans first.cwd, fun way h => (second.others way h).trans (first.others way h)⟩

def removeOutput (path : String) : ExceptT String (StateM Files) Unit :=
  step s!"failed to remove {Text.quoted path}" (pure ()) (remove path)

def removeEach : (paths : List String) → ExceptT String (StateM Files) Unit
  | [] => pure ()
  | path :: paths => removeOutput path >>= fun _ => removeEach paths

theorem forIn_removeOutput (paths : List String) :
    forIn paths PUnit.unit (fun path _ => removeOutput path >>= fun _ => pure (.yield PUnit.unit)) =
      removeEach paths := by
  induction paths with
  | nil => rfl
  | cons path paths ih =>
    rw [forIn_cons, removeEach, ← ih, bind_assoc]
    simp only [pure_bind]

theorem removeOutputs_of_dir (h : fs.node dir = .ok (.dir entries)) :
    (removeOutputs dir).run.run fs =
      (removeEach (outputsIn dir entries) >>= fun _ =>
        pure (outputsIn dir entries)).run.run fs := by
  have got (k : Files → ExceptT String (StateM Files) (List String)) :
      (get >>= k).run.run fs = (k fs).run.run fs := rfl
  rw [← forIn_removeOutput]
  unfold removeOutputs
  rw [got]
  simp only [h]
  rfl

theorem meets_removeOutput (hl : Last path last) (output : IsOutput last) (fs : Files) :
    Meets (removeOutput path) fs (fun _ => Tidied fs) (Tidied fs) := by
  refine Meets.step (F := Tidied fs) ?_ fun _ tidied => tidied
  rw [remove]
  apply Meets.get_bind
  cases hr : fs.resolve path with
  | error e => exact .of_error rfl (.refl fs)
  | ok found =>
    obtain ⟨way, node⟩ := found
    obtain ⟨rfl, hnode⟩ := resolve_way hr
    cases node with
    | none => exact .of_error rfl (.refl fs)
    | some n =>
      show Meets (if n.entries.isEmpty then _ else _) fs _ _
      split
      · next empty =>
        refine .of_ok rfl ⟨rfl, fun way other => ?_⟩
        have ne : way ≠ fs.way path := by
          rintro rfl
          exact other last (getLast?_way hl output.isName fs) output
        exact shape_erase_of_leaf ne hnode.symm (List.isEmpty_iff.mp empty)
      · exact .of_error rfl (.refl fs)

theorem meets_removeEach
    (outputs : ∀ path ∈ paths, ∃ last, Last path last ∧ IsOutput last) (fs : Files) :
    Meets (removeEach paths) fs (fun _ => Tidied fs) (Tidied fs) := by
  induction paths generalizing fs with
  | nil => exact .of_ok rfl (.refl fs)
  | cons path paths ih =>
    rw [forall_mem_cons] at outputs
    obtain ⟨⟨last, hl, output⟩, outputs⟩ := outputs
    refine (meets_removeOutput hl output fs).bind fun _ fs₁ first => ?_
    exact (ih outputs fs₁).imp (fun _ _ => first.trans) (fun _ => first.trans)

def isOutputEntry (e : String × FileNode) : Bool := !e.2.isDir && e.1.endsWith outputEnding

theorem outputsIn_eq (dir : String) (entries : List (String × FileNode)) :
    outputsIn dir entries = (entries.filter isOutputEntry).map fun e => join [dir, e.1] := rfl

theorem isOutputEntry_iff {e : String × FileNode} :
    isOutputEntry e = true ↔ (∃ bytes, e.2 = .file bytes) ∧ IsOutput e.1 := by
  rw [isOutputEntry, Bool.and_eq_true, IsOutput]
  cases e.2 <;> simp [FileNode.isDir]

theorem tidied_removeOutputs (dir : String) (fs : Files) :
    Tidied fs ((removeOutputs dir).run.run fs).2 := by
  suffices meets : Meets (removeOutputs dir) fs (fun _ => Tidied fs) (Tidied fs) by
    rcases run : (removeOutputs dir).run.run fs with ⟨r, fs'⟩
    cases r with
    | ok _ => exact meets.ok run
    | error _ => exact meets.failed run
  cases hd : fs.node dir with
  | error e =>
    unfold removeOutputs
    apply Meets.get_bind
    rw [hd]
    cases e <;> first | exact .of_ok rfl (.refl fs) | exact .of_error rfl (.refl fs)
  | ok n =>
    cases n with
    | file bytes =>
      unfold removeOutputs
      apply Meets.get_bind
      rw [hd]
      exact .of_error rfl (.refl fs)
    | dir entries =>
      have outputs (path : String) (mem : path ∈ outputsIn dir entries) :
          ∃ last, Last path last ∧ IsOutput last := by
        obtain ⟨e, listed, rfl⟩ := mem_map.mp (outputsIn_eq dir entries ▸ mem)
        obtain ⟨last, hl, output⟩ := (isOutputEntry_iff.mp (mem_filter.mp listed).2).2.exists_last
        exact ⟨last, last_join [dir] hl output.isName, output⟩
      have meets := (meets_removeEach outputs fs).bind (Q := fun _ => Tidied fs)
        (k := fun _ => pure (outputsIn dir entries)) fun _ _ tidied => .of_ok rfl tidied
      have run := removeOutputs_of_dir hd
      exact ⟨fun h => meets.ok (run.symm.trans h), fun h => meets.failed (run.symm.trans h)⟩

/-! ## Removing all of them -/

/-- Different files at paths that can be followed. -/
structure Removable (fs : Files) (paths : List String) : Prop where
  distinct : (paths.map fs.way).Nodup
  found : ∀ path ∈ paths, ∃ last, Last path last ∧ IsName last ∧
    ∃ bytes, fs.resolve path = .ok (fs.way path, some (.file bytes))

theorem run_bind_of_ok {ε α β : Type} {m : ExceptT ε (StateM Files) α}
    {k : α → ExceptT ε (StateM Files) β} {a : α} (h : m.run.run fs = (.ok a, fs')) :
    (m >>= k).run.run fs = (k a).run.run fs' := by
  have run : (m >>= k).run.run fs =
      (ExceptT.bindCont k (m.run.run fs).1).run (m.run.run fs).2 := rfl
  rw [run, h]
  rfl

def without (fs : Files) (path : String) : Files := { fs with root := fs.root.erase (fs.way path) }

theorem removeOutput_run (h : fs.resolve path = .ok (fs.way path, some (.file bytes))) :
    (removeOutput path).run.run fs = (.ok (), without fs path) := by
  have run : (remove path).run.run fs = (.ok (), without fs path) := by
    show (orFail "remove" [path] (fs.resolve path) >>= _).run.run fs = _
    rw [h]
    rfl
  show step _ _ _ fs = _
  rw [step, run]

theorem shape_without (hl : Last path last) (hn : IsName last)
    (h : fs.root.get? (fs.way path) = some (.file bytes)) (way : List String) :
    (without fs path).root.shape way = if way = fs.way path then none else fs.root.shape way := by
  split
  · next here =>
    rw [here]
    refine shape_erase_self ?_ fs.root
    intro root
    have last := getLast?_way hl hn fs
    rw [root] at last
    cases last
  · next other => exact shape_erase_of_leaf other h rfl

theorem Removable.tail (h : Removable fs (path :: paths)) : Removable (without fs path) paths := by
  obtain ⟨distinct, found⟩ := h
  rw [forall_mem_cons] at found
  obtain ⟨⟨last, hl, hn, bytes, hr⟩, found⟩ := found
  rw [map_cons, nodup_cons] at distinct
  have shape := shape_without hl hn (resolve_way hr).2.symm
  -- only a file is gone, so that the other paths can still be followed
  have dirs (way : List String) (isDir : fs.root.shape way = some none) :
      (without fs path).root.shape way = some none := by
    rw [shape, if_neg, isDir]
    rintro rfl
    rw [FileNode.shape, ← (resolve_way hr).2] at isDir
    cases isDir
  refine ⟨distinct.2, fun other mem => ?_⟩
  obtain ⟨last', hl', hn', bytes', hr'⟩ := found other mem
  obtain ⟨before, hp⟩ := partsOf_eq hl' fs
  have apart : fs.way other ≠ fs.way path := fun e =>
    distinct.1 (e ▸ mem_map_of_mem mem)
  have there : (without fs path).resolve other = .ok (fs.way other, _) :=
    resolve_of_dirs hp hn' rfl dirs hr'
  have same := shape (fs.way other)
  rw [if_neg apart, FileNode.shape, FileNode.shape, ← (resolve_way hr').2] at same
  obtain ⟨n, hn, file⟩ := Option.map_eq_some_iff.mp same
  refine ⟨last', hl', hn', bytes', there.trans ?_⟩
  rw [hn]
  cases n with
  | file _ => cases file; rfl
  | dir _ => cases file

theorem removeEach_of_removable (h : Removable fs paths) :
    ∃ fs', (removeEach paths).run.run fs = (.ok (), fs') ∧
      ∀ way, fs'.root.shape way = if way ∈ paths.map fs.way then none else fs.root.shape way := by
  induction paths generalizing fs with
  | nil => exact ⟨fs, rfl, fun way => by simp⟩
  | cons path paths ih =>
    obtain ⟨last, hl, hn, bytes, hr⟩ := h.found path mem_cons_self
    obtain ⟨fs', run, shape⟩ := ih h.tail
    refine ⟨fs', ?_, fun way => ?_⟩
    · rw [removeEach, run_bind_of_ok (removeOutput_run hr)]
      exact run
    · have ways : paths.map (without fs path).way = paths.map fs.way := rfl
      rw [shape, ways, shape_without hl hn (resolve_way hr).2.symm, map_cons]
      simp only [mem_cons]
      split <;> split <;> simp_all

/-- A directory with its entries, all of them under different names, of which the programs are at
paths that can be followed. -/
structure Clearable (fs : Files) (dir : String) (entries : List (String × FileNode)) : Prop where
  here : fs.node dir = .ok (.dir entries)
  distinct : (entries.map Prod.fst).Nodup
  plain : ∀ name ∈ entries.map Prod.fst, '/' ∉ name.toList
  reached : ∀ path ∈ outputsIn dir entries, (fs.resolve path).toBool = true

theorem Clearable.get? (h : Clearable fs dir entries) (name : String) :
    fs.root.get? (fs.way dir ++ [name]) = entries.lookup name := by
  rw [FileNode.get?_append, node_eq h.here, Option.bind_some, FileNode.get?]
  show (entries.lookup name).bind some = _
  cases entries.lookup name <;> rfl

theorem Clearable.removable (h : Clearable fs dir entries) (ne : dir ≠ "") :
    Removable fs (outputsIn dir entries) ∧ (outputsIn dir entries).map fs.way =
      (entries.filter isOutputEntry).map fun e => fs.way dir ++ [e.1] := by
  have plain {e : String × FileNode} (mem : e ∈ entries) : '/' ∉ e.1.toList :=
    h.plain e.1 (mem_map_of_mem mem)
  have ways : (outputsIn dir entries).map fs.way =
      (entries.filter isOutputEntry).map fun e => fs.way dir ++ [e.1] := by
    rw [outputsIn_eq, map_map]
    refine map_congr_left fun e mem => ?_
    obtain ⟨mem, output⟩ := mem_filter.mp mem
    exact way_entry ne (isOutputEntry_iff.mp output).2.isName (plain mem) fs
  refine ⟨⟨?_, fun path listed => ?_⟩, ways⟩
  · have names := h.distinct.sublist ((filter_sublist (p := isOutputEntry)).map Prod.fst)
    have := names.map (f := fun name => fs.way dir ++ [name]) fun a b same => by simpa using same
    rw [ways]
    rwa [map_map] at this
  · have reached := h.reached path listed
    obtain ⟨w, node, hr⟩ : ∃ w node, fs.resolve path = .ok (w, node) := by
      cases hr : fs.resolve path with
      | error e => rw [hr] at reached; cases reached
      | ok found => exact ⟨found.1, found.2, rfl⟩
    obtain ⟨rfl, hnode⟩ := resolve_way hr
    rw [outputsIn_eq] at listed
    obtain ⟨e, mem, rfl⟩ := mem_map.mp listed
    obtain ⟨mem, output⟩ := mem_filter.mp mem
    obtain ⟨⟨bytes, file⟩, output⟩ := isOutputEntry_iff.mp output
    refine ⟨e.1, last_join [dir] (last_self (plain mem)) output.isName, output.isName,
      bytes, ?_⟩
    rw [hr, hnode, way_entry ne output.isName (plain mem), h.get?,
      lookup_of_mem h.distinct mem, file]

theorem Clearable.mem_filter (h : Clearable fs dir entries) (output : IsOutput name)
    (there : fs.file? (fs.way dir ++ [name]) = some bytes) :
    (name, .file bytes) ∈ entries.filter isOutputEntry := by
  rw [file?, FileNode.shape, h.get?] at there
  cases found : entries.lookup name with
  | none =>
    rw [found] at there
    cases there
  | some n =>
    rw [found] at there
    cases n with
    | dir _ => cases there
    | file _ =>
      cases there
      exact List.mem_filter.mpr
        ⟨mem_of_lookup found, isOutputEntry_iff.mpr ⟨⟨_, rfl⟩, output⟩⟩

theorem Clearable.removeOutputs (h : Clearable fs dir entries) (ne : dir ≠ "") :
    ∃ fs', (Compile.removeOutputs dir).run.run fs = (.ok (outputsIn dir entries), fs') ∧
      ∀ name, IsOutput name → fs'.file? (fs.way dir ++ [name]) = none := by
  obtain ⟨removable, ways⟩ := h.removable ne
  obtain ⟨fs', run, shape⟩ := removeEach_of_removable removable
  refine ⟨fs', ?_, fun name output => ?_⟩
  · rw [removeOutputs_of_dir h.here, run_bind_of_ok run]
    rfl
  · rw [file?, shape, ways]
    split
    · rfl
    · next missed =>
      -- what is not listed is a directory, or nothing
      cases there : fs.file? (fs.way dir ++ [name]) with
      | none => exact there
      | some bytes => exact absurd (mem_map_of_mem (h.mem_filter output there)) missed

/-! ## Where programs are written -/

namespace Job

variable {o : Options} {d : Draft} {j : Job} {w : World} {ds : List Diagnostic}
  {es : List Progress} {s : Job × World}

/-- What a job does next that writes no other file than the one of its description. -/
def WritesNext (o : Options) (d : Draft) : Next → Prop
  | .load => False
  | .check d' | .walk d' _ | .keep d' _ | .claim d' _ => d' = d
  | .write path _ _ => path = target o d
  | .finish _ | .over _ => True

/-- A job that writes no other file than the one of its description. -/
structure Writes (o : Options) (d : Draft) (j : Job) : Prop where
  next : WritesNext o d j.next
  output : j.result.output = "" ∨ j.result.output = target o d

theorem writesNext_publishing (o : Options) (d : Draft) (text : List UInt8) :
    WritesNext o d (publishing o d text) := by
  unfold publishing
  split
  · exact True.intro
  · exact rfl

theorem Goes.writes (h : Goes o path j w ds es s) (writes : Writes o d j) : Writes o d s.1 := by
  obtain ⟨begun, output⟩ := writes
  have follows := h.follows
  unfold Follows at follows
  constructor
  · cases hj : j.next with
    | load => exact absurd begun (by rw [hj]; exact id)
    | check d' =>
      rw [hj] at follows begun
      obtain rfl : d' = d := begun
      obtain ⟨-, next | ⟨p, next⟩ | ⟨text, next⟩⟩ := follows <;> rw [next]
      · exact True.intro
      · exact rfl
      · exact writesNext_publishing o d' text
    | walk d' p =>
      rw [hj] at follows begun
      obtain ⟨-, ⟨next, -⟩ | ⟨stage, next⟩ | ⟨text, next⟩⟩ := follows <;> rw [next]
      · exact True.intro
      · exact True.intro
      · exact begun
    | keep d' text =>
      rw [hj] at follows begun
      obtain rfl : d' = d := begun
      rw [follows.2]
      exact writesNext_publishing o d' text
    | claim d' text =>
      rw [hj] at follows begun
      obtain ⟨-, next | ⟨span, next⟩⟩ := follows <;> rw [next]
      · exact True.intro
      · exact congrArg (target o) begun
    | write _ _ _ | finish _ | «over» _ =>
      rw [hj] at follows
      rw [follows.2]
      exact True.intro
  · rcases h.output with same | ⟨path, text, span, hj, new⟩
    · rwa [same]
    · rw [hj] at begun
      exact .inr (new.trans begun)

/-- By induction on the steps, with what each of them goes on with. -/
theorem Writes.steps (h : Writes o d j) (compiles : Compiles path j) (n : Nat) (w : World) :
    Writes o d (j.steps o n w).1 ∧ Compiles path (j.steps o n w).1 := by
  induction n generalizing j w with
  | zero => exact ⟨h, compiles⟩
  | succ n ih =>
    obtain ⟨ds, es, goes⟩ := compiles.step o w
    exact ih (goes.writes h) (goes.next compiles).1 _

theorem writes_steps (o : Options) (d : Draft) (parent n : Nat) (w : World) :
    Writes o d ((ofDraft o d parent).steps o n w).1 ∧
      Compiles d.path ((ofDraft o d parent).steps o n w).1 := by
  have start : Writes o d (ofDraft o d parent) := ⟨rfl, .inl rfl⟩
  exact start.steps (compiles_ofDraft o d parent) n w

theorem output_compile (o : Options) (d : Draft) (parent : Nat) (w : World) :
    (compile o d parent w).1.1.output = "" ∨ (compile o d parent w).1.1.output = target o d := by
  rw [compile, (run_eq _ w).1, output_settled]
  exact (writes_steps o d parent _ w).1.output

/-! ## What is left behind -/

/-- The ways that a compilation may change: that of the program, and that of its entry in the
cache. -/
def Touched (o : Options) (d : Draft) (fs : Files) (way : List String) : Prop :=
  way = fs.way (target o d) ∨ ∃ dir ∈ o.cacheDir,
    way = fs.way (Cache.entryPath dir (Cache.key d.source.toList o.assembly))

/-- What a step does to the files. Only the step that writes the program gives an output. -/
structure Leaves (o : Options) (d : Draft) (j : Job) (w : World) (s : Job × World) : Prop where
  calm : s.2.Calm
  same : SameBut (Touched o d w.files) w.files s.2.files
  late : j.next.rank ≤ 1 → s.2.files = w.files
  written : ∀ path text span, j.next = .write path text span → s.1.result.output ≠ "" →
    s.1.result.output = j.result.output ∨ s.2.files.read (target o d) = .ok ⟨text.toArray⟩

theorem Leaves.of_files (calm : s.2.Calm) (files : s.2.files = w.files)
    (early : ∀ path text span, j.next ≠ .write path text span) : Leaves o d j w s where
  calm := calm
  same := by
    rw [files]
    exact ⟨rfl, fun _ _ => rfl, fun _ h => h⟩
  late _ := files
  written _ _ _ writes := absurd writes (early _ _ _)

theorem leaves_keep {text : List UInt8} (calm : w.Calm) (hj : j.next = .keep d text) :
    Leaves o d j w (j.keep o d text w) := by
  cases hc : o.cacheDir with
  | none =>
    simp only [keep, hc]
    exact .of_files calm rfl (by simp [hj])
  | some dir =>
    rcases hr : (Cache.put dir (Cache.key d.source.toList o.assembly) (.ofResult d.program text
      j.result.lines j.reporter.contents)).run.run w.files with ⟨r, fs⟩
    simp only [keep, hc, World.onFiles, hr]
    cases r with
    | ok _ =>
      have same : SameBut (Touched o d w.files) w.files fs :=
        (Cache.meets_put.ok hr).1.mono fun _ here => .inr ⟨dir, hc, here⟩
      exact ⟨⟨calm.quiet, calm.live⟩, same, by simp [hj, Next.rank], by simp [hj]⟩
    | error f =>
      have same : SameBut (Touched o d w.files) w.files fs :=
        (Cache.meets_put.failed hr).mono fun _ h => h.elim
      exact ⟨⟨calm.quiet, calm.live⟩, same, by simp [hj, Next.rank], by simp [hj]⟩

theorem leaves_write {text : List UInt8} {span : Trace.Span} (calm : w.Calm)
    (hj : j.next = .write (target o d) text span) :
    Leaves o d j w (j.write (target o d) text span w) := by
  rcases hr : (replaceFile {} (target o d) ⟨text.toArray⟩).run.run w.files with ⟨r, fs⟩
  have calm' : World.Calm { w with files := fs } := ⟨calm.quiet, calm.live⟩
  simp only [Job.write, calm.saveTrace, World.onFiles, hr]
  cases r with
  | ok _ =>
    obtain ⟨read, spared⟩ := meets_replaceFile.ok hr
    refine ⟨calm'.finishSpan, spared.sameBut.mono fun _ => .inl, by simp [hj, Next.rank], ?_⟩
    intro _ _ _ writes _
    cases hj.symm.trans writes
    exact .inr read
  | error m =>
    have same : SameBut (Touched o d w.files) w.files fs :=
      (meets_replaceFile.failed hr).1.sameBut.mono fun _ h => h.elim
    exact ⟨calm'.finishSpan, same, by simp [hj, Next.rank], fun _ _ _ _ _ => .inl rfl⟩

/-- The step lemma: what each step of a job does to the files. -/
theorem leaves_step (calm : w.Calm) (writes : WritesNext o d j.next) :
    Leaves o d j w (j.step o w) := by
  cases hj : j.next with
  | load => exact absurd writes (by rw [hj]; exact id)
  | check d' =>
    have world : (j.step o w).2 = w := by
      rw [step, hj]
      dsimp only [check]
      split
      · rfl
      · exact calm.saveTrace
    refine .of_files ?_ ?_ (by simp [hj]) <;> rw [world]
    exact calm
  | walk d' p =>
    rw [step, hj]
    have calm' := calm_walked calm o j d' p
    refine .of_files ?_ (files_walk o j d' p w) (by simp [hj])
    show (walked o j d' p w).poll.2.Calm
    rw [World.poll_of_live calm'.live]
    exact calm'
  | keep d' text =>
    rw [hj] at writes
    obtain rfl : d' = d := writes
    rw [step, hj]
    exact leaves_keep calm hj
  | claim d' text =>
    obtain ⟨span, w', run, files, calm', -⟩ := step_claim (o := o) calm hj
    rw [run]
    exact .of_files calm' files (by simp [hj])
  | write path text span =>
    rw [hj] at writes
    obtain rfl : path = target o d := writes
    rw [step, hj]
    exact leaves_write calm hj
  | finish stage =>
    rw [step, hj]
    exact .of_files (calm.tell _) rfl (by simp [hj])
  | «over» cancelled =>
    rw [step, hj]
    exact .of_files calm rfl (by simp [hj])

/-- A compilation changes nothing but the program and its entry in the cache. If the result names
the program, it is there, with the text that the job carried. -/
structure LeavesAll (o : Options) (d : Draft) (parent : Nat) (w : World)
    (s : Job × World) : Prop where
  calm : s.2.Calm
  same : SameBut (Touched o d w.files) w.files s.2.files
  held : s.1.result.output ≠ "" → s.1.next.rank ≤ 1 ∧
    ∃ n text, ((ofDraft o d parent).steps o n w).1.next.text? = some text ∧
      s.2.files.read (target o d) = .ok ⟨text.toArray⟩

/-- The run lemma, by induction on the number of steps. -/
theorem leaves_steps (calm : w.Calm) (parent n : Nat) :
    LeavesAll o d parent w ((ofDraft o d parent).steps o n w) := by
  induction n with
  | zero => exact ⟨calm, ⟨rfl, fun _ _ => rfl, fun _ h => h⟩, fun h => absurd rfl h⟩
  | succ n ih =>
    obtain ⟨calm, same, held⟩ := ih
    obtain ⟨writes, compiles⟩ := writes_steps o d parent n w
    rw [steps_add n 1]
    generalize hs : (ofDraft o d parent).steps o n w = s at *
    have leaves := leaves_step calm writes.next
    obtain ⟨ds, es, goes⟩ := compiles.step o s.2
    have less := (goes.next compiles).2
    have touched (way : List String) (h : Touched o d s.2.files way) : Touched o d w.files way := by
      simpa only [Touched, same.way] using h
    refine ⟨leaves.calm, same.trans (leaves.same.mono touched), fun output => ?_⟩
    have before (old : s.1.result.output ≠ "") : s.1.next.rank ≤ 1 := (held old).1
    rcases goes.output with old | ⟨path, text, span, hj, -⟩
    · rw [show (s.1.steps o 1 s.2).1.result.output = _ from old] at output
      obtain ⟨rank, read⟩ := held output
      exact ⟨Nat.le_trans less (by omega), leaves.late rank ▸ read⟩
    · rw [hj] at less before
      refine ⟨less, n, text, by rw [hs, hj]; rfl, ?_⟩
      rcases leaves.written path text span hj output with old | read
      · exact absurd (before (old ▸ output)) (by simp [Next.rank])
      · exact read

end Job

/-- The file that a compilation writes is where the name of the program leads from the output
directory. If the name has no slash, this is right in the directory, from where it is removed with
all programs there. What does not have the ending of a program is not touched by the removal,
whether or not it succeeds. The compilation leaves all other files alone but for an entry of the
cache, and where it left the program, the removal finds it. -/
theorem outputs_removed (o : Options) (d : Draft) (parent : Nat) (w : World) (dir : o.outDir ≠ "") :
    ((compile o d parent w).1.1.output = "" ∨
      (compile o d parent w).1.1.output = Job.target o d) ∧
    (∀ fs front last, Path.parts d.program = front ++ [last] → Files.way fs (Job.target o d) =
      Files.wayFrom (fs.way o.outDir).reverse front ++ [last ++ outputEnding]) ∧
    ('/' ∉ d.program.toList → ∀ fs entries, Clearable fs o.outDir entries →
      fs.way (Job.target o d) = fs.way o.outDir ++ [d.program ++ outputEnding] ∧
      ∃ fs', (removeOutputs o.outDir).run.run fs = (.ok (outputsIn o.outDir entries), fs') ∧
        fs'.file? (fs.way (Job.target o d)) = none) ∧
    (∀ fs, Tidied fs ((removeOutputs o.outDir).run.run fs).2) ∧
    (w.Calm →
      let after := (compile o d parent w).2.files
      SameBut (Job.Touched o d w.files) w.files after ∧
      ((compile o d parent w).1.1.output ≠ "" →
        (∃ n text, ((Job.ofDraft o d parent).steps o n w).1.next.text? = some text ∧
          after.read (Job.target o d) = .ok ⟨text.toArray⟩) ∧
        ('/' ∉ d.program.toList → ∀ entries, Clearable after o.outDir entries →
          Job.target o d ∈ outputsIn o.outDir entries ∧ ∃ fs',
            (removeOutputs o.outDir).run.run after = (.ok (outputsIn o.outDir entries), fs') ∧
            fs'.file? (after.way (Job.target o d)) = none))) := by
  have target : Job.target o d = Path.join [o.outDir, d.program ++ outputEnding] := by
    rw [Job.target, if_neg dir]
    rfl
  have named (stem : String) : IsOutput (stem ++ outputEnding) := isOutput_iff.mpr ⟨stem, rfl⟩
  have way (fs : Files) {front : List String} {last : String}
      (hp : Path.parts d.program = front ++ [last]) : fs.way (Job.target o d) =
        Files.wayFrom (fs.way o.outDir).reverse front ++ [last ++ outputEnding] := by
    rw [target, Files.way_join dir, Path.parts_append hp (by decide),
      Files.wayFrom_append_name (named last).isName]
  have inside (plain : '/' ∉ d.program.toList) (fs : Files) :
      fs.way (Job.target o d) = fs.way o.outDir ++ [d.program ++ outputEnding] := by
    have here : fs.way (Job.target o d) = Files.wayFrom (fs.way o.outDir).reverse [] ++ _ :=
      way fs (Path.parts_of_notMem plain)
    rwa [Files.wayFrom, List.foldl_nil, List.reverse_reverse] at here
  have removed (plain : '/' ∉ d.program.toList) (fs : Files) (entries : List (String × FileNode))
      (clearable : Clearable fs o.outDir entries) :
      ∃ fs', (removeOutputs o.outDir).run.run fs = (.ok (outputsIn o.outDir entries), fs') ∧
        fs'.file? (fs.way (Job.target o d)) = none := by
    obtain ⟨fs', run, gone⟩ := clearable.removeOutputs dir
    exact ⟨fs', run, inside plain fs ▸ gone _ (named _)⟩
  refine ⟨Job.output_compile o d parent w, fun fs front last => way fs,
    fun plain fs entries clearable =>
    ⟨inside plain fs, removed plain fs entries clearable⟩, tidied_removeOutputs o.outDir,
      fun calm => ?_⟩
  have leaves := Job.leaves_steps (o := o) (d := d) calm parent Job.maxSteps
  rw [compile, (Job.run_eq _ w).1, (Job.run_eq _ w).2, Job.output_settled]
  refine ⟨leaves.same, fun output => ?_⟩
  obtain ⟨-, n, text, carried, read⟩ := leaves.held output
  refine ⟨⟨n, text, carried, read⟩, fun plain entries clearable =>
    ⟨?_, removed plain _ entries clearable⟩⟩
  have there := (Files.read_iff.mp read).2
  rw [inside plain] at there
  rw [target, outputsIn_eq]
  exact mem_map_of_mem (clearable.mem_filter (named _) there)

theorem exists_clearable (fs : Files) (dir : String) {name : String} {names paths : List String}
    (here : (fs.node dir).toOption.map (·.entries.map Prod.fst) = some (name :: names))
    (distinct : (name :: names).Nodup) (plain : ∀ n ∈ name :: names, '/' ∉ n.toList)
    (listed : (fs.node dir).toOption.map (outputsIn dir ·.entries) = some paths)
    (reached : ∀ path ∈ paths, (fs.resolve path).toBool = true) :
    ∃ entries, Clearable fs dir entries ∧ outputsIn dir entries = paths := by
  rcases hn : fs.node dir with _ | _ | entries <;> rw [hn] at here listed
  · cases here
  · cases here
  · replace here : entries.map Prod.fst = _ := Option.some.inj here
    obtain rfl : outputsIn dir entries = _ := Option.some.inj listed
    exact ⟨entries, ⟨hn, here ▸ distinct, here ▸ plain, reached⟩, rfl⟩

/-- A directory with a note in it. -/
def noteWorld : World := { files := { root := .dir [("out", .dir [("note.txt", .file ⟨#[]⟩)])] } }

/-- The compilation of a program into that directory. -/
def besideNote : (Result × Bool) × World :=
  compile { outDir := "out" } { program := "P", path := "p.toml" } 0 noteWorld

/-- The program is written beside the note, and goes again. -/
theorem outputs_removed_beside_note :
    besideNote.1.1.output = "out/P.jasm" ∧
      ∃ fs', (removeOutputs "out").run.run besideNote.2.files = (.ok ["out/P.jasm"], fs') ∧
        fs'.file? ["out", "P.jasm"] = none := by
  have output : besideNote.1.1.output = "out/P.jasm" := by decide +kernel
  have names : (besideNote.2.files.node "out").toOption.map (·.entries.map Prod.fst) =
      some ["P.jasm", "note.txt"] := by decide +kernel
  have outputs : (besideNote.2.files.node "out").toOption.map (outputsIn "out" ·.entries) =
      some ["out/P.jasm"] := by decide +kernel
  obtain ⟨entries, clearable, listed⟩ := exists_clearable besideNote.2.files "out" names
    (by decide) (by decide +kernel) outputs (by decide +kernel)
  have left := outputs_removed { outDir := "out" } { program := "P", path := "p.toml" } 0 noteWorld
    (by decide)
  obtain ⟨-, found⟩ := left.2.2.2.2 ⟨Job.calm_empty.quiet, rfl⟩
  obtain ⟨-, removed⟩ := found (ne_of_eq_of_ne output (by decide))
  obtain ⟨-, fs', run, gone⟩ := removed (by decide +kernel) entries clearable
  have way : besideNote.2.files.way (Job.target { outDir := "out" } { program := "P" }) =
    ["out", "P.jasm"] := by decide +kernel
  exact ⟨output, fs', listed ▸ run, way ▸ gone⟩

/-- A name that leads out of the output directory is accepted, and the program stays when the
programs in the directory are removed. -/
theorem output_outside :
    let d : Draft := { program := "../up", path := "p.toml" }
    let compiled := compile { outDir := "out" } d 0 {}
    let removed := (removeOutputs "out").run.run compiled.2.files
    d.check.result.isSome ∧ compiled.1.1.failed = false ∧ compiled.1.1.output = "up.jasm" ∧
      removed.1.toOption = some [] ∧ (removed.2.file? ["up.jasm"]).isSome := by
  decide +kernel

end Compile

end Jasm

import Mathlib.Data.List.Infix
import Jasm.Cache.Basic
import Jasm.Proofs.Diagnostic.Replaying
import Jasm.Proofs.Files.Replacing

/-!
# Entries of a cache

The entry of a key is a file that has the key in its name, so that entries of different keys are
different files, and no temporary file and no program is ever an entry. A key is made from a text
that determines the options and the source, provided that the stem of labels does not contain the
bar that separates the options. An entry holds findings without their file; read back for a file,
they are the findings about that file.
-/

namespace Jasm.Cache

open List
open Files (SameBut IsName)
open FileOp (Meets)

variable (key : List UInt8)

/-! ## Names -/

def entryName (key : List UInt8) : String := keyText key ++ ".mp"

theorem toList_keyText :
    (keyText key).toList = key.flatMap fun b => Text.hexDigits 2 b.toNat := by
  unfold keyText
  induction key with
  | nil => rfl
  | cons b rest ih =>
    rw [map_cons, String.join_cons, String.toList_append, ih, flatMap_cons,
      Text.hexText, String.toList_ofList]

theorem hexChar_injective {m n : Nat} (hm : m < 16) (hn : n < 16)
    (h : Text.hexChar m = Text.hexChar n) : m = n := by
  have all : ∀ m < 16, ∀ n < 16, Text.hexChar m = Text.hexChar n → m = n := by decide
  exact all m hm n hn h

theorem hexDigits_two (n : Nat) :
    Text.hexDigits 2 n = [Text.hexChar (n / 16 % 16), Text.hexChar (n % 16)] := rfl

theorem keyText_injective {a b : List UInt8} (h : keyText a = keyText b) : a = b := by
  replace h := congrArg String.toList h
  rw [toList_keyText, toList_keyText] at h
  induction a generalizing b with
  | nil =>
    cases b with
    | nil => rfl
    | cons y b => simp [hexDigits_two] at h
  | cons x a ih =>
    cases b with
    | nil => simp [hexDigits_two] at h
    | cons y b =>
      rw [flatMap_cons, flatMap_cons, hexDigits_two, hexDigits_two] at h
      simp only [cons_append, nil_append, List.cons.injEq] at h
      obtain ⟨high, low, rest⟩ := h
      have hx := x.toNat_lt
      have hy := y.toNat_lt
      have high := hexChar_injective (Nat.mod_lt _ (by decide)) (Nat.mod_lt _ (by decide)) high
      have low := hexChar_injective (Nat.mod_lt _ (by decide)) (Nat.mod_lt _ (by decide)) low
      have same : x = y := UInt8.toNat_inj.mp (by omega)
      rw [same, ih rest]

theorem notMem_entryName : '/' ∉ (entryName key).toList := by
  have digit : ∀ n < 16, Text.hexChar n ≠ '/' := by decide
  rw [entryName, String.toList_append, toList_keyText, mem_append, mem_flatMap]
  rintro (⟨b, -, h⟩ | h)
  · rw [hexDigits_two] at h
    rcases mem_cons.mp h with h | h
    · exact digit _ (Nat.mod_lt _ (by decide)) h.symm
    · exact digit _ (Nat.mod_lt _ (by decide)) (mem_singleton.mp h).symm
  · exact absurd h (by decide)

theorem isName_entryName : IsName (entryName key) := by
  refine FileOp.isName_of_length ?_
  rw [entryName, String.length_append]
  exact Nat.le_add_left _ _

theorem last_entryPath {dir : String} {key : List UInt8} :
    Path.Last (entryPath dir key) (entryName key) :=
  Path.last_join [dir, "units"] (Path.last_self (notMem_entryName key)) (isName_entryName key)

theorem getLast?_entryPath (fs : Files) (dir : String) (key : List UInt8) :
    (fs.way (entryPath dir key)).getLast? = some (entryName key) :=
  Files.getLast?_way last_entryPath (isName_entryName key) fs

theorem entryName_injective {a b : List UInt8} (h : entryName a = entryName b) : a = b :=
  keyText_injective ((String.append_left_inj _).mp h)

theorem entryName_ne {key : List UInt8} {front ending : String}
    (h : ¬ ".mp".toList.reverse <+: (ending.toList.reverse ++ front.toList.reverse)) :
    entryName key ≠ front ++ ending := by
  intro e
  replace e := congrArg (fun s => s.toList.reverse) e
  simp only [entryName, String.toList_append, reverse_append] at e
  exact h ⟨_, e⟩

theorem entryName_ne_output {front : String} :
    entryName key ≠ front ++ ".jasm" :=
  entryName_ne fun ⟨t, h⟩ => absurd (List.cons.inj h).1 (by decide)

/-! ## Filling and looking up -/

theorem meets_put {fs : Files} {dir : String} {key : List UInt8} {p : Payload} :
    Meets (put dir key p) fs (fun _ fs' => SameBut (· = fs.way (entryPath dir key)) fs fs' ∧
      fs'.read (entryPath dir key) = .ok ⟨p.pack.toArray⟩) (SameBut (fun _ => False) fs) := by
  have ne : Path.dir (entryPath dir key) ≠ "" := by
    obtain ⟨p, hp⟩ := Path.dir_eq_clean (entryPath dir key)
    rw [hp]
    exact Path.clean_ne_empty p
  refine Meets.bind (FileOp.meets_makeDirs.imp (fun _ _ h => h) fun _ h => h.1.sameBut) ?_
  rintro _ fs₁ ⟨made, -⟩
  refine Meets.bind ((FileOp.meets_createFresh ne (by decide) (by decide) (by decide)).imp
    (fun _ _ h => h) fun _ h => h.1 ▸ made.sameBut) ?_
  rintro temp fs₂ ⟨empty, around⟩
  obtain ⟨fs₃, run, held⟩ := empty.write
  refine Meets.bind (P := fun _ => FileOp.Holds fs₁ temp ⟨p.pack.toArray⟩) (.of_ok run held) ?_
  intro _ fs₃ held
  refine Meets.tryCatch ((held.meets_rename around []).imp ?_ fun _ h => h.1) ?_
  swap
  · rintro e _ rfl
    have gone := made.sameBut.trans (held.remove []).sameBut
    refine Meets.bind (P := fun _ => SameBut (fun _ => False) fs) ⟨fun run => ?_, fun run => ?_⟩
      fun _ _ kept => .of_error rfl kept
    · rwa [run] at gone
    · rwa [run] at gone
  rintro _ fs₄ ⟨read, moved⟩
  rw [made.sameBut.way] at moved
  exact ⟨(made.sameBut.mono fun _ h => h.elim).trans moved.sameBut, read⟩

/-- What can be read from a cache: every entry that is there has the property `P`. -/
def Stores (dir : String) (P : List UInt8 → ByteArray → Prop) (fs : Files) : Prop :=
  ∀ key bytes, fs.file? (fs.way (entryPath dir key)) = some bytes → P key bytes

namespace Stores

variable {dir : String} {P : List UInt8 → ByteArray → Prop} {fs fs' : Files} {key : List UInt8}
  {p : Payload}

section

variable (h : Stores dir P fs)
include h

theorem mono {Q : List UInt8 → ByteArray → Prop} (weaker : ∀ key bytes, P key bytes → Q key bytes) :
    Stores dir Q fs := fun key bytes found =>
  weaker key bytes (h key bytes found)

theorem of_sameBut {W : List String → Prop} (same : SameBut W fs fs')
    (apart : ∀ way name, W way → way.getLast? = some name → ∀ key, entryName key ≠ name) :
    Stores dir P fs' := by
  intro key bytes found
  rw [same.way] at found
  have last := getLast?_entryPath fs dir key
  rw [same.files _ fun hw => apart _ _ hw last key rfl] at found
  exact h key bytes found

theorem replaceFile {path part : String} {contents : ByteArray} {u : Unit}
    (run : (FileOp.replaceFile {} path contents).run.run fs = (.ok u, fs'))
    (hl : Path.Last path part) (hn : IsName part) (apart : ∀ key, entryName key ≠ part) :
    Stores dir P fs' := by
  refine h.of_sameBut (FileOp.replaceFile_ok run).1 fun way name hw hlast key => ?_
  rw [hw, Files.getLast?_way hl hn] at hlast
  cases hlast
  exact apart key

theorem put {u : Unit} (run : (Cache.put dir key p).run.run fs = (.ok u, fs'))
    (new : P key ⟨p.pack.toArray⟩) :
    Stores dir P fs' := by
  obtain ⟨same, read⟩ := meets_put.ok run
  intro other bytes found
  by_cases hk : other = key
  · subst hk
    rw [(Files.read_iff.mp read).2] at found
    cases found
    exact new
  · have last := getLast?_entryPath fs dir other
    rw [same.way, same.files] at found
    · exact h other bytes found
    · intro hway
      rw [hway, getLast?_entryPath] at last
      exact hk (entryName_injective (Option.some.inj last)).symm

theorem get (run : Cache.get fs dir key = .ok (true, p)) :
    ∃ bytes, P key bytes ∧ Payload.unpack? bytes.toList = some p := by
  unfold Cache.get at run
  cases hr : fs.read (entryPath dir key) with
  | error f =>
    rw [hr] at run
    dsimp only at run
    split at run
    · cases run
    · split at run <;> cases run
  | ok bytes =>
    rw [hr] at run
    dsimp only at run
    cases hu : Payload.unpack? bytes.toList with
    | none => rw [hu] at run; cases run
    | some found =>
      rw [hu] at run
      obtain ⟨-, rfl⟩ := Prod.mk.inj (Except.ok.inj run)
      exact ⟨bytes, h key bytes (Files.read_iff.mp hr).2, hu⟩

end

end Stores

/-! ## Findings -/

/-- What an entry holds of a finding. -/
def Finding.ofDiagnostic (d : Diagnostic) : Finding :=
  ⟨d.severity.rank % 256, d.code.number.toNat, ⟨d.message, d.rawMessage⟩, d.place.index,
    ⟨d.place.path, d.rawPath⟩⟩

theorem Finding.diagnostic_ofDiagnostic {d : Diagnostic} (h : d.Plain) {file : String} :
    (ofDiagnostic d).diagnostic file = d.inFile file := by
  have code : (⟨d.code.number.toNat.toUInt16⟩ : Code) = d.code := by
    rw [show d.code.number.toNat.toUInt16 = d.code.number from UInt16.ofNat_toNat]
  have severity : Severity.ofRank (d.severity.rank % 256) = d.severity := by
    refine Eq.trans ?_ (Severity.ofRank_rank d.severity)
    simp only [Severity.ofRank, Nat.mod_mod]
  simp only [ofDiagnostic, diagnostic, Diagnostic.inFile, code, severity, ← h.notes]

theorem Payload.restore_ofResult {program : String} {text : List UInt8} {lines : Int} {b : Bag}
    (plain : ∀ d ∈ b.items.toList, d.Plain) (r : Reporter) (file : String) :
    (ofResult program text lines b).restore r file =
      r.reportAll (b.items.toList.map (.inFile file)) := by
  have back : (ofResult program text lines b).findings.map (·.diagnostic file) =
      b.items.toList.map (.inFile file) := by
    rw [ofResult, map_map]
    exact map_congr_left fun d hd => Finding.diagnostic_ofDiagnostic (plain d hd)
  rw [restore, back, filter_eq_self.mpr]
  intro d hd
  obtain ⟨e, he, rfl⟩ := mem_map.mp hd
  exact (plain e he).valid

end Jasm.Cache

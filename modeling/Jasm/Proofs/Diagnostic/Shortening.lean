import Mathlib.Data.List.Perm.Basic
import Jasm.Diagnostic.Short
import Jasm.Proofs.Cache.Keys
import Jasm.Proofs.Diagnostic.Sorting

/-!
# Short reports do not depend on the order of findings

A short report has one line for each finding and, if asked for, one for each note. Its lines are
sorted by all they show except for the path inside a unit. So if lines that agree in everything else
also agree in their path, the report is the same in whatever order the findings come.
-/

namespace Jasm

open List

/-! ## Messages -/

namespace Text

theorem fromUTF8?_eq_some {b : ByteArray} {s : String} :
    String.fromUTF8? b = some s ↔ s.toUTF8 = b := by
  unfold String.fromUTF8?
  constructor
  · intro h
    split at h
    · cases h
      rfl
    · cases h
  · rintro rfl
    rw [dif_pos (show s.toUTF8.IsValidUTF8 from s.isValidUTF8)]
    rfl

theorem ByteText.bytes_ofBytes (bs : List UInt8) : (ofBytes bs).bytes = bs := by
  simp only [ofBytes]
  split
  · next s h =>
    show s.toUTF8.toList = bs
    rw [fromUTF8?_eq_some.mp h, Cache.toList_eq_data]
  · rfl

theorem ByteText.ofBytes_toUTF8 (s : String) : ofBytes s.toUTF8.toList = s := by
  have text : String.fromUTF8? ⟨s.toUTF8.toList.toArray⟩ = some s := by
    rw [fromUTF8?_eq_some, Cache.toList_eq_data]
  simp only [ofBytes, text]

end Text

namespace Diagnostic

theorem ofBytes_bytes_shortMessage {message : String} {raw : Option (List UInt8)} :
    .ofBytes (shortMessage message raw).bytes = shortMessage message raw := by
  cases raw with
  | none => exact Text.ByteText.ofBytes_toUTF8 _
  | some bs => exact congrArg Text.ByteText.ofBytes (Text.ByteText.bytes_ofBytes _)

/-! ## Lines -/

@[reducible]
def byteOrder : LinearOrder UInt8 where
  le_refl := UInt8.le_refl
  le_trans _ _ _ := UInt8.le_trans
  le_antisymm _ _ := UInt8.le_antisymm
  le_total := UInt8.le_total
  lt_iff_le_not_ge _ _ := by rw [UInt8.not_le]; exact ⟨fun h => ⟨UInt8.le_of_lt h, h⟩, And.right⟩
  toDecidableLE := inferInstance

attribute [local instance] byteOrder

/-- What lines are sorted by: file, statement, label, code, and the bytes of the message. -/
def ShortLine.sortKey (l : ShortLine) : String ×ₗ ℤ ×ₗ String ×ₗ String ×ₗ List UInt8 :=
  toLex (l.file, toLex (l.index, toLex (l.label, toLex (l.code, l.message.bytes))))

theorem ShortLine.precedes_eq (a b : ShortLine) :
    a.precedes b = decide (a.sortKey < b.sortKey) := by
  simp only [precedes, ite_ne_lt]
  rfl

def findingLine (baseDir : String) (d : Diagnostic) : ShortLine :=
  shortLine d.severity.label d.code baseDir d.place d.message d.rawMessage

def noteLines (baseDir : String) (d : Diagnostic) : List ShortLine :=
  d.notes.map fun n => shortLine "note" d.code baseDir n.place n.message none

/-- One line for each finding and, if asked for, one for each note. -/
def reportLines (ds : List Diagnostic) (baseDir : String) (notes : Bool) : List ShortLine :=
  ds.map (findingLine baseDir) ++ if notes then ds.flatMap (noteLines baseDir) else []

theorem flatMap_shortLines_perm (ds : List Diagnostic) (baseDir : String) (notes : Bool) :
    (ds.flatMap (shortLines baseDir notes)).Perm (reportLines ds baseDir notes) := by
  have both : shortLines baseDir notes = fun d =>
      [findingLine baseDir d] ++ if notes then noteLines baseDir d else [] := rfl
  rw [both]
  refine (flatMap_append_perm ds _ _).symm.trans ?_
  rw [← map_eq_flatMap]
  cases notes with
  | true => exact .refl _
  | false => simp [reportLines, flatMap_eq_nil_iff.mpr]

theorem stablySorted_lines (ls : List ShortLine) :
    StablySorted ShortLine.sortKey ls (ls.mergeSort fun x y => !y.precedes x) :=
  stablySorted_mergeSort (fun x y => by simp only [ShortLine.precedes_eq, ← decide_not, not_lt])

/-- Lines that are the same up to their paths. -/
def ShortLine.Agree (x y : ShortLine) : Prop :=
  x.file = y.file ∧ x.index = y.index ∧ x.label = y.label ∧ x.code = y.code ∧ x.message = y.message
  deriving Decidable

theorem ofBytes_bytes_of_mem {ds : List Diagnostic} {baseDir : String} {notes : Bool}
    {l : ShortLine}
    (h : l ∈ reportLines ds baseDir notes) : .ofBytes l.message.bytes = l.message := by
  rcases mem_append.mp h with h | h
  · obtain ⟨d, -, rfl⟩ := mem_map.mp h
    exact ofBytes_bytes_shortMessage
  · cases notes with
    | false => cases h
    | true =>
      obtain ⟨d, -, h⟩ := mem_flatMap.mp h
      obtain ⟨n, -, rfl⟩ := mem_map.mp h
      exact ofBytes_bytes_shortMessage

theorem agree_of_sortKey {ds : List Diagnostic} {baseDir : String} {notes : Bool} {x y : ShortLine}
    (hx : x ∈ reportLines ds baseDir notes) (hy : y ∈ reportLines ds baseDir notes)
    (h : x.sortKey = y.sortKey) : x.Agree y := by
  simp only [ShortLine.sortKey, toLex_inj, Prod.mk.injEq] at h
  obtain ⟨file, index, label, code, bytes⟩ := h
  refine ⟨file, index, label, code, ?_⟩
  rw [← ofBytes_bytes_of_mem hx, bytes, ofBytes_bytes_of_mem hy]

/-- An entry of a report, spelled out. A place without a path or without a file is its other half,
and one without both is not known. -/
def entryText (label : String) (code : Code) (baseDir : String) (place : Place) (message : String) :
    String :=
  let file := Path.below place.file baseDir
  let shown :=
    if file = "" then if place.path = "" then "<unknown>" else place.path
    else if place.path = "" then file else file ++ ":" ++ place.path
  label ++ " " ++ code.id ++ " " ++ shown ++ " " ++ message

/-- The entries of a report: one for each finding and, if asked for, one for each note, which is
shown under the code of its finding. -/
def entries (ds : List Diagnostic) (baseDir : String) (notes : Bool) : List String :=
  ds.map (fun d => entryText d.severity.label d.code baseDir d.place
    (shortMessage d.message d.rawMessage).text) ++
  if notes then ds.flatMap fun d => d.notes.map fun n =>
    entryText "note" d.code baseDir n.place (oneLine n.message)
  else []

theorem text_shortLine {label : String} {code : Code} {baseDir : String} {place : Place}
    {message : String} {raw : Option (List UInt8)} :
    (shortLine label code baseDir place message raw).text =
      entryText label code baseDir place (shortMessage message raw).text := by
  simp only [ShortLine.text, shortLine, entryText, Place.text]
  by_cases hf : Path.below place.file baseDir = "" <;> by_cases hp : place.path = "" <;>
    simp [hf, hp, toString]

theorem map_text_reportLines (ds : List Diagnostic) (baseDir : String) (notes : Bool) :
    (reportLines ds baseDir notes).map ShortLine.text = entries ds baseDir notes := by
  have note (d : Diagnostic) : (noteLines baseDir d).map ShortLine.text = d.notes.map fun n =>
      entryText "note" d.code baseDir n.place (oneLine n.message) := by
    rw [noteLines, map_map]
    exact map_congr_left fun n _ => text_shortLine
  rw [reportLines, entries, map_append, map_map]
  congr 1
  · exact map_congr_left fun d _ => text_shortLine
  · cases notes with
    | true => simp only [if_true, map_flatMap, note]
    | false => rfl

/-- A short report has one entry for each finding and, if asked for, one for each note, and no other
entries. If entries that agree but for their paths also agree in these, it does not depend on the
order of the findings. -/
theorem shortReport_order_free (ds : List Diagnostic) (baseDir : String) (notes : Bool) :
    (∃ shown : List String, shown.Perm (entries ds baseDir notes) ∧
      shortReport ds baseDir notes = "\n".intercalate shown) ∧
    ∀ ds', ds.Perm ds' →
      (∀ x ∈ reportLines ds baseDir notes, ∀ y ∈ reportLines ds baseDir notes,
        x.Agree y → x.path = y.path) →
      shortReport ds baseDir notes = shortReport ds' baseDir notes := by
  have lines (ds : List Diagnostic) :=
    (stablySorted_lines (ds.flatMap (shortLines baseDir notes))).perm.trans
      (flatMap_shortLines_perm ds baseDir notes)
  refine ⟨⟨_, map_text_reportLines ds baseDir notes ▸ (lines ds).map _, rfl⟩,
    fun ds' perm paths => ?_⟩
  have moved := perm.flatMap_right (shortLines baseDir notes)
  have keys := (stablySorted_lines _).map_eq (stablySorted_lines _) (moved.map ShortLine.sortKey)
  refine congrArg ("\n".intercalate ·) (map_eq_of_keys keys fun x hx y hy h => ?_)
  have hx := (lines ds).mem_iff.mp hx
  have hy := (flatMap_shortLines_perm ds baseDir notes).mem_iff.mp
    (moved.mem_iff.mpr ((stablySorted_lines _).perm.mem_iff.mp hy))
  have agree := agree_of_sortKey hx hy h
  have path := paths x hx y hy agree
  obtain ⟨file, -, label, code, message⟩ := agree
  simp only [ShortLine.text, file, label, code, message, path]

/-- Two findings with the same message about one file, which is named in two ways, and a note. -/
theorem shortReport_order_free_swapped :
    let x := warning .semaUninitRead ⟨"/p/a.toml", 2, "main/body[1]"⟩ "m\n"
    let y := { x with place.file := "./a.toml", notes := [⟨⟨"", 2, "main/body[1]"⟩, "m"⟩] }
    (∀ l ∈ reportLines [x, y] "/p" true, ∀ l' ∈ reportLines [x, y] "/p" true,
      l.Agree l' → l.path = l'.path) ∧
    shortReport [x, y] "/p" true = shortReport [y, x] "/p" true := by
  intro x y
  have paths : ∀ l ∈ reportLines [x, y] "/p" true, ∀ l' ∈ reportLines [x, y] "/p" true,
      l.Agree l' → l.path = l'.path := by decide
  exact ⟨paths, (shortReport_order_free [x, y] "/p" true).2 [y, x] (.swap y x []) paths⟩

end Diagnostic

end Jasm

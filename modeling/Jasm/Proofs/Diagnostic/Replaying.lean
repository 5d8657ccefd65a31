import Mathlib.Tactic.Tauto
import Jasm.Proofs.Diagnostic.Reporting

/-!
# Reporting again

What a receiver keeps of a run of findings can be reported again later, behind the findings that the
run began with: the same is kept again. This needs a limit that is no larger, because findings
beyond the limit are lost, and it needs all findings to be about one file, because the file takes
part in telling them apart. Which file that is does not matter.
-/

namespace Jasm

open List

variable {d : Diagnostic} {seen : List ReportKey} {ds : List Diagnostic} (file file' : String)

/-- A finding, now about another file. -/
def Diagnostic.inFile (file : String) (d : Diagnostic) : Diagnostic :=
  { d with place := { d.place with file := file } }

/-- A finding of a known severity without remarks. -/
structure Diagnostic.Plain (d : Diagnostic) : Prop where
  notes : d.notes = []
  valid : d.severity.isValid

theorem Diagnostic.Plain.inFile (h : d.Plain) (file : String) :
    (d.inFile file).Plain := ⟨h.notes, h.valid⟩

/-! ## Findings that differ -/

/-- The keys of all findings, with those known before. -/
def marked : (seen : List ReportKey) → List Diagnostic → List ReportKey
  | seen, [] => seen
  | seen, d :: rest =>
    if seen.contains d.reportKey then marked seen rest else marked (d.reportKey :: seen) rest

theorem distinct_append_eq (seen : List ReportKey) (ds ds' : List Diagnostic) :
    distinct seen (ds ++ ds') = distinct seen ds ++ distinct (marked seen ds) ds' := by
  induction ds generalizing seen with
  | nil => rfl
  | cons d rest ih =>
    rw [cons_append, distinct, distinct, marked]
    split
    · exact ih seen
    · rw [ih, cons_append]

theorem mem_marked {key : ReportKey} :
    key ∈ marked seen ds ↔ key ∈ seen ∨ ∃ d ∈ ds, d.reportKey = key := by
  induction ds generalizing seen with
  | nil => simp [marked]
  | cons d rest ih =>
    rw [marked]
    split
    · next h =>
        rw [contains_iff_mem] at h
        rw [ih]
        constructor
        · rintro (hs | ⟨e, he, hk⟩)
          · exact .inl hs
          · exact .inr ⟨e, mem_cons_of_mem _ he, hk⟩
        · rintro (hs | ⟨e, he, hk⟩)
          · exact .inl hs
          · rcases mem_cons.mp he with rfl | he
            · exact .inl (hk ▸ h)
            · exact .inr ⟨e, he, hk⟩
    · rw [ih]
      rw [mem_cons, @eq_comm _ key]
      simp only [mem_cons, exists_eq_or_imp]
      tauto

theorem distinct_of_known (h : ∀ d ∈ ds, d.reportKey ∈ seen) :
    distinct seen ds = [] ∧ marked seen ds = seen := by
  induction ds with
  | nil => exact ⟨rfl, rfl⟩
  | cons d rest ih =>
    rw [forall_mem_cons] at h
    rw [distinct, marked, if_pos (contains_iff_mem.mpr h.1),
      if_pos (contains_iff_mem.mpr h.1)]
    exact ih h.2

theorem mem_of_mem_distinct (h : d ∈ distinct seen ds) : d ∈ ds := by
  induction ds generalizing seen with
  | nil => cases h
  | cons e rest ih =>
    rw [distinct] at h
    split at h
    · exact mem_cons_of_mem _ (ih h)
    · rcases mem_cons.mp h with rfl | h
      · exact mem_cons_self
      · exact mem_cons_of_mem _ (ih h)

theorem exists_mem_distinct (h : d ∈ ds) (new : d.reportKey ∉ seen) :
    ∃ e ∈ distinct seen ds, e.reportKey = d.reportKey := by
  induction ds generalizing seen with
  | nil => cases h
  | cons e rest ih =>
    rw [distinct]
    split
    · next known =>
        rcases mem_cons.mp h with rfl | h
        · exact absurd (contains_iff_mem.mp known) new
        · exact ih h new
    · by_cases same : d.reportKey = e.reportKey
      · exact ⟨e, mem_cons_self, same.symm⟩
      · rcases mem_cons.mp h with rfl | h
        · exact absurd rfl same
        · have new' : d.reportKey ∉ e.reportKey :: seen :=
            mem_cons.not.mpr (not_or.mpr ⟨same, new⟩)
          obtain ⟨x, hx, hk⟩ := ih h new'
          exact ⟨x, mem_cons_of_mem _ hx, hk⟩

theorem distinct_take_distinct (seen : List ReportKey) (ds : List Diagnostic) (n : Nat) :
    distinct seen ((distinct seen ds).take n) = (distinct seen ds).take n := by
  induction ds generalizing seen n with
  | nil => rw [distinct, take_nil, distinct]
  | cons d rest ih =>
    rw [distinct]
    split
    · exact ih seen n
    · next new =>
        cases n with
        | zero => rfl
        | succ n => rw [take_succ_cons, distinct, if_neg new, ih]

theorem take_distinct_again (first more : List Diagnostic) {m n : Nat} (le : m ≤ n) :
    (distinct [] (first ++ (distinct [] (first ++ more)).take n)).take m =
      (distinct [] (first ++ more)).take m := by
  rw [distinct_append_eq [] first, distinct_append_eq [] first]
  by_cases fits : n ≤ (distinct [] first).length
  · rw [take_append_of_le_length (Nat.le_trans le fits),
      take_append_of_le_length (Nat.le_trans le fits)]
  · have known : ∀ d ∈ distinct [] first, d.reportKey ∈ marked [] first := fun d hd =>
      mem_marked.mpr (.inr ⟨d, mem_of_mem_distinct hd, rfl⟩)
    obtain ⟨nothing, same⟩ := distinct_of_known known
    have long : (distinct [] first).length ≤ n := by omega
    have cut : (distinct [] first ++ distinct (marked [] first) more).take n =
        distinct [] first ++
          (distinct (marked [] first) more).take (n - (distinct [] first).length) := by
      rw [take_append, take_of_length_le long]
    rw [cut, distinct_append_eq (marked [] first), nothing, same, nil_append,
      distinct_take_distinct, ← cut, take_take, Nat.min_eq_left le]

/-! ## Another file -/

def ReportKey.inFile (file : String) (key : ReportKey) : ReportKey := { key with file := file }

theorem reportKey_inFile (d : Diagnostic) :
    (d.inFile file).reportKey = d.reportKey.inFile file := rfl

theorem ReportKey.inFile_eq_iff {a b : ReportKey} :
    a.inFile file = b.inFile file ↔ a.inFile file' = b.inFile file' := by
  cases a
  cases b
  simp [inFile]

theorem Diagnostic.inFile_inFile (d : Diagnostic) :
    (d.inFile file').inFile file = d.inFile file := rfl

theorem map_inFile_distinct (ds : List Diagnostic) :
    (distinct [] (ds.map (.inFile file'))).map (.inFile file) =
      distinct [] (ds.map (.inFile file)) := by
  suffices general : ∀ seen : List ReportKey,
      (distinct (seen.map (.inFile file')) (ds.map (.inFile file'))).map (.inFile file) =
        distinct (seen.map (.inFile file)) (ds.map (.inFile file)) from general []
  induction ds with
  | nil => exact fun _ => rfl
  | cons d rest ih =>
    intro seen
    have alike : (seen.map (.inFile file')).contains (d.inFile file').reportKey =
        (seen.map (.inFile file)).contains (d.inFile file).reportKey := by
      rw [Bool.eq_iff_iff, contains_iff_mem, contains_iff_mem, mem_map,
        mem_map, reportKey_inFile, reportKey_inFile]
      exact exists_congr fun key =>
        and_congr_right fun _ => ReportKey.inFile_eq_iff file' file
    rw [map_cons, map_cons, distinct, distinct, alike]
    split
    · exact ih seen
    · rw [map_cons, Diagnostic.inFile_inFile]
      exact congrArg _ (ih (d.reportKey :: seen))

/-! ## Receivers that go on alike -/

namespace Reporter

theorem report_unique (seen : List ReportKey) (next : Reporter) (d : Diagnostic) :
    (unique seen next).report d =
      if seen.contains d.reportKey then unique seen next
      else unique (d.reportKey :: seen) (next.report d) := rfl

/-- Two receivers that hold the same and will take the same. -/
def Like (r r' : Reporter) : Prop :=
  ∃ seen seen' b, r = unique seen (bag b) ∧ r' = unique seen' (bag b) ∧
    (b.size < b.limit → ∀ key, key ∈ seen ↔ key ∈ seen')

namespace Like

variable {r r' : Reporter}

theorem contents (h : Like r r') : r.contents = r'.contents := by
  obtain ⟨seen, seen', b, rfl, rfl, -⟩ := h
  rfl

theorem report (h : Like r r') (d : Diagnostic) : Like (r.report d) (r'.report d) := by
  obtain ⟨seen, seen', b, rfl, rfl, same⟩ := h
  by_cases room : b.size < b.limit
  · have alike : seen'.contains d.reportKey = seen.contains d.reportKey := by
      rw [Bool.eq_iff_iff, contains_iff_mem, contains_iff_mem, same room]
    rw [report_unique, report_unique, alike]
    split
    · exact ⟨seen, seen', b, rfl, rfl, same⟩
    · refine ⟨_, _, (b.add d).1, rfl, rfl, fun _ key => ?_⟩
      rw [mem_cons, mem_cons, same room]
  · -- nothing is kept any more, whatever was seen
    have full : (bag b).report d = bag b := by rw [Reporter.report, Bag.add_of_not_lt room]
    rw [report_unique, report_unique, full]
    refine ⟨if seen.contains d.reportKey then seen else d.reportKey :: seen,
      if seen'.contains d.reportKey then seen' else d.reportKey :: seen', b, ?_, ?_,
      fun h => absurd h room⟩ <;>
    · split <;> rfl

end Like

theorem reportAll_unique (seen : List ReportKey) (b : Bag) (ds : List Diagnostic) :
    (unique seen (bag b)).reportAll ds =
      unique (marked seen ds) (bag ((unique seen (bag b)).reportAll ds).contents) := by
  induction ds generalizing seen b with
  | nil => rfl
  | cons d rest ih =>
    rw [marked, reportAll, foldl_cons, report_unique]
    split
    · exact ih seen b
    · exact ih _ _

theorem contents_report_error {limit : Int} {ds : List Diagnostic} {d : Diagnostic}
    (error : d.severity.isError)
    (clean : ((collecting limit).reportAll ds).contents.hasErrors = false) :
    (((collecting limit).reportAll ds).report d).contents =
      (((collecting limit).reportAll ds).contents.add d).1 := by
  have shape : (collecting limit).reportAll ds = unique (marked [] ds) (bag _) :=
    reportAll_unique [] (Bag.new limit) ds
  have kept := contents_reportAll_collecting limit ds
  change _ = unique (marked [] ds) (bag ((collecting limit).reportAll ds).contents) at shape
  generalize ((collecting limit).reportAll ds).contents = b at shape clean kept ⊢
  rw [shape, report_unique]
  split
  · next known =>
      obtain ⟨e, he, same⟩ := (mem_marked.mp (contains_iff_mem.mp known)).resolve_left
        not_mem_nil
      have new : e.reportKey ∉ [] := not_mem_nil
      obtain ⟨e', he', same'⟩ := exists_mem_distinct he new
      refine (Bag.add_of_not_lt fun room => ?_).symm
      have all : (distinct [] ds).take (Bag.new limit).limit = distinct [] ds := by
        refine take_of_length_le ?_
        rw [kept] at room
        simp only [contents_unique, contents_bag, Bag.size, size_toArray,
          length_take] at room
        omega
      rw [kept, all, Bag.hasErrors, any_toArray, any_eq_false] at clean
      have severity : e'.severity = d.severity :=
        congrArg ReportKey.severity (same'.trans same)
      exact clean e' he' (by rw [severity, error])
  · rfl

theorem like_reportAll_again (limit : Int) (first more : List Diagnostic) {n : Nat}
    (le : (Bag.new limit).limit ≤ n) :
    Like (((collecting limit).reportAll first).reportAll ((distinct [] (first ++ more)).take n))
      ((collecting limit).reportAll (first ++ more)) := by
  have shape (ds : List Diagnostic) : (collecting limit).reportAll ds =
      unique (marked [] ds) (bag ((collecting limit).reportAll ds).contents) :=
    reportAll_unique [] (Bag.new limit) ds
  rw [← reportAll_append]
  have kept : ((collecting limit).reportAll
      (first ++ (distinct [] (first ++ more)).take n)).contents =
        ((collecting limit).reportAll (first ++ more)).contents := by
    rw [contents_reportAll_collecting, contents_reportAll_collecting, take_distinct_again _ _ le]
  refine ⟨_, _, _, shape _, (shape _).trans (by rw [kept]), fun room key => ?_⟩
  -- with room left, nothing was lost, so that all keys are there
  have all : (distinct [] (first ++ more)).take n = distinct [] (first ++ more) := by
    rw [kept, contents_reportAll_collecting] at room
    simp only [Bag.size, size_toArray, length_take] at room
    exact take_of_length_le (by omega)
  rw [all]
  simp only [mem_marked, not_mem_nil, false_or]
  constructor
  · rintro ⟨d, hd, hk⟩
    rcases mem_append.mp hd with hd | hd
    · exact ⟨d, mem_append_left _ hd, hk⟩
    · exact ⟨d, mem_of_mem_distinct hd, hk⟩
  · rintro ⟨d, hd, hk⟩
    obtain ⟨e, he, hek⟩ := exists_mem_distinct hd (show d.reportKey ∉ [] from not_mem_nil)
    exact ⟨e, mem_append_right _ he, hek.trans hk⟩

end Reporter

end Jasm

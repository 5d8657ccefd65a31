import Jasm.Diagnostic.Reporter

/-!
# What a reporter keeps

The receiver of a compilation lets each finding pass once and keeps as many as its bag has room for.
So of all findings reported to it, it keeps the first ones of those that differ.
-/

namespace Jasm

open List

/-- The findings that differ from those before them; `seen` holds the keys so far. -/
def distinct : (seen : List ReportKey) → List Diagnostic → List Diagnostic
  | _, [] => []
  | seen, d :: rest =>
    if seen.contains d.reportKey then distinct seen rest
    else d :: distinct (d.reportKey :: seen) rest

theorem distinct_append (seen : List ReportKey) (ds ds' : List Diagnostic) :
    distinct seen ds <+: distinct seen (ds ++ ds') := by
  induction ds generalizing seen with
  | nil => exact nil_prefix
  | cons d rest ih =>
    rw [cons_append, distinct, distinct]
    split
    · exact ih seen
    · exact cons_prefix_cons.mpr ⟨rfl, ih _⟩

theorem any_isError_distinct (ds : List Diagnostic) :
    (distinct [] ds).any (·.severity.isError) = ds.any (·.severity.isError) := by
  suffices general : ∀ seen : List ReportKey, (∀ key ∈ seen, key.severity.isError = false) →
      (distinct seen ds).any (·.severity.isError) = ds.any (·.severity.isError) from
    general [] (by simp)
  induction ds with
  | nil => intro seen _; rfl
  | cons d rest ih =>
    intro seen mild
    rw [distinct]
    cases he : d.severity.isError with
    | true =>
      have fresh : d.reportKey ∉ seen := by
        intro h
        have := mild _ h
        rw [show d.reportKey.severity = d.severity from rfl, he] at this
        cases this
      simp [fresh, he]
    | false =>
      split
      · rw [ih seen mild, any_cons, he, Bool.false_or]
      · rw [any_cons, any_cons, he, Bool.false_or, Bool.false_or]
        refine ih _ ?_
        rintro key (_ | ⟨_, h⟩)
        · exact he
        · exact mild _ h

namespace Bag

theorem add_of_lt {b : Bag} {d : Diagnostic} (h : b.size < b.limit) :
    (b.add d).1 = { b with items := b.items.push d } := by
  rw [Bag.add, if_pos h]

theorem add_of_not_lt {b : Bag} {d : Diagnostic} (h : ¬ b.size < b.limit) :
    (b.add d).1 = b := by
  rw [Bag.add, if_neg h]

end Bag

namespace Reporter

theorem reportAll_append (r : Reporter) (ds ds' : List Diagnostic) :
    r.reportAll (ds ++ ds') = (r.reportAll ds).reportAll ds' := foldl_append

theorem contents_reportAll_bag (b : Bag) (ds : List Diagnostic) :
    ((bag b).reportAll ds).contents =
      { b with items := b.items ++ (ds.take (b.limit - b.size)).toArray } := by
  induction ds generalizing b with
  | nil => simp [reportAll]
  | cons d rest ih =>
    refine (ih (b.add d).1).trans ?_
    by_cases room : b.size < b.limit
    · have more : b.limit - b.size = (b.limit - (b.size + 1)) + 1 := by omega
      rw [Bag.add_of_lt room, more, take_succ_cons]
      simp [Bag.size]
    · have full : b.limit - b.size = 0 := by omega
      rw [Bag.add_of_not_lt room, full, take_zero, take_zero]

theorem eq_of_reportAll_bag {ds ds' : List Diagnostic} {limit : Nat} (room : ds.length < limit)
    (h : (bag { limit := limit }).reportAll ds = (bag { limit := limit }).reportAll ds') :
    ds = ds' := by
  have kept := congrArg (fun r => r.contents.items.toList) h
  simp only [contents_reportAll_bag, Bag.size, size_toArray, length_nil, Nat.sub_zero,
    Array.empty_append, take_of_length_le (Nat.le_of_lt room)] at kept
  have short : (ds'.take limit).length < limit := by
    rw [← kept]
    exact room
  rw [kept, take_of_length_le]
  rw [length_take] at short
  omega

theorem contents_reportAll_unique (seen : List ReportKey) (next : Reporter) (ds : List Diagnostic) :
    ((unique seen next).reportAll ds).contents = (next.reportAll (distinct seen ds)).contents := by
  induction ds generalizing seen next with
  | nil => rfl
  | cons d rest ih =>
    rw [reportAll, foldl_cons, distinct, report]
    split
    · exact ih seen next
    · exact ih _ (next.report d)

theorem contents_reportAll_collecting (limit : Int) (ds : List Diagnostic) :
    ((collecting limit).reportAll ds).contents =
      { Bag.new limit with items := ((distinct [] ds).take (Bag.new limit).limit).toArray } := by
  rw [collecting, contents_reportAll_unique, contents_reportAll_bag]
  simp [Bag.new, Bag.size]

end Reporter

end Jasm

import Jasm.Proofs.Compile.Steps

/-!
# Units on their way

Jobs meet a world that others have changed, and change between their steps: they fill the cache,
claim output files and write them. What a job comes to is nevertheless told by its unit alone, but
for one thing, whether another unit has claimed the output file before.

`Tracks` says of a job between two steps that it is on its way there. Every step of the job keeps
this, and so does every step of another one, because claims stay and the text of a published unit is
touched by nobody else.
-/

namespace Jasm

open Option

namespace Compile

open Job Request Draft
open Cache (Stores entryName)

/-! ## Claims -/

namespace World

variable {w w' : World} {target path owner : String}

def owner? (w : World) (target : String) : Option String := w.claims.bind (·.lookup target)

/-- A unit may write a file, as far as files are watched. -/
def Holds (w : World) (target path : String) : Prop :=
  w.claims = none ∨ w.owner? target = some path

/-- Files are watched as before, and claims that were made stay. -/
structure Grows (w w' : World) : Prop where
  watched : w'.claims = none ↔ w.claims = none
  keeps : ∀ target owner, w.owner? target = some owner → w'.owner? target = some owner

theorem owner?_congr (h : w'.claims = w.claims) (target : String) :
    w'.owner? target = w.owner? target := by rw [owner?, h, owner?]

theorem Grows.of_eq (h : w'.claims = w.claims) : w.Grows w' :=
  ⟨by rw [h], fun target _ hw => (owner?_congr h target).trans hw⟩

theorem Grows.trans {w'' : World} (h : w.Grows w') (h' : w'.Grows w'') : w.Grows w'' :=
  ⟨h'.watched.trans h.watched, fun target owner hw => h'.keeps target owner
    (h.keeps target owner hw)⟩

theorem Holds.grows (h : w.Holds target path) (grows : w.Grows w') : w'.Holds target path :=
  h.imp grows.watched.mpr (grows.keeps target path)

theorem claim_of_some (h : (w.claim target path).1 = some owner) :
    (w.claim target path).2.claims = w.claims ∧ w.owner? target = some owner ∧ owner ≠ path := by
  unfold claim at h ⊢
  unfold owner?
  cases hc : w.claims with
  | none => rw [hc] at h; cases h
  | some claims =>
    rw [hc] at h
    dsimp only [bind_some] at h ⊢
    cases hl : claims.lookup target with
    | none => rw [hl] at h; cases h
    | some other =>
      rw [hl] at h
      dsimp only at h ⊢
      by_cases same : other = path
      · rw [if_pos same] at h; cases h
      · rw [if_neg same] at h ⊢
        cases h
        exact ⟨hc, rfl, same⟩

theorem claim_of_none (h : (w.claim target path).1 = none) :
    w.Grows (w.claim target path).2 ∧ (w.claim target path).2.Holds target path ∧
      ∀ other owner, (w.claim target path).2.owner? other = some owner →
        w.owner? other = some owner ∨ other = target ∧ owner = path := by
  unfold claim at h ⊢
  cases hc : w.claims with
  | none => exact ⟨.of_eq rfl, .inl hc, fun _ _ => .inl⟩
  | some claims =>
    rw [hc] at h
    dsimp only at h ⊢
    cases hl : claims.lookup target with
    | some other =>
      rw [hl] at h
      dsimp only at h ⊢
      by_cases same : other = path
      · rw [if_pos same]
        refine ⟨.of_eq rfl, .inr ?_, fun _ _ => .inl⟩
        rw [owner?, hc, bind_some, hl, same]
      · rw [if_neg same] at h; cases h
    | none =>
      have lookup (t : String) : ({ w with claims := some ((target, path) :: claims) } :
          World).owner? t = if t = target then some path else w.owner? t := by
        rw [owner?, owner?, hc, bind_some, bind_some, List.lookup_cons]
        by_cases e : t = target
        · simp [e]
        · rw [beq_false_of_ne e, if_neg e]
      dsimp only
      refine ⟨⟨by simp [hc], fun t owner ht => ?_⟩, .inr ?_, fun t owner ht => ?_⟩
      · rw [lookup, if_neg]
        · exact ht
        · rintro rfl
          rw [owner?, hc, bind_some, hl] at ht
          cases ht
      · rw [lookup, if_pos rfl]
      · rw [lookup] at ht
        split at ht
        · next e => exact .inr ⟨e, (Option.some.inj ht).symm⟩
        · exact .inl ht

end World

namespace Job

variable {o : Options} {d : Draft} {p : Program} {j j' : Job} {w : World} {output : String}

/-! ## Reading a description -/

theorem calm_loading (calm : w.Calm) (path : String) (parent : Nat) :
    (loading path parent w).Calm :=
  (((calm.startSpan _ _ _).tell _).startPhase _).finishPhase _ _

def malformed (o : Options) (path : String) : Job :=
  (ofFile o path 0).report (.error .unitMalformed ⟨path, 0, ""⟩ (malformedText path))

theorem step_load {path : String} {bytes : ByteArray} (calm : w.Calm)
    (found : w.files.read path = .ok bytes) (parent : Nat) :
    ∃ span, (ofFile o path parent).step o w = ((parse? path bytes).elim
      { malformed o path with span := span, next := .finish .load }
      fun d => { ofDraft o d 0 with span := span }, loading path parent w) := by
  refine ⟨(w.startSpan .unit s!"unit:{Path.base path}" parent).1, ?_⟩
  have calm' := (calm_loading calm path parent).saveTrace
  have read : (loading path parent w).saveTrace.files.read path = .ok bytes := by
    rw [calm', loading_eq]
    exact found
  show load _ w = _
  unfold load
  dsimp only
  split
  · next f failed => cases failed.symm.trans read
  · next bytes' found' =>
      cases found'.symm.trans read
      split
      · next nothing =>
          rw [show parse? path bytes = none from nothing]
          exact Prod.ext rfl calm'
      · next d parsed =>
          replace parsed : parse? path bytes = some d := parsed
          rw [parsed, elim_some, ofDraft, path_of_parse? parsed]
          exact Prod.ext rfl calm'

/-! ## What a job comes to -/

/-- What is told a unit whose output file another one has. -/
def blocked (path target owner : String) : Diagnostic :=
  .error .writeFailed ⟨path, 0, ""⟩ s!"{target} is already produced by {owner}"

/-- A job whose result will be that of another one with an output file, but for whether the program
came from the cache. -/
structure Comes (j j' : Job) (output : String) : Prop where
  reporter : j.reporter.Like j'.reporter
  result : ∀ b, ({ j.settled with findings := b, cached := false } : Result) =
    { j'.settled with findings := b, cached := false, output := output }

theorem Akin.comes (h : Akin j j') (nothing : j'.settled.output = "") : Comes j j' "" :=
  ⟨h.reporter, fun b => (h.result b).trans (by rw [← nothing])⟩

theorem Comes.settled (h : Comes j j' output) :
    uncached j.settled = { uncached j'.settled with output := output } := by
  have result := h.result j.settled.findings
  refine result.trans ?_
  rw [findings_settled, h.reporter.contents, ← findings_settled]
  rfl

theorem Comes.over (h : Comes j j' output) :
    Comes { j with next := .over false, result := j.settled } j' output :=
  ⟨h.reporter, by rw [settled_settled]; exact h.result⟩

theorem like_collected (o : Options) (ds : List Diagnostic) :
    Reporter.Like (collected o ds) (collected o ds) :=
  ⟨_, _, _, Reporter.reportAll_unique [] _ ds, Reporter.reportAll_unique [] _ ds,
    fun _ _ => Iff.rfl⟩

theorem akin_behind (p : Program) (span : Trace.Span) (calm : w.Calm) :
    let j : Job := { (Request.mk d o 0).beforeWalk p with span := span }
    Akin (behind o j d (walkEnd o j d p w)) ((Request.mk d o 0).behindWalk p {}) := by
  intro j
  obtain ⟨generator, reporter⟩ := walkEnd_eq_outcome p calm (show j.reporter = _ from rfl)
  have alike : Alike ⟨d.path, d.path, _, _, _, _, _⟩ (outcome o d p) (walkEnd o j d p w) :=
    walkEnd_alike p rfl rfl calm_empty calm
  refine ⟨?_, fun findings => ?_⟩
  · obtain ⟨ds, -, found, -⟩ := exists_findings o o p (rfl : d = { d with path := d.path }) rfl
    show Reporter.Like (walkEnd o j d p w).reporter (outcome o d p).reporter
    rw [reporter, found]
    exact like_collected o _
  · show ({ (behind o j d (walkEnd o j d p w)).result with findings, cached := false } : Result) =
      { (behind o j d (outcome o d p)).result with findings, cached := false }
    unfold behind
    rw [generator, alike.shows rfl]

end Job

/-! ## Units by themselves -/

/-- A unit to be compiled: a file, or a description that was read before. -/
inductive Task where
  | file (path : String)
  | read (d : Draft)

namespace Task

variable (o : Options) (fs : Files)

def path : Task → String
  | .file path => path
  | .read d => d.path

def job (parent : Nat) : Task → Job
  | .file path => .ofFile o path parent
  | .read d => .ofDraft o d parent

def draft? : Task → Option Draft
  | .file path => (fs.read path).toOption.bind (parse? path)
  | .read d => some d

/-- The job of a unit when all is found, in a world of its own. -/
def whole (t : Task) : Job :=
  (t.draft? fs).elim (.malformed o t.path) fun d =>
    d.check.result.elim ((ofDraft o d 0).checked d) fun p => (Request.mk d o 0).behindWalk p {}

/-- The file and the text that a unit publishes, if it comes to that. -/
def output? (t : Task) : Option (String × List UInt8) :=
  (t.draft? fs).bind fun d => d.check.result.bind fun p =>
    if o.checkOnly || (outcome o d p).reporter.contents.hasErrors then none
    else some (Job.target o d, (Request.mk d o 0).textOf p)

variable {o fs} {t : Task} {d : Draft} {p : Program}

theorem path_of_draft? (h : t.draft? fs = some d) : d.path = t.path := by
  cases t with
  | file path =>
    obtain ⟨bytes, -, parsed⟩ := bind_eq_some_iff.mp h
    exact path_of_parse? parsed
  | read d' =>
    cases h
    rfl

theorem path_whole (t : Task) : (t.whole o fs).settled.path = t.path := by
  unfold whole
  cases h : t.draft? fs with
  | none => rfl
  | some d =>
    rw [← path_of_draft? h]
    cases hr : d.check.result <;> simp only [elim_some, hr] <;> rfl

theorem output_whole (t : Task) : (t.whole o fs).settled.output = "" := by
  unfold whole
  cases t.draft? fs with
  | none => rfl
  | some d => cases hr : d.check.result <;> simp only [elim_some, hr] <;> rfl

theorem whole_of_some (unit : t.draft? fs = some d) (hr : d.check.result = some p) :
    t.whole o fs = (Request.mk d o 0).behindWalk p {} := by
  rw [whole, unit, elim_some, hr, elim_some]

theorem output?_of_some (unit : t.draft? fs = some d) (hr : d.check.result = some p) :
    t.output? o fs = if o.checkOnly || (outcome o d p).reporter.contents.hasErrors then none
      else some (Job.target o d, (Request.mk d o 0).textOf p) := by
  rw [output?, unit, bind_some, hr, bind_some]

theorem output?_eq_some {target : String} {text : List UInt8}
    (h : t.output? o fs = some (target, text)) :
    ∃ d p, t.draft? fs = some d ∧ d.check.result = some p ∧ target = Job.target o d ∧
      (outcome o d p).reporter.contents.hasErrors = false := by
  obtain ⟨d, unit, h⟩ := bind_eq_some_iff.mp h
  obtain ⟨p, hr, h⟩ := bind_eq_some_iff.mp h
  split at h
  · cases h
  · next writes =>
      cases h
      rw [Bool.or_eq_true, not_or] at writes
      exact ⟨d, p, unit, hr, rfl, Bool.eq_false_iff.mpr writes.2⟩

end Task

/-! ## Worlds in which units are compiled -/

variable {o : Options} {fs : Files} {ts : List Task} {t : Task} {d : Draft} {p : Program}
  {target : String} {text : List UInt8} {qs : List Request} {C : String → String → Prop}
variable {j j' : Job} {w w' : World}

/-- Units whose files can be read and are no entries of the cache. No path stands for two units, and
no output file has two names. -/
structure Distinct (o : Options) (fs : Files) (ts : List Task) : Prop where
  readable : ∀ path, .file path ∈ ts → ∃ bytes, fs.read path = .ok bytes
  named : ∀ path, .file path ∈ ts → ∃ part, Path.Last path part ∧ Files.IsName part ∧
    ∀ key, entryName key ≠ part
  paths : ∀ s ∈ ts, ∀ t ∈ ts, s.path = t.path → s = t
  outputs : ∀ s ∈ ts, ∀ t ∈ ts, ∀ a b, s.output? o fs = some a → t.output? o fs = some b →
    fs.way a.1 = fs.way b.1 → a.1 = b.1

/-- Where units are compiled: what is in the cache was left there by the calls `qs`, none of which
kept fewer findings of a unit than the unit does. `C` says who may have claimed a file. -/
structure Setting (o : Options) (fs : Files) (ts : List Task) (qs : List Request)
    (C : String → String → Prop) : Prop extends Distinct o fs ts where
  fair : o.cacheDir.isSome → Fair qs
  asks : ∀ t ∈ ts, ∀ d, t.draft? fs = some d → ∃ parent, Request.mk d o parent ∈ qs ∧
    ∀ x ∈ qs, x.keyBytes = (Request.mk d o parent).keyBytes → o.limit ≤ x.options.limit
  claims : ∀ t ∈ ts, ∀ target text, t.output? o fs = some (target, text) → C target t.path

/-- A world between two steps of units. -/
structure Steady (o : Options) (fs : Files) (ts : List Task) (qs : List Request)
    (C : String → String → Prop) (w : World) : Prop where
  calm : w.Calm
  way : ∀ path, w.files.way path = fs.way path
  stores : ∀ dir, o.cacheDir = some dir → Stores dir (Kept qs) w.files
  claimed : ∀ target owner, w.owner? target = some owner → C target owner
  single : w.claims = none → ∀ s ∈ ts, ∀ t ∈ ts, s = t

theorem Steady.of_eq (h : Steady o fs ts qs C w) (calm : w'.Calm) (files : w'.files = w.files)
    (claims : w'.claims = w.claims) : Steady o fs ts qs C w' where
  calm := calm
  way := by rw [files]; exact h.way
  stores := by rw [files]; exact h.stores
  claimed target owner hw :=
    h.claimed target owner ((World.owner?_congr claims target).symm.trans hw)
  single none := h.single (claims.symm.trans none)

/-! ## Jobs on their way -/

/-- How the job of a unit ends in a world. -/
inductive Ended (o : Options) (fs : Files) (t : Task) (w : World) (j : Job) : Prop
  | idle (nothing : t.output? o fs = none) (comes : j.Comes (t.whole o fs) "")
  | published {target : String} {text : List UInt8} (output : t.output? o fs = some (target, text))
      (holds : w.Holds target t.path) (written : w.files.read target = .ok ⟨text.toArray⟩)
      (comes : j.Comes (t.whole o fs) target)
  | refused {target owner : String} {text : List UInt8}
      (output : t.output? o fs = some (target, text)) (taken : w.owner? target = some owner)
      (other : owner ≠ t.path)
      (comes : j.Comes ((t.whole o fs).report (blocked t.path target owner)) "")

/-- The job of a unit on its way, by what it does next. -/
inductive Tracks (o : Options) (fs : Files) (t : Task) (w : World) (j : Job) : Prop
  | load {path : String} (parent : Nat) (unit : t = .file path) (job : j = .ofFile o path parent)
      (unread : ∀ bytes, fs.read path = .ok bytes → w.files.read path = .ok bytes)
  | check {d : Draft} (span : Trace.Span) (unit : t.draft? fs = some d)
      (job : j = { ofDraft o d 0 with span := span })
  | walk {d : Draft} {p : Program} (span : Trace.Span) (unit : t.draft? fs = some d)
      (program : d.check.result = some p)
      (job : j = { (Request.mk d o 0).beforeWalk p with span := span })
  | keep {d : Draft} {p : Program} (unit : t.draft? fs = some d)
      (leaves : (Request.mk d o 0).Leaves p)
      (next : j.next = .keep d ((Request.mk d o 0).textOf p))
      (lines : j.result.lines = (outcome o d p).generator.lineCount)
      (found : j.reporter = (outcome o d p).reporter) (akin : Akin j (t.whole o fs))
  | claim {d : Draft} {text : List UInt8} (unit : t.draft? fs = some d)
      (next : j.next = .claim d text) (output : t.output? o fs = some (Job.target o d, text))
      (akin : Akin j (t.whole o fs))
  | write {target : String} {text : List UInt8} {span : Trace.Span}
      (next : j.next = .write target text span) (output : t.output? o fs = some (target, text))
      (holds : w.Holds target t.path) (akin : Akin j (t.whole o fs))
  | ending {stage : Jasm.Stage} (next : j.next = .finish stage) (ended : Ended o fs t w j)
  | done (next : j.next = .over false) (ended : Ended o fs t w j)

theorem Ended.mono (h : Ended o fs t w j) (grows : w.Grows w')
    (texts : ∀ target text, t.output? o fs = some (target, text) → w.Holds target t.path →
      w.files.read target = .ok ⟨text.toArray⟩ → w'.files.read target = .ok ⟨text.toArray⟩) :
    Ended o fs t w' j := by
  cases h with
  | idle nothing comes => exact .idle nothing comes
  | published output holds written comes =>
    exact .published output (holds.grows grows) (texts _ _ output holds written) comes
  | refused output taken other comes =>
    exact .refused output (grows.keeps _ _ taken) other comes

theorem Tracks.mono (h : Tracks o fs t w j) (grows : w.Grows w')
    (reads : ∀ path, t = .file path → ∀ bytes, w.files.read path = .ok bytes →
      w'.files.read path = .ok bytes)
    (texts : ∀ target text, t.output? o fs = some (target, text) → w.Holds target t.path →
      w.files.read target = .ok ⟨text.toArray⟩ → w'.files.read target = .ok ⟨text.toArray⟩) :
    Tracks o fs t w' j := by
  cases h with
  | load parent unit job unread =>
    exact .load parent unit job fun bytes read => reads _ unit bytes (unread bytes read)
  | check span unit job => exact .check span unit job
  | walk span unit program job => exact .walk span unit program job
  | keep unit leaves next lines found akin => exact .keep unit leaves next lines found akin
  | claim unit next output akin => exact .claim unit next output akin
  | write next output holds akin => exact .write next output (holds.grows grows) akin
  | ending next ended => exact .ending next (ended.mono grows texts)
  | done next ended => exact .done next (ended.mono grows texts)

/-- What a step of the job of a unit leads to. -/
structure Stepped (o : Options) (fs : Files) (ts : List Task) (qs : List Request)
    (C : String → String → Prop) (t : Task) (w : World) (j : Job) (s : Job × World) : Prop where
  tracks : Tracks o fs t s.2 s.1
  steady : Steady o fs ts qs C s.2
  grows : w.Grows s.2
  reads : ∀ path, .file path ∈ ts → (∀ a, t.output? o fs = some a → fs.way path ≠ fs.way a.1) →
    ∀ bytes, w.files.read path = .ok bytes → s.2.files.read path = .ok bytes
  texts : ∀ u ∈ ts, ∀ target text, u.output? o fs = some (target, text) → w.Holds target u.path →
    w.files.read target = .ok ⟨text.toArray⟩ → s.2.files.read target = .ok ⟨text.toArray⟩
  rank : s.1.next.rank ≤ j.next.rank - 1

theorem Stepped.of_eq (steady : Steady o fs ts qs C w) (tracks : Tracks o fs t w' j')
    (rank : j'.next.rank ≤ j.next.rank - 1) (calm : w'.Calm) (files : w'.files = w.files)
    (claims : w'.claims = w.claims) : Stepped o fs ts qs C t w j (j', w') where
  tracks := tracks
  steady := steady.of_eq calm files claims
  grows := .of_eq claims
  reads _ _ _ _ found := by rw [files]; exact found
  texts _ _ _ _ _ _ found := by rw [files]; exact found
  rank := rank

section

variable (setting : Setting o fs ts qs C) (steady : Steady o fs ts qs C w) (mem : t ∈ ts)
  {span : Trace.Span}
  {text : List UInt8}

theorem Tracks.publishing (unit : t.draft? fs = some d) (program : d.check.result = some p)
    (clean : (outcome o d p).reporter.contents.hasErrors = false) (akin : Akin j (t.whole o fs))
    (next : j.next = Job.publishing o d ((Request.mk d o 0).textOf p)) : Tracks o fs t w j := by
  have output := t.output?_of_some (o := o) unit program
  rw [clean, Bool.or_false] at output
  unfold Job.publishing at next
  by_cases only : o.checkOnly
  · rw [if_pos only] at next output
    exact .ending next (.idle output (akin.comes t.output_whole))
  · rw [if_neg only] at next output
    exact .claim unit next output akin

include setting steady mem

/-- The description is read from a file that nobody has written yet. -/
theorem step_load_stepped {path : String} {parent : Nat} (unit : t = .file path)
    (unread : ∀ bytes, fs.read path = .ok bytes → w.files.read path = .ok bytes) :
    Stepped o fs ts qs C t w (.ofFile o path parent) ((ofFile o path parent).step o w) := by
  subst unit
  obtain ⟨bytes, read⟩ := setting.readable path mem
  obtain ⟨span, step⟩ := step_load (o := o) steady.calm (unread bytes read) parent
  rw [step]
  have unit : (Task.file path).draft? fs = parse? path bytes := by
    rw [Task.draft?, read]
    rfl
  refine .of_eq steady ?_ ?_ (calm_loading steady.calm _ _) (by rw [loading_eq])
    (by rw [loading_eq])
  · cases parsed : parse? path bytes with
    | none =>
      rw [parsed] at unit
      refine .ending rfl (.idle ?_ ⟨?_, fun b => ?_⟩)
      · rw [Task.output?, unit]
        rfl
      · rw [Task.whole, unit]
        exact like_collected o [_]
      · rw [Task.whole, unit]
        rfl
    | some d => exact .check span (unit.trans parsed) rfl
  · cases parse? path bytes <;> simp [Next.rank, ofFile, ofDraft]

/-- An entry of the cache takes the job to where its walk would. -/
theorem step_check_stepped (unit : t.draft? fs = some d)
    (hj : j = { ofDraft o d 0 with span := span }) (smooth : j.smooth o w) :
    Stepped o fs ts qs C t w j (j.step o w) := by
  subst hj
  have calm := steady.calm
  cases hr : d.check.result with
  | none =>
    rw [step_check_of_none hr rfl]
    refine .of_eq steady (.ending rfl (.idle ?_ ⟨?_, fun b => ?_⟩)) (Nat.le_add_left 1 4) calm
      rfl rfl
    · rw [Task.output?, unit, bind_some, hr]
      rfl
    · rw [Task.whole, unit, elim_some, hr]
      exact like_collected o _
    · rw [Task.whole, unit, elim_some, hr]
      rfl
  | some p =>
    cases hdir : o.cacheDir with
    | none =>
      rw [step_check_of_some hdir hr rfl]
      rw [calm.saveTrace]
      exact .of_eq steady (.walk span unit hr rfl) (Nat.le_refl 5) calm rfl rfl
    | some dir =>
      rcases step_check_cached calm rfl hr hdir smooth with
        walks | ⟨payload, hidden, found, restores⟩
      · rw [walks]
        exact .of_eq steady (.walk span unit hr rfl) (Nat.le_refl 5) calm rfl rfl
      · rw [restores]
        refine .of_eq steady ?_ ?_ calm rfl rfl
        · obtain ⟨parent, asked, limits⟩ := setting.asks t mem d unit
          obtain ⟨x, hx, key, assembly, same, clean, rfl⟩ :=
            (setting.fair (by rw [hdir]; rfl)).kept asked (steady.stores dir hdir) found hr
          have limit := limits x hx key
          have akin := akin_restore (j := (ofDraft o d 0).checked d) p same assembly limit
            rfl rfl rfl hidden calm_empty (.walk d p)
          refine .publishing unit hr (hasErrors_of_limit_le p same assembly limit clean) ?_ ?_
          · rw [t.whole_of_some unit hr]
            exact ⟨akin.reporter, akin.result⟩
          · have generator : (outcome x.options x.draft p).generator = (outcome o d p).generator :=
              (walkEnd_alike p same assembly calm_empty calm_empty).generator
            show Job.publishing o d (outcome x.options x.draft p).generator.text.toUTF8.toList = _
            rw [generator]
            rfl
        · exact Nat.le_trans (rank_publishing o d _) (Nat.le_add_left 3 2)

omit setting mem in
theorem step_walk_stepped (unit : t.draft? fs = some d) (program : d.check.result = some p)
    (hj : j = { (Request.mk d o 0).beforeWalk p with span := span }) :
    Stepped o fs ts qs C t w j (j.step o w) := by
  have akin : Akin (behind o j d (walkEnd o j d p w)) (t.whole o fs) := by
    rw [t.whole_of_some unit program, hj]
    exact akin_behind p span steady.calm
  have reporter : j.reporter = collected o (checkFindings d) := by rw [hj]; rfl
  obtain ⟨generator, found⟩ := walkEnd_eq_outcome p steady.calm reporter
  have step : j.step o w = _ :=
    (by rw [hj]; rfl : j.step o w = j.walk o d p w).trans (walk_eq steady.calm.live o j d p)
  have rank : j.next.rank = 5 := by rw [hj]; rfl
  have next : (behind o j d (walkEnd o j d p w)).next =
      if (outcome o d p).reporter.contents.hasErrors then .finish o.walkStage
      else .keep d ((Request.mk d o 0).textOf p) := by
    unfold behind
    rw [generator, found]
    rfl
  rw [step]
  refine .of_eq steady ?_ ?_ (calm_walked steady.calm _ _ _ _) (files_walked _ _ _ _ _).1
    (files_walked _ _ _ _ _).2
  · cases errors : (outcome o d p).reporter.contents.hasErrors with
    | true =>
      rw [errors, if_pos rfl] at next
      refine .ending next (.idle ?_ (akin.comes t.output_whole))
      rw [t.output?_of_some unit program, errors, Bool.or_true, if_pos rfl]
    | false =>
      rw [errors, if_neg Bool.false_ne_true] at next
      refine .keep unit ⟨program, errors⟩ next ?_ found akin
      exact congrArg (fun g => (g.lineCount : Int)) generator
  · rw [next, rank]
    split <;> simp [Next.rank]

/-- A new entry leaves the files of all units and the outputs as they are. -/
theorem step_keep_stepped (unit : t.draft? fs = some d) (leaves : (Request.mk d o 0).Leaves p)
    (next : j.next = .keep d ((Request.mk d o 0).textOf p))
    (lines : j.result.lines = (outcome o d p).generator.lineCount)
    (found : j.reporter = (outcome o d p).reporter) (akin : Akin j (t.whole o fs))
    (smooth : j.smooth o w) : Stepped o fs ts qs C t w j (j.step o w) := by
  have tracks (w : World) : Tracks o fs t w
      { j with next := Job.publishing o d ((Request.mk d o 0).textOf p) } :=
    .publishing unit leaves.1 leaves.2 ⟨akin.reporter, akin.result⟩ rfl
  have rank : (Job.publishing o d ((Request.mk d o 0).textOf p)).rank ≤ j.next.rank - 1 := by
    rw [next]
    exact rank_publishing o d _
  cases hdir : o.cacheDir with
  | none =>
    rw [step_keep_plain next hdir]
    exact .of_eq steady (tracks _) rank steady.calm rfl rfl
  | some dir =>
    obtain ⟨files, filled, kept⟩ := step_keep next hdir smooth
    obtain ⟨parent, asked, -⟩ := setting.asks t mem d unit
    have stores := (steady.stores dir hdir).put filled
      ⟨_, asked, rfl, p, leaves, by rw [lines, found]; rfl⟩
    obtain ⟨same, -⟩ := Cache.meets_put.ok filled
    have reads {path part : String} (last : Path.Last path part) (name : Files.IsName part)
        (apart : ∀ key, entryName key ≠ part) {bytes : ByteArray}
        (read : w.files.read path = .ok bytes) : files.read path = .ok bytes := by
      refine same.read last name (fun e => ?_) read
      have ends := Files.getLast?_way last name w.files
      rw [e, Cache.getLast?_entryPath] at ends
      exact apart _ (Option.some.inj ends)
    rw [kept]
    refine ⟨tracks _, ⟨⟨steady.calm.quiet, steady.calm.live⟩, fun path => ?_, fun dir' h => ?_,
      steady.claimed, steady.single⟩, .of_eq rfl, fun path unit' _ bytes => ?_,
      fun u hu target text output holds read => ?_, rank⟩
    · exact (same.way path).trans (steady.way path)
    · cases hdir.symm.trans h
      exact stores
    · obtain ⟨part, last, name, apart⟩ := setting.named path unit'
      exact reads last name apart
    · obtain ⟨d', -, -, -, rfl, -⟩ := Task.output?_eq_some output
      obtain ⟨front, last, name⟩ := last_target o d'
      exact reads last name (Cache.entryName_ne_output ·) read

/-- Whoever claims a file first has it from then on. -/
theorem step_claim_stepped (unit : t.draft? fs = some d) (next : j.next = .claim d text)
    (output : t.output? o fs = some (Job.target o d, text)) (akin : Akin j (t.whole o fs)) :
    Stepped o fs ts qs C t w j (j.step o w) := by
  have path := Task.path_of_draft? unit
  obtain ⟨span, w', step, files, calm, claims⟩ := step_claim (o := o) steady.calm next
  cases claim : (w.claim (Job.target o d) d.path).1 with
  | none =>
    rw [claim] at step
    obtain ⟨grows, holds, only⟩ := World.claim_of_none claim
    have owners (target : String) := World.owner?_congr claims target
    have held : w'.Holds (Job.target o d) t.path := by
      rw [← path]
      exact holds.imp claims.trans (owners _).trans
    rw [step]
    refine ⟨.write rfl output held ⟨akin.reporter, akin.result⟩,
      ⟨calm, ?_, ?_, fun target owner h => ?_, fun none => ?_⟩,
      ⟨by rw [claims]; exact grows.watched, fun target owner h => ?_⟩, ?_, ?_, ?_⟩
    · rw [files]; exact steady.way
    · rw [files]; exact steady.stores
    · rcases only target owner ((owners target).symm.trans h) with h | ⟨rfl, rfl⟩
      · exact steady.claimed target owner h
      · exact path ▸ setting.claims t mem _ text output
    · exact steady.single (grows.watched.mp (claims.symm.trans none))
    · exact (owners target).trans (grows.keeps target owner h)
    · rw [files]; exact fun _ _ _ _ h => h
    · rw [files]; exact fun _ _ _ _ _ _ h => h
    · rw [next]
      exact Nat.le_refl 2
  | some owner =>
    rw [claim] at step
    obtain ⟨stays, taken, other⟩ := World.claim_of_some claim
    have same := claims.trans stays
    have place : j.place = ⟨t.path, 0, ""⟩ := by
      have result := congrArg Result.path (akin.result j.reporter.contents)
      have path : (t.whole o fs).settled.path = t.path := t.path_whole
      rw [place, ← path_settled, ← path]
      exact congrArg (fun path => (⟨path, 0, ""⟩ : Place)) result
    rw [step, place]
    refine .of_eq steady (.ending rfl (.refused output ?_ (path ▸ other) ?_)) ?_ calm files same
    · exact (World.owner?_congr same _).trans taken
    · have told := (akin.report (blocked t.path (Job.target o d) owner)).comes ?_
      · exact ⟨told.reporter, told.result⟩
      · have output := congrArg Result.output (settled_report (t.whole o fs)
          (blocked t.path (Job.target o d) owner) j.reporter.contents)
        exact output.trans t.output_whole
    · rw [next]
      exact Nat.le_add_left 1 1

/-- Only the unit that has a file writes to it. -/
theorem step_write_stepped {target : String} (next : j.next = .write target text span)
    (output : t.output? o fs = some (target, text)) (holds : w.Holds target t.path)
    (akin : Akin j (t.whole o fs)) (smooth : j.smooth o w) :
    Stepped o fs ts qs C t w j (j.step o w) := by
  obtain ⟨files, replaced, w', step, rfl, calm, claims⟩ := step_write steady.calm next smooth
  obtain ⟨d, -, -, -, rfl, -⟩ := Task.output?_eq_some output
  obtain ⟨front, last, name⟩ := last_target o d
  obtain ⟨same, written⟩ := FileOp.replaceFile_ok replaced
  have reads {path part : String} (last : Path.Last path part) (name : Files.IsName part)
      (apart : fs.way path ≠ fs.way (Job.target o d)) {bytes : ByteArray}
      (read : w.files.read path = .ok bytes) : w'.files.read path = .ok bytes := by
    refine same.read last name (fun e => ?_) read
    exact apart (by rw [← steady.way, e, steady.way])
  have grows : w.Grows w' := .of_eq claims
  rw [step]
  refine ⟨.ending rfl (.published output (holds.grows grows) written ⟨akin.reporter, fun b => ?_⟩),
    ⟨calm, fun path => ?_, fun dir h => ?_, fun target owner h => ?_,
      fun none => steady.single (claims.symm.trans none)⟩, grows, fun path unit apart bytes => ?_,
    fun u hu target text' output' holds' read => ?_, ?_⟩
  · rw [settled_output]
    exact congrArg (fun r : Result => { r with output := Job.target o d }) (akin.result b)
  · exact (same.way path).trans (steady.way path)
  · exact (steady.stores dir h).replaceFile replaced last name (Cache.entryName_ne_output ·)
  · exact steady.claimed target owner ((World.owner?_congr claims target).symm.trans h)
  · obtain ⟨part, last, name, -⟩ := setting.named path unit
    exact reads last name (apart (Job.target o d, text) output)
  · by_cases apart : fs.way target = fs.way (Job.target o d)
    · -- the unit that has the file is the only one to write it
      obtain rfl : target = Job.target o d :=
        setting.outputs u hu t mem (target, text') (Job.target o d, text) output' output apart
      have unit : u = t := by
        rcases holds with none | owner
        · exact steady.single none u hu t mem
        · rcases holds' with none | owner'
          · exact steady.single none u hu t mem
          · exact setting.paths u hu t mem (Option.some.inj (owner'.symm.trans owner))
      subst unit
      cases output.symm.trans output'
      exact written
    · obtain ⟨d', -, -, -, rfl, -⟩ := Task.output?_eq_some output'
      obtain ⟨front', last', name'⟩ := last_target o d'
      exact reads last' name' apart read
  · rw [next]
    exact Nat.le_refl 1

/-- Every step of a job keeps it on its way, one case for each stage. -/
theorem Tracks.step (h : Tracks o fs t w j) (smooth : j.smooth o w) :
    Stepped o fs ts qs C t w j (j.step o w) := by
  cases h with
  | load parent unit job unread =>
    subst job
    exact step_load_stepped setting steady mem unit unread
  | check span unit job => exact step_check_stepped setting steady mem unit job smooth
  | walk span unit program job => exact step_walk_stepped steady unit program job
  | keep unit leaves next lines found akin =>
    exact step_keep_stepped setting steady mem unit leaves next lines found akin smooth
  | claim unit next output akin => exact step_claim_stepped setting steady mem unit next output akin
  | write next output holds akin =>
    exact step_write_stepped setting steady mem next output holds akin smooth
  | ending next ended =>
    rw [Job.step, next]
    refine .of_eq steady (.done rfl ?_) (Nat.zero_le _) (steady.calm.tell _) rfl rfl
    cases ended with
    | idle nothing comes => exact .idle nothing comes.over
    | published output holds written comes => exact .published output holds written comes.over
    | refused output taken other comes => exact .refused output taken other comes.over
  | done next ended =>
    rw [Job.step, next]
    refine .of_eq steady (.done next ended) ?_ steady.calm rfl rfl
    rw [next]
    exact Nat.le_refl 0

end

/-! ## A unit by itself -/

theorem Setting.single (h : Setting o fs ts qs C) (mem : t ∈ ts) : Setting o fs [t] qs C := by
  have sub : ∀ s ∈ [t], s ∈ ts := fun s hs => List.mem_singleton.mp hs ▸ mem
  exact ⟨⟨fun path hp => h.readable path (sub _ hp), fun path hp => h.named path (sub _ hp),
    fun s hs u hu => h.paths s (sub s hs) u (sub u hu),
    fun s hs u hu => h.outputs s (sub s hs) u (sub u hu)⟩, h.fair,
    fun s hs => h.asks s (sub s hs), fun s hs => h.claims s (sub s hs)⟩

theorem tracks_job (parent : Nat) (t : Task) (files : w.files = fs) :
    Tracks o fs t w (t.job o parent) := by
  cases t with
  | file path => exact .load parent rfl rfl (by rw [files]; exact fun _ => id)
  | read d => exact .check { parent := parent } rfl rfl

/-- So do several steps, by induction on their number. -/
theorem tracks_steps (setting : Setting o fs ts qs C) (mem : t ∈ ts) (n : Nat)
    (steady : Steady o fs ts qs C w) (tracks : Tracks o fs t w j) (smooth : smoothSteps o n j w) :
    Tracks o fs t (j.steps o n w).2 (j.steps o n w).1 ∧ Steady o fs ts qs C (j.steps o n w).2 ∧
      w.Grows (j.steps o n w).2 ∧ (j.steps o n w).1.next.rank ≤ j.next.rank - n := by
  induction n generalizing j w with
  | zero => exact ⟨tracks, steady, .of_eq rfl, Nat.le_refl _⟩
  | succ n ih =>
    obtain ⟨first, rest⟩ := smoothSteps_succ smooth
    have stepped := tracks.step setting steady mem first
    obtain ⟨last, steady, grows, rank⟩ := ih stepped.steady stepped.tracks rest
    rw [steps_succ]
    refine ⟨last, steady, stepped.grows.trans grows, ?_⟩
    have one := stepped.rank
    omega

theorem Tracks.ended (h : Tracks o fs t w j) (rank : j.next.rank = 0) :
    j.next = .over false ∧ Ended o fs t w j := by
  cases h with
  | done next ended => exact ⟨next, ended⟩
  | load _ _ job | check _ _ job | walk _ _ _ job =>
    rw [job] at rank
    cases rank
  | keep _ _ next | claim _ next | write next | ending next =>
    rw [next] at rank
    cases rank

theorem exists_ended (parent : Nat) (setting : Setting o w.files [t] qs C)
    (steady : Steady o w.files [t] qs C w) (smooth : smoothSteps o maxSteps (t.job o parent) w) :
    ∃ a w', ((t.job o parent).run o w).1 = (a.settled, false) ∧
      ((t.job o parent).run o w).2.files = w'.files ∧ w.Grows w' ∧
      Steady o w.files [t] qs C w' ∧ Ended o w.files t w' a := by
  obtain ⟨tracks, last, grows, rank⟩ := tracks_steps setting (List.mem_singleton_self t) maxSteps
    steady (tracks_job parent t rfl) smooth
  have most : (t.job o parent).next.rank ≤ maxSteps := by
    cases t <;> simp [Task.job, ofFile, ofDraft, Next.rank, maxSteps]
  obtain ⟨next, ended⟩ := tracks.ended (by omega)
  obtain ⟨result, files⟩ := run_of_over next
  exact ⟨_, _, result, files, grows, last, ended⟩

theorem Job.Comes.output {output : String} (h : j.Comes j' output) : j.settled.output = output :=
  congrArg Result.output (h.result j.settled.findings)

theorem Job.Comes.path {output : String} (h : j.Comes (t.whole o fs) output) :
    j.settled.path = t.path :=
  (congrArg Result.path (h.result j.settled.findings)).trans t.path_whole

end Compile

end Jasm

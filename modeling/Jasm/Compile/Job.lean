import Jasm.Compile.Options
import Jasm.Compile.Walk
import Jasm.Program.Check

/-!
# Compiling a unit

The compilation of one unit is a job that takes steps. Each step is one access to what jobs share,
so that running jobs side by side means taking their steps in any order: reading the description,
looking into the cache, going through the statements, filling the cache, claiming the output file,
writing it, and telling the end. A file is written only if no error is kept among the findings.
-/

namespace Jasm.Compile

/-- What a job does next. -/
inductive Next where
  | load
  /-- Checks the description and looks into the cache. -/
  | check (d : Draft)
  | walk (d : Draft) (p : Program)
  | keep (d : Draft) (text : List UInt8)
  | claim (d : Draft) (text : List UInt8)
  | write (target : String) (text : List UInt8) (span : Trace.Span)
  /-- Tells how the job ended; `stage` is the one it ended in. -/
  | finish (stage : Stage)
  | over (cancelled : Bool)

structure Job where
  next : Next
  result : Result
  reporter : Reporter
  /-- The span of the job and the span around its steps. -/
  span : Trace.Span := {}
  /-- The number of lines of a program taken from the cache. -/
  restored : Option Int := none

namespace Job

/-- The job of compiling a file, inside a span. -/
def ofFile (o : Options) (path : String) (parent : Nat) : Job where
  next := .load
  result := { path := path, findings := .new o.limit }
  reporter := .collecting o.limit
  span := { parent := parent }

/-- The job of compiling a description that was read before. -/
def ofDraft (o : Options) (d : Draft) (parent : Nat) : Job where
  next := .check d
  result := { path := d.path, program := d.program, findings := .new o.limit }
  reporter := .collecting o.limit
  span := { parent := parent }

def report (j : Job) (d : Diagnostic) : Job := { j with reporter := j.reporter.report d }

/-- The place of findings about a unit as a whole. -/
def place (j : Job) : Place := ⟨j.result.path, 0, ""⟩

/-- Whether an error is among the findings that were kept. -/
def hasErrors (j : Job) : Bool := j.reporter.contents.hasErrors

/-! ## Steps -/

def load (j : Job) (w : World) : Job × World :=
  let path := j.result.path
  let (span, w) := w.startSpan .unit s!"unit:{Path.base path}" j.span.parent
  let w := w.tell ⟨path, .load, .working, none⟩
  let (phase, w) := w.startPhase s!"load {Path.base path}"
  let w := (w.finishPhase phase "").saveTrace
  let j := { j with span := span }
  match w.files.read path with
  | .error f =>
    ({ (j.report (.error .loadFailed j.place s!"read unit: {f.message}")) with
        next := .finish .load }, w)
  | .ok bytes =>
    match Draft.parse? path bytes with
    | none =>
      ({ (j.report (.error .unitMalformed j.place (Draft.malformedText path))) with
          next := .finish .load }, w)
    | some d =>
      ({ j with next := .check d, result := { j.result with program := d.program } }, w)

/-- The text of a program from the cache, with the findings reported again. -/
def restore (o : Options) (j : Job) (d : Draft) (p : Cache.Payload) : Job :=
  { j with
      reporter := p.restore j.reporter d.path
      restored := some p.lines
      next := if o.checkOnly then .finish .publish else .claim d p.text }

def lookUp (o : Options) (j : Job) (d : Draft) (p : Program) (w : World) : Job :=
  let walk : Job := { j with next := .walk d p }
  match o.cacheDir with
  | none => walk
  | some dir =>
    if o.dumpSymbols then walk
    else match Cache.get w.files dir (Cache.key d.source.toList o.assembly) with
      | .error m => walk.report (.warning .cacheFailed j.place m)
      | .ok (hit, payload) =>
        if hit && payload.program = (d.program : Text.ByteText) then restore o j d payload else walk

/-- Checks the description; looks into the cache if it is a program. -/
def check (o : Options) (j : Job) (d : Draft) (w : World) : Job × World :=
  let (program, reporter) := d.validate j.reporter
  let j := { j with reporter := reporter }
  match program with
  | none => ({ j with next := .finish .load }, w)
  | some p =>
    let w := w.saveTrace
    (lookUp o j d p w, w)

def walk (o : Options) (j : Job) (d : Draft) (p : Program) (w : World) : Job × World :=
  let stage := o.walkStage
  let w := w.tell ⟨d.path, stage, .working, none⟩
  let (span, w) := w.startSpan .pass stage.text j.span.id
  let (phase, w) := w.startPhase s!"{stage.text} {d.name}"
  let cfg : Config := ⟨d.path, o.assembly.maxLocals⟩
  let start : State :=
    { generator := .new d.program o.assembly
      reporter := j.reporter
      dump := if o.dumpSymbols then some "" else none
      recorder := w.recorder
      span := span.id
      polls := w.polls }
  let ((), c) := (do Walk.program cfg p; Walk.close cfg p : Walk Unit).run start
  let lines := c.generator.lineCount
  let w := { w with recorder := c.recorder, polls := c.polls, crashed := w.crashed || c.crashed }
  let w := w.finishPhase phase s!"{lines} lines"
  let (span, recorder) := w.recorder.annotate span "lines" (toString lines)
  let w := { w with recorder := recorder }.finishSpan span ""
  let result := { j.result with lines := lines, symbols := c.dump.getD "" }
  let j := { j with reporter := c.reporter, result := result }
  let (goesOn, w) := w.poll
  let next := if !goesOn then .over true
    else if j.hasErrors then .finish stage
    else .keep d c.generator.text.toUTF8.toList
  ({ j with next := next }, w)

/-- What follows once the text of a program is there. -/
def publishing (o : Options) (d : Draft) (text : List UInt8) : Next :=
  if o.checkOnly then .finish .publish else .claim d text

def keep (o : Options) (j : Job) (d : Draft) (text : List UInt8) (w : World) : Job × World :=
  let j := { j with next := publishing o d text }
  match o.cacheDir with
  | none => (j, w)
  | some dir =>
    let payload := Cache.Payload.ofResult d.program text j.result.lines j.reporter.contents
    match w.onFiles (Cache.put dir (Cache.key d.source.toList o.assembly) payload) with
    | (.ok _, w) => (j, w)
    | (.error f, w) => (j.report (.warning .cacheFailed j.place f.message), w)

/-- The file that a program is written to. -/
def target (o : Options) (d : Draft) : String :=
  Path.join [if o.outDir = "" then Path.dir d.path else o.outDir, d.program ++ ".jasm"]

def claim (o : Options) (j : Job) (d : Draft) (text : List UInt8) (w : World) : Job × World :=
  let (span, w) := w.startSpan .pass "publish" j.span.id
  let w := w.tell ⟨d.path, .publish, .working, none⟩
  let target := target o d
  match w.claim target d.path with
  | (none, w) => ({ j with next := .write target text span }, w)
  | (some owner, w) =>
    ({ (j.report (.error .writeFailed j.place s!"{target} is already produced by {owner}")) with
        next := .finish .publish }, w.finishSpan span "")

def write (j : Job) (target : String) (text : List UInt8) (span : Trace.Span) (w : World) :
    Job × World :=
  let (r, w) := w.saveTrace.onFiles (FileOp.replaceFile {} target ⟨text.toArray⟩)
  let j := { j with next := .finish .publish }
  let j := match r with
    | .ok _ => { j with result := { j.result with output := target } }
    | .error m => j.report (.error .writeFailed j.place m)
  (j, w.finishSpan span "")

/-- The result of a job with its findings. -/
def settled (j : Job) : Result :=
  let r := { j.result with findings := j.reporter.contents }
  match j.restored with
  | none => r
  | some lines => { r with lines := lines, cached := !r.findings.hasErrors }

def ending (r : Result) (stage : Stage) : Progress :=
  if r.failed then ⟨r.path, stage, .error, some s!"{r.findings.errorCount} error(s)"⟩
  else if r.cached then ⟨r.path, stage, .cached, none⟩
  else ⟨r.path, stage, .done, none⟩

def finish (j : Job) (stage : Stage) (w : World) : Job × World :=
  ({ j with next := .over false, result := j.settled }, w.tell (ending j.settled stage))

/-- Takes the next step. A job that is over stays as it is. -/
def step (o : Options) (j : Job) (w : World) : Job × World :=
  match j.next with
  | .load => j.load w
  | .check d => j.check o d w
  | .walk d p => j.walk o d p w
  | .keep d text => j.keep o d text w
  | .claim d text => j.claim o d text w
  | .write target text span => j.write target text span w
  | .finish stage => j.finish stage w
  | .over _ => (j, w)

def steps (o : Options) : (count : Nat) → Job → World → Job × World
  | 0, j, w => (j, w)
  | count + 1, j, w =>
    let (j, w) := j.step o w
    steps o count j w

/-- The number of steps after which every job is over. -/
def maxSteps : Nat := 7

/-- Takes all steps and closes the span of the job; gives the result and whether the job was
cancelled. -/
def run (o : Options) (j : Job) (w : World) : (Result × Bool) × World :=
  let (j, w) := j.steps o maxSteps w
  let cancelled := match j.next with
    | .over c => c
    | _ => false
  ((j.settled, cancelled), w.finishSpan j.span "")

end Job

def compileFile (o : Options) (path : String) (parent : Nat) (w : World) :
    (Result × Bool) × World :=
  (Job.ofFile o path parent).run o w

/-- Compiles a description that was read before. -/
def compile (o : Options) (d : Draft) (parent : Nat) (w : World) : (Result × Bool) × World :=
  (Job.ofDraft o d parent).run o w

end Jasm.Compile

import Jasm.Cache.Basic
import Jasm.Draft.Decode
import Jasm.Progress
import Jasm.Timer
import Jasm.Trace.Saving

/-!
# Compilations

What a compilation is asked for, what it gives, and the world it works in: the files, the trace, the
timer, what was told of its progress, and which unit writes which file.
-/

namespace Jasm.Compile

/-- What a compilation is asked for. -/
structure Options where
  /-- Where programs are written; without it, beside their units. -/
  outDir : String := ""
  codegen : Assembly.Options := ⟨0, 0, "", false⟩
  maxDiagnostics : Int := 0
  /-- Goes through everything but writes no file. -/
  checkOnly : Bool := false
  /-- Shows the open scopes at the end of each method. -/
  dumpSymbols : Bool := false
  cacheDir : Option String := none

namespace Options

/-- The number of findings kept if nothing else is said. -/
def standardLimit : Int := 100

def limit (o : Options) : Int := if o.maxDiagnostics ≤ 0 then standardLimit else o.maxDiagnostics

/-- The options of the assembly program: the standard ones if nothing is said, otherwise with what
is missing filled in. -/
def assembly (o : Options) : Assembly.Options :=
  (if o.codegen = ⟨0, 0, "", false⟩ then Assembly.Options.standard else o.codegen).withDefaults

/-- The stage in which the statements are gone through. -/
def walkStage (o : Options) : Stage := if o.checkOnly then .check else .emit

end Options

/-- What a compilation gives. -/
structure Result where
  /-- The unit description. -/
  path : String
  program : String := ""
  /-- The file that was written; empty if there is none. -/
  output : String := ""
  lines : Int := 0
  cached : Bool := false
  findings : Bag
  /-- The open scopes at the end of each method, if they were wanted. -/
  symbols : String := ""

def Result.failed (r : Result) : Bool := r.findings.hasErrors

/-- The world that compilations share. -/
structure World where
  files : Files := {}
  recorder : Trace.Recorder := {}
  timer : Option Timer := none
  /-- What was told of the progress, the last first. -/
  progress : List Progress := []
  /-- Which unit writes which file, if that is watched. -/
  claims : Option (List (String × String)) := none
  /-- How often a compilation may still be asked to go on before all are cancelled. -/
  polls : Option Nat := none
  /-- Whether the process ran out of memory. Nothing that follows in such a world happens. -/
  crashed : Bool := false

namespace World

def tell (w : World) (p : Progress) : World := { w with progress := p :: w.progress }

def startPhase (w : World) (name : String) : Option Nat × World :=
  match w.timer with
  | none => (none, w)
  | some t =>
    let (i, t) := t.start w.recorder.now name
    (some i, { w with timer := some t })

def finishPhase (w : World) (i : Option Nat) (note : String) : World :=
  match w.timer, i with
  | some t, some i => { w with timer := some (t.finish w.recorder.now i note) }
  | _, _ => w

def startSpan (w : World) (grain : Trace.Grain) (name : String) (parent : Nat) :
    Trace.Span × World :=
  let (s, r) := w.recorder.start grain name parent
  (s, { w with recorder := r })

def finishSpan (w : World) (s : Trace.Span) (detail : String) : World :=
  { w with recorder := w.recorder.finish s detail }

/-- Lets the files show what has been traced so far. -/
def saveTrace (w : World) : World :=
  let (tracer, fs) := w.recorder.tracer.save w.files
  { w with files := fs, recorder := { w.recorder with tracer := tracer } }

/-- Claims a file for a unit, unless another unit has it; gives that one. -/
def claim (w : World) (target path : String) : Option String × World :=
  match w.claims with
  | none => (none, w)
  | some claims =>
    match claims.lookup target with
    | some owner => if owner = path then (none, w) else (some owner, w)
    | none => (none, { w with claims := some ((target, path) :: claims) })

/-- Whether compilations go on. -/
def poll (w : World) : Bool × World :=
  match w.polls with
  | none => (true, w)
  | some 0 => (false, w)
  | some (n + 1) => (true, { w with polls := some n })

def onFiles {ε α : Type} (w : World) (op : ExceptT ε (StateM Files) α) : Except ε α × World :=
  let (r, fs) := op.run.run w.files
  (r, { w with files := fs })

end World

end Jasm.Compile

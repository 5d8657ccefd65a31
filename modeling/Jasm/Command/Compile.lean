import Jasm.Command.Mode
import Jasm.Command.Tracing
import Jasm.Compile.All
import Jasm.Diagnostic.Export
import Jasm.Diagnostic.Pretty
import Jasm.Diagnostic.Sarif
import Jasm.Diagnostic.Short
import Jasm.Manifest
import Jasm.Progress.View

/-!
# Building and checking

Both commands compile units and show what was found; only building writes programs. What the command
line says goes before what the description of the project says.
-/

namespace Jasm.Command

/-- How findings are shown. -/
inductive ReportFormat where
  | pretty
  | short
  | json
  | sarif
  deriving DecidableEq, Repr

def ReportFormat.parse : String → Except String ReportFormat
  | "pretty" => .ok .pretty
  | "short" => .ok .short
  | "json" => .ok .json
  | "sarif" => .ok .sarif
  | s => .error s!"unknown format: {s}"

/-- What is compiled, and how it is shown. -/
structure Request where
  title : String
  units : List String
  /-- The directory that paths are shown from. -/
  baseDir : String
  options : Compile.Options
  format : ReportFormat
  color : Bool
  /-- Whether progress is shown on the screen. -/
  screen : Bool

def noManifestMessage : String :=
  "no jasmc.toml found\nplease name the units explicitly, e.g.:\n  jasmc build path/to/unit.toml"

/-- The directory of the cache, if it can be told. -/
def cacheDir (e : Environment) : Except String String :=
  if e.cacheHome ≠ "" then .ok (Path.join [e.cacheHome, "jasmc"])
  else if e.home ≠ "" then .ok (Path.join [Path.join [e.home, ".cache"], "jasmc"])
  else .error "$HOME is not defined"

/-- Makes sure that there is a cache; gives its directory. -/
def openCache : Script (Except String String) := do
  match cacheDir (← read) with
  | .error m => return .error m
  | .ok dir =>
    match ← Script.onFiles (Cache.create dir) with
    | .ok _ => return .ok dir
    | .error f => return .error f.message

/-- The options of programs: the standard ones, changed by the project and then by the command
line. -/
def codegenOptions (s : Settings) (m : Option Manifest) : Assembly.Options :=
  let base := Assembly.Options.standard
  let byProject : Assembly.Options := match m with
    | none => base
    | some m =>
      { maxStack := if 0 < m.maxStack then m.maxStack else base.maxStack
        maxLocals := if 0 < m.maxLocals then m.maxLocals else base.maxLocals
        labelStem := if m.labelStem ≠ "" then m.labelStem else base.labelStem }
  { maxStack := s.maxStack.getD byProject.maxStack
    maxLocals := s.maxLocals.getD byProject.maxLocals
    labelStem := s.labelStem.getD byProject.labelStem
    indent := !s.noIndent }

/-- Finds out what is to be compiled. -/
def prepare (task : Task) (s : Settings) (args : List String) : Script Request := do
  let env ← read
  let color ← Script.ofExcept id (Mode.parse "color" s.color)
  let ui ← Script.ofExcept id (Mode.parse "ui" s.ui)
  let format ← Script.ofExcept id (ReportFormat.parse s.format)
  let fs ← Script.files
  let manifest ← Script.ofExcept Manifest.Fault.message (Manifest.load fs ".")
  let roots ← match args, manifest with
    | [], none => Script.fail noManifestMessage
    | [], some m => pure m.units
    | args, _ => pure args
  let mut cache := none
  if (manifest.map (·.usesCache)).getD true && !s.noCache then
    match ← openCache with
    | .ok dir => cache := some dir
    | .error m => if !s.quiet then Script.printError s!"cache disabled: {m}\n"
  let units ← Script.ofExcept FileFault.message (Compile.listUnits (← Script.files) roots)
  if units.isEmpty then Script.fail s!"no units (*{Compile.unitEnding}) found"
  let projectDir := (manifest.map (·.outDir)).getD ""
  return {
    title := s!"jasmc {task.name}"
    units := units
    baseDir := (manifest.map (·.root)).getD fs.cwd
    options := {
      outDir := if task = .build then s.outDir.getD projectDir else projectDir
      codegen := codegenOptions s manifest
      maxDiagnostics := s.maxDiagnostics
      checkOnly := task = .check
      dumpSymbols := s.dumpSymbols
      cacheDir := cache }
    format := format
    color := color.resolve env.terminal
    screen := ui.resolve env.terminal && !s.quiet && format = .pretty }

/-! ## Reports -/

open Compile (Result)

/-- What is said about the output of a unit, or about its scopes. -/
def outputLine (baseDir : String) (r : Result) : String :=
  if r.output ≠ "" then
    let status := if r.cached then "cached" else "wrote"
    s!"{status} {Path.within baseDir r.output} ({r.lines} lines)\n"
  else if r.symbols ≠ "" then s!"symbols of {Path.within baseDir r.path}:\n{r.symbols}"
  else ""

def prettyReport (req : Request) (s : Settings) (mode : PathMode) (cwd : String)
    (results : List Result) : String :=
  let options : Bag.PrettyOptions :=
    { color := req.color, mode := mode, cwd := cwd, baseDir := req.baseDir, notes := s.withNotes }
  let findings := String.join (results.map (·.findings.sort.pretty options))
  let errors := results.foldl (fun n r => n + r.findings.errorCount) 0
  let warnings := results.foldl (fun n r => n + r.findings.warningCount) 0
  let totals := s!"{results.length} unit(s): {errors} error(s), {warnings} warning(s)\n"
  if s.quiet then findings
  else
    findings ++ String.join (results.map (outputLine req.baseDir)) ++
      (if 0 < errors || 0 < warnings then totals else "")

/-- All findings in one bag with room for those of each unit. -/
def mergedFindings (s : Settings) (results : List Result) : Bag :=
  let room := Number.wrap64 (s.maxDiagnostics * max results.length 1)
  (results.foldl (fun b r => b.merge (some r.findings)) (Bag.new room)).sort

/-- What was found, in the format that is asked for. -/
def report (env : Environment) (req : Request) (s : Settings) (cwd : String)
    (results : List Result) : String :=
  let mode : PathMode := if s.fullPath then .absolute else .auto
  match req.format with
  | .pretty => prettyReport req s mode cwd results
  | .short =>
    let all := results.flatMap (·.findings.items.toList)
    match Diagnostic.shortReport all req.baseDir s.withNotes with
    | "" => ""
    | text => text ++ "\n"
  | .json =>
    let options : Bag.ExportOptions :=
      { mode := mode, cwd := cwd, baseDir := req.baseDir, notes := s.withNotes }
    (Bag.toJsonByUnit options (results.map fun r => (r.path, some r.findings.sort))).document
  | .sarif =>
    (Bag.toLog cwd ⟨"jasmc", env.build.version, env.words⟩
      (some (mergedFindings s results))).document

/-- How long it took, in the format that is asked for. -/
def timingReport (format : ReportFormat) (t : Timer) : String :=
  if format = .json then t.report.document else t.summary

def finalScreen (req : Request) (progress : List Progress) : String :=
  let view := progress.foldl ProgressView.tell (.new req.title req.units)
  (view.change .done).text

def runCompile (req : Request) (s : Settings) : Script Unit := do
  let env ← read
  let tracing ← Tracing.start s
  let world : Compile.World :=
    { files := ← Script.files
      recorder := { tracer := tracing.tracer, now := env.now }
      timer := if s.timings then some {} else none }
  let ((results, _), world) := Compile.compileAll req.options req.units 0 world
  let results := results.filterMap id
  modify fun session => { session with files := world.files }
  let tracing := { tracing with tracer := world.recorder.tracer }
  tracing.drain
  if req.screen then Script.print (finalScreen req world.progress.reverse)
  Script.print (report env req s world.files.cwd results)
  if let some t := world.timer then Script.printError (timingReport req.format t)
  if results.any (·.failed) then
    tracing.showRing
    throw .unitsFailed

def compile (task : Task) (s : Settings) (args : List String) : Script Unit := do
  runCompile (← prepare task s args) s

end Jasm.Command

import Jasm.Command.Flag
import Jasm.Files.Basic
import Jasm.Version

/-!
# Commands

The settings that a command line makes, the surroundings a command runs in, and what it leaves
behind: files, and text on its two outputs. A command stops early with a message, or silently once
it has shown what is wrong.
-/

namespace Jasm.Command

/-- The settings of all commands. What is not set on the command line keeps its default; where it
matters whether something was set at all there is no default. -/
structure Settings where
  color : String := "auto"
  quiet : Bool := false
  timings : Bool := false
  maxDiagnostics : Int := 100
  /-- Where the trace is written. -/
  trace : String := ""
  traceLevel : String := "off"
  traceFormat : String := "auto"
  traceMode : String := "stream"
  traceRingSize : Int := 4096
  /-- The time between signs of life, in nanoseconds; none if it is not positive. -/
  traceHeartbeat : Int := 0
  help : Bool := false
  showVersion : Bool := false
  ui : String := "auto"
  jobs : Option Int := none
  maxStack : Option Int := none
  maxLocals : Option Int := none
  labelStem : Option String := none
  noIndent : Bool := false
  noCache : Bool := false
  format : String := "pretty"
  withNotes : Bool := false
  fullPath : Bool := false
  outDir : Option String := none
  dumpSymbols : Bool := false
  cacheOnly : Bool := false
  hash : Bool := false
  date : Bool := false
  full : Bool := false

def globalFlags : List (Flag Settings) :=
  [⟨"color", none, .text fun v s => { s with color := v }⟩,
    ⟨"quiet", none, .switch fun v s => { s with quiet := v }⟩,
    ⟨"timings", none, .switch fun v s => { s with timings := v }⟩,
    ⟨"max-diagnostics", none, .number fun v s => { s with maxDiagnostics := v }⟩,
    ⟨"trace", none, .text fun v s => { s with trace := v }⟩,
    ⟨"trace-level", none, .text fun v s => { s with traceLevel := v }⟩,
    ⟨"trace-format", none, .text fun v s => { s with traceFormat := v }⟩,
    ⟨"trace-mode", none, .text fun v s => { s with traceMode := v }⟩,
    ⟨"trace-ring-size", none, .number fun v s => { s with traceRingSize := v }⟩,
    ⟨"trace-heartbeat", none, .duration fun v s => { s with traceHeartbeat := v }⟩]

def helpFlag : Flag Settings := ⟨"help", some 'h', .switch fun v s => { s with help := v }⟩

def versionFlag : Flag Settings :=
  ⟨"version", some 'v', .switch fun v s => { s with showVersion := v }⟩

def formatFlag : Flag Settings := ⟨"format", none, .text fun v s => { s with format := v }⟩

def compileFlags : List (Flag Settings) :=
  [⟨"ui", none, .text fun v s => { s with ui := v }⟩,
    ⟨"jobs", none, .number fun v s => { s with jobs := some v }⟩,
    ⟨"max-stack", none, .number fun v s => { s with maxStack := some v }⟩,
    ⟨"max-locals", none, .number fun v s => { s with maxLocals := some v }⟩,
    ⟨"label-prefix", none, .text fun v s => { s with labelStem := some v }⟩,
    ⟨"no-indent", none, .switch fun v s => { s with noIndent := v }⟩,
    ⟨"no-cache", none, .switch fun v s => { s with noCache := v }⟩,
    formatFlag,
    ⟨"with-notes", none, .switch fun v s => { s with withNotes := v }⟩,
    ⟨"fullpath", none, .switch fun v s => { s with fullPath := v }⟩]

/-- What the tool does. -/
inductive Task where
  | build
  | check
  | clean
  | version
  deriving DecidableEq, Repr

namespace Task

def name : Task → String
  | .build => "build"
  | .check => "check"
  | .clean => "clean"
  | .version => "version"

def all : List Task := [.build, .check, .clean, .version]

def flags : Task → List (Flag Settings)
  | .build => ⟨"out-dir", some 'o', .text fun v s => { s with outDir := some v }⟩ :: compileFlags
  | .check =>
    ⟨"dump-symbols", none, .switch fun v s => { s with dumpSymbols := v }⟩ :: compileFlags
  | .clean => [⟨"cache-only", none, .switch fun v s => { s with cacheOnly := v }⟩]
  | .version =>
    [⟨"hash", none, .switch fun v s => { s with hash := v }⟩,
      ⟨"date", none, .switch fun v s => { s with date := v }⟩,
      ⟨"full", none, .switch fun v s => { s with full := v }⟩, formatFlag]

end Task

/-- The surroundings of a command. -/
structure Environment where
  words : List String
  /-- Whether the output is a terminal. -/
  terminal : Bool := false
  /-- Where caches are kept, if that is said. -/
  cacheHome : String := ""
  home : String := ""
  /-- The time in microseconds since the start of 1970. -/
  now : Int := 0
  build : BuildInfo := {}

/-- What a command leaves behind. -/
structure Session where
  files : Files := {}
  output : String := ""
  errorOutput : String := ""

/-- Why a command stops early. -/
inductive Stop where
  | fault (message : String)
  /-- Units have errors, which were shown. -/
  | unitsFailed

/-- What a command does. -/
abbrev Script := ReaderT Environment (ExceptT Stop (StateM Session))

namespace Script

def fail {α : Type} (message : String) : Script α := throw (.fault message)

/-- Goes on with the value, or stops with what is wrong. -/
def ofExcept {ε α : Type} (message : ε → String) : Except ε α → Script α
  | .ok a => return a
  | .error e => fail (message e)

def print (text : String) : Script Unit :=
  modify fun s => { s with output := s.output ++ text }

def printError (text : String) : Script Unit :=
  modify fun s => { s with errorOutput := s.errorOutput ++ text }

def files : Script Files := return (← get).files

def onFiles {ε α : Type} (op : ExceptT ε (StateM Files) α) : Script (Except ε α) := do
  let s ← get
  let (r, fs) := op.run.run s.files
  set { s with files := fs }
  return r

end Script

end Jasm.Command

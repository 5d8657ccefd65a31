import Jasm.Compile.Job

/-!
# Compiling many units

Units are found by walking directories, and compiled one after another. No two of them may write the
same file: the first one gets it.
-/

namespace Jasm.Compile

def unitEnding : String := ".toml"

/-- The file that describes a project; it is never a unit. -/
def manifestName : String := "jasmc.toml"

def isUnitName (name : String) : Bool := name.endsWith unitEnding && name ≠ manifestName

/-- Opens a directory by its path. -/
def openDir (fs : Files) (path : String) : Except FileFault Unit :=
  match fs.node path with
  | .ok _ => .ok ()
  | .error e => .error ⟨"open", [path], e⟩

/-- The units at a path: the file itself, whatever its name, or those below the directory. All
directories on the way are opened by their paths, and the first one that cannot be opened ends
it. -/
def unitsAt (fs : Files) (root : String) : Except FileFault (List String) :=
  match fs.node root with
  | .error e => .error ⟨"lstat", [root], e⟩
  | .ok (.file _) => .ok [Path.clean root]
  | .ok (.dir entries) => do
    (FileNode.dirsOf entries).forM fun way => openDir fs (Path.join (root :: way))
    return (FileNode.filesOf entries).filterMap fun (way, _) =>
      if isUnitName (way.getLastD "") then some (Path.join (root :: way)) else none

/-- All units at some paths, sorted and each only once. -/
def listUnits (fs : Files) (roots : List String) : Except FileFault (List String) := do
  let found ← roots.mapM (unitsAt fs)
  return sortBy id found.flatten

/-- Compiles one of many units, unless all are cancelled by then. -/
def compileNext (o : Options) (span : Nat) (path : String) (w : World) :
    (Option Result × Bool) × World :=
  match w.poll with
  | (false, w) => ((none, true), w)
  | (true, w) =>
    let ((r, cancelled), w) := compileFile o path span w
    ((some r, cancelled), w)

def compileEach (o : Options) (span : Nat) : List String → World →
    (List (Option Result) × Bool) × World
  | [], w => (([], false), w)
  | path :: rest, w =>
    let ((r, cancelled), w) := compileNext o span path w
    let ((rs, later), w) := compileEach o span rest w
    ((r :: rs, cancelled || later), w)

/-- Compiles units that watch each other's output files; gives their results and whether the
compilation was cancelled. A unit that was never started has no result. -/
def compileAll (o : Options) (paths : List String) (parent : Nat) (w : World) :
    (List (Option Result) × Bool) × World :=
  if paths.isEmpty then (([], false), w)
  else
    let (span, w) := w.startSpan .driver "compile_all" parent
    let outer := w.claims
    let w := { w with claims := some (outer.getD []) }
    let w := paths.foldl (fun w p => w.tell ⟨p, .load, .queued, none⟩) w
    let (r, w) := compileEach o span.id paths w
    (r, { w with claims := outer }.finishSpan span s!"{paths.length} units")

end Jasm.Compile

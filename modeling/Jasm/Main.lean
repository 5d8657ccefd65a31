import Jasm.Command.Run
import Jasm.Files.Changes

/-!
# The command line tool

A command runs on a picture of the files it may look at: those that its words name, the project
around the working directory, and the cache. What it changed in the picture is then done to the
files themselves.
-/

namespace Jasm.Tool

def isDirectory (path : String) : IO Bool := do
  let here : IO.FS.DirEntry := ⟨path, ""⟩
  here.path.isDir

def listDirectory (path : String) : IO (List String) := do
  let here : IO.FS.DirEntry := ⟨path, ""⟩
  return (← here.path.readDir).toList.map (·.fileName)

/-- The bytes of a file; none if it cannot be read. -/
def readBytes? (path : String) : IO (Option ByteArray) := do
  try
    return some (← IO.FS.readBinFile path)
  catch _ =>
    return none

/-- Puts something into the picture. -/
def picture (op : FileOp Unit) (fs : Files) : Files := (op.run.run fs).2

/-- Whether the contents of a file matter although nobody names it. -/
def isRead (path : String) : Bool := path.endsWith ".toml" || path.endsWith ".mp"

/-- Takes a file into the picture, unless it is there already and nobody names it. -/
def takeFile (fs : Files) (path : String) (named : Bool) : IO Files := do
  if !named && fs.exists? path then return fs
  let bytes ← if named || isRead path then readBytes? path else pure (some .empty)
  match bytes with
  | some bytes =>
    return picture (do FileOp.makeDirs (Path.dir path); FileOp.write path bytes) fs
  | none => return fs

/-- Takes a directory into the picture, with what is in it up to a number of levels. -/
def takeDirectory : (levels : Nat) → Files → String → IO Files
  | 0, fs, path => return picture (FileOp.makeDirs path) fs
  | levels + 1, fs, path => do
    let mut fs := picture (FileOp.makeDirs path) fs
    for name in ← listDirectory path do
      let inner := Path.join [path, name]
      fs ← if ← isDirectory inner then takeDirectory levels fs inner else takeFile fs inner false
    return fs

def maxLevels : Nat := 64

/-- Takes what is at a path into the picture, and the names beside it. -/
def take (fs : Files) (path : String) : IO Files := do
  let path := Path.absolute fs.cwd path
  let around := Path.dir path
  let fs ← if ← isDirectory around then takeDirectory 1 fs around else pure fs
  if ← isDirectory path then takeDirectory maxLevels fs path else takeFile fs path true

/-- Takes the directories from one up to the root into the picture, with the names in them. -/
def takeAbove (fs : Files) : (way : List String) → IO Files
  | [] => takeDirectory 1 fs "/"
  | name :: above => do
    let fs ← takeAbove fs above
    let dir := Path.ofParts true (name :: above).reverse
    if ← isDirectory dir then takeDirectory 1 fs dir else return fs

/-- What a word may name: the word itself, or the value behind the equals sign of a flag. -/
def pathIn (word : String) : String :=
  if word.startsWith "-" then
    String.ofList ((word.toList.dropWhile (· ≠ '=')).drop 1)
  else word

/-- The picture that a command runs on. -/
def takePicture (env : Command.Environment) (cwd : String) : IO Files := do
  let mut fs : Files := { cwd := cwd }
  fs ← takeAbove fs (Path.cleanParts cwd).reverse
  for word in env.words do
    let path := pathIn word
    if path ≠ "" then fs ← take fs path
  if let .ok dir := Command.cacheDir env then fs ← take fs dir
  if let .ok (some m) := Manifest.load fs "." then
    for path in m.units ++ [m.outDir] do
      if path ≠ "" then fs ← take fs path
  return fs

/-- Writes a file by way of another one beside it, so that nobody sees a part of it. -/
def replace (path : String) (bytes : ByteArray) : IO Unit := do
  let temp := Path.join [Path.dir path, s!".jasmc-{Path.base path}.tmp"]
  IO.FS.writeBinFile temp bytes
  IO.FS.rename temp path

def apply : FileChange → IO Unit
  | .remove path => IO.FS.removeFile path
  | .makeDir path => IO.FS.createDirAll path
  | .write path bytes => replace path bytes

def environment (words : List String) : IO Command.Environment := do
  return {
    words := words
    terminal := ← (← IO.getStdout).isTty
    cacheHome := (← IO.getEnv "XDG_CACHE_HOME").getD ""
    home := (← IO.getEnv "HOME").getD ""
    now := (← IO.monoNanosNow) / 1000
    build := { compiler := "lean4", platform := "native" } }

def run (words : List String) : IO UInt32 := do
  let env ← environment words
  let files ← takePicture env (← IO.currentDir).toString
  let outcome := Command.run env files
  (files.root.changes outcome.files.root).forM apply
  IO.print outcome.output
  IO.eprint outcome.errorOutput
  return outcome.exitCode.toUInt32

end Jasm.Tool

def main (words : List String) : IO UInt32 := Jasm.Tool.run words

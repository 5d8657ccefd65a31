import Jasm.Files.Tree
import Jasm.Path

/-!
# Files

The files that a run sees, with its working directory, and the operations of a file system on them.
Paths are followed part by part: every part but the last has to be a directory that is there.
-/

namespace Jasm

/-- Why an operation is refused. -/
inductive Errno where
  | noEntry
  | notDirectory
  | isDirectory
  | exists
  | nameTooLong
  | invalid
  | notEmpty
  deriving DecidableEq, Repr

def Errno.message : Errno → String
  | .noEntry => "no such file or directory"
  | .notDirectory => "not a directory"
  | .isDirectory => "is a directory"
  | .exists => "file exists"
  | .nameTooLong => "file name too long"
  | .invalid => "invalid argument"
  | .notEmpty => "directory not empty"

/-- An operation that failed. -/
structure FileFault where
  operation : String
  paths : List String
  cause : Errno
  deriving DecidableEq, Repr

def FileFault.message (f : FileFault) : String :=
  " ".intercalate (f.operation :: f.paths) ++ ": " ++ f.cause.message

structure Files where
  root : FileNode := .dir []
  cwd : String := "/"

/-- An operation on files. What it did before it failed stays done. -/
abbrev FileOp := ExceptT FileFault (StateM Files)

namespace Files

/-- The longest name of an entry, in bytes. -/
def maxName : Nat := 255

/-- The longest path, in bytes. -/
def maxPath : Nat := 4095

/-- Where one more part of a path leads from a way; both ways are in reverse. -/
def advance (done : List String) (part : String) : List String :=
  if part = "" || part = "." then done
  else if part = ".." then done.tail
  else part :: done

/-- Follows the parts of a path. `done` is the way so far in reverse. Gives the way to what the path
means and the node there, if there is one. Behind a slash at the end there is no file. -/
def follow (root : FileNode) : (done parts : List String) →
    Except Errno (List String × Option FileNode)
  | done, [] => .ok (done.reverse, root.get? done.reverse)
  | done, part :: rest =>
    match root.get? done.reverse with
    | none => if part = "" && rest.isEmpty then .ok (done.reverse, none) else .error .noEntry
    | some (.file _) => .error .notDirectory
    | some (.dir _) =>
      if maxName < part.utf8ByteSize then .error .nameTooLong
      else follow root (advance done part) rest

/-- What a path means: the way to it and the node there, if there is one. -/
def resolve (fs : Files) (path : String) : Except Errno (List String × Option FileNode) :=
  if path.toList.contains '\x00' then .error .invalid
  else if path = "" then .error .noEntry
  else if maxPath < path.utf8ByteSize then .error .nameTooLong
  else
    follow fs.root [] (if Path.isRooted path then Path.parts path
      else Path.parts fs.cwd ++ Path.parts path)

def node (fs : Files) (path : String) : Except Errno FileNode := do
  match ← fs.resolve path with
  | (_, some n) => return n
  | (_, none) => throw .noEntry

def isDir (fs : Files) (path : String) : Bool :=
  match fs.node path with
  | .ok n => n.isDir
  | .error _ => false

def exists? (fs : Files) (path : String) : Bool := (fs.node path).toBool

/-- The files at or below a path, with the ways to them from there. -/
def below (fs : Files) (path : String) : List (List String × ByteArray) :=
  match fs.node path with
  | .ok n => n.files
  | .error _ => []

def read (fs : Files) (path : String) : Except FileFault ByteArray :=
  match fs.node path with
  | .ok (.file bytes) => .ok bytes
  | .ok (.dir _) => .error ⟨"read", [path], .isDirectory⟩
  | .error e => .error ⟨"open", [path], e⟩

/-- Whether there is a file with just these bytes in it. -/
def holds (fs : Files) (path : String) (bytes : ByteArray) : Bool :=
  match fs.read path with
  | .ok found => found.data = bytes.data
  | .error _ => false

end Files

namespace FileOp

def fail {α : Type} (operation : String) (paths : List String) (cause : Errno) : FileOp α :=
  throw ⟨operation, paths, cause⟩

/-- Fails if something was refused. -/
def orFail {α : Type} (operation : String) (paths : List String) : Except Errno α → FileOp α
  | .ok a => return a
  | .error e => fail operation paths e

def place (way : List String) (n : FileNode) : FileOp Unit :=
  modify fun fs => { fs with root := FileNode.put n way fs.root }

def makeDir (path : String) : FileOp Unit := do
  match ← orFail "mkdir" [path] ((← get).resolve path) with
  | (_, some _) => fail "mkdir" [path] .exists
  | (way, none) => place way (.dir [])

/-- The path without its last part, if that leaves more than a slash. -/
def parent? (path : String) : Option String :=
  let chars := path.toList.reverse.dropWhile (· = '/')
  let before := chars.dropWhile (· ≠ '/')
  if before.length ≤ 1 then none else some (String.ofList before.tail.reverse)

/-- Makes a directory and those around it, `limit` of them at most. -/
def makeDirsWithin : (limit : Nat) → (path : String) → FileOp Unit
  | 0, _ => return
  | limit + 1, path => do
    match (← get).node path with
    | .ok (.dir _) => return
    | .ok (.file _) => fail "mkdir" [path] .notDirectory
    | .error _ =>
      match parent? path with
      | some p => makeDirsWithin limit p
      | none => pure ()
      makeDir path

/-- Makes a directory and those around it, as far as they are missing. -/
def makeDirs (path : String) : FileOp Unit := makeDirsWithin (path.length + 1) path

def write (path : String) (bytes : ByteArray) : FileOp Unit := do
  match ← orFail "open" [path] ((← get).resolve path) with
  | (_, some (.dir _)) => fail "open" [path] .isDirectory
  | (way, _) => place way (.file bytes)

/-- Removes a file or an empty directory. -/
def remove (path : String) : FileOp Unit := do
  match ← orFail "remove" [path] ((← get).resolve path) with
  | (_, none) => fail "remove" [path] .noEntry
  | (way, some n) =>
    if n.entries.isEmpty then modify fun fs => { fs with root := fs.root.erase way }
    else fail "remove" [path] .notEmpty

/-- Removes whatever is at a path. -/
def removeAll (path : String) : FileOp Unit := do
  match (← get).resolve path with
  | .ok (way, some _) => modify fun fs => { fs with root := fs.root.erase way }
  | _ => return

/-- Gives a file or directory another path; a file there is replaced, a directory is not. -/
def rename (old new : String) : FileOp Unit := do
  let (oldWay, node) ← orFail "rename" [old, new] ((← get).resolve old)
  match node with
  | none => fail "rename" [old, new] .noEntry
  | some n =>
    let (newWay, target) ← orFail "rename" [old, new] ((← get).resolve new)
    if target.any FileNode.isDir then fail "rename" [old, new] .exists
    modify fun fs => { fs with root := FileNode.put n newWay (fs.root.erase oldWay) }

/-- The first name that a directory does not have, made from a stem, a number and an ending. -/
def freshName (entries : List (String × FileNode)) (stem ending : String) : String :=
  let name (n : Nat) : String := stem ++ toString n ++ ending
  (((List.range (entries.length + 1)).map name).find? fun n => (entries.lookup n).isNone).getD
    (name entries.length)

def inside (dir name : String) : String :=
  if dir.endsWith "/" then dir ++ name else s!"{dir}/{name}"

/-- Makes an empty file of a new name in a directory; gives its path. -/
def createFresh (dir stem ending : String) : FileOp String := do
  let entries := match (← get).node dir with
    | .ok n => n.entries
    | .error _ => []
  let path := inside dir (freshName entries stem ending)
  match ← orFail "open" [path] ((← get).resolve path) with
  | (_, some _) => fail "open" [path] .exists
  | (way, none) =>
    place way (.file .empty)
    return path

/-! ## Writing all or nothing -/

/-- Which steps of a write fail although the files would allow them. -/
structure Hazards where
  makeDir : Option Errno := none
  /-- How many levels above the directory those are that `makeDir` leaves behind. -/
  levels : Nat := 0
  create : Option Errno := none
  write : Option Errno := none
  /-- How many bytes `write` leaves behind. -/
  written : Nat := 0
  close : Option Errno := none
  rename : Option Errno := none

/-- A step that a hazard may hit; then only a part of it is done. -/
def risk (hazard : Option Errno) (operation : String) (paths : List String)
    (part step : FileOp Unit) : FileOp Unit :=
  match hazard with
  | some e => do
    part
    fail operation paths e
  | none => step

/-- The path around a path, or one so many levels further out. -/
def outer? : (levels : Nat) → (path : String) → Option String
  | 0, path => parent? path
  | levels + 1, path => (parent? path).bind (outer? levels)

/-- Makes the directories around a directory, down to so many levels above it. -/
def makeOuter (levels : Nat) (path : String) : FileOp Unit :=
  match outer? levels path with
  | some p => makeDirs p
  | none => return

/-- A step whose failure is told with what was being done, after some cleaning up. -/
def step {α : Type} (what : String) (cleanUp : FileOp Unit) (op : FileOp α) :
    ExceptT String (StateM Files) α := fun fs =>
  match op.run.run fs with
  | (.ok a, fs) => (.ok a, fs)
  | (.error f, fs) => (.error s!"{what}: {f.message}", (cleanUp.run.run fs).2)

/-- Replaces a file by way of a temporary one in the same directory, so that nobody ever sees a part
of the new contents. -/
def replaceFile (hazards : Hazards) (path : String) (bytes : ByteArray) :
    ExceptT String (StateM Files) Unit := do
  let dir := Path.dir path
  step "create output dir" (pure ())
    (risk hazards.makeDir "mkdir" [dir] (makeOuter hazards.levels dir) (makeDirs dir))
  let temp ← step "create temp output" (pure ())
    (match hazards.create with
      | some e => fail "open" [inside dir ".jasmc-0.tmp"] e
      | none => createFresh dir ".jasmc-" ".tmp")
  let discard := remove temp
  step "write output" discard
    (risk hazards.write "write" [temp] (write temp (bytes.extract 0 hazards.written))
      (write temp bytes))
  step "close output" discard (risk hazards.close "close" [temp] (pure ()) (pure ()))
  step "publish output" discard
    (risk hazards.rename "rename" [temp, path] (pure ()) (rename temp path))

end FileOp

end Jasm

import Jasm.Files.Basic

/-!
# Differences between file trees

What has to be done to turn one file tree into another: files to remove, directories to make and
files to write, in this order.
-/

namespace Jasm

inductive FileChange where
  | remove (path : String)
  | makeDir (path : String)
  | write (path : String) (bytes : ByteArray)

namespace FileNode

/-- Whether there is a file with just these bytes. -/
def holds (n : FileNode) (way : List String) (bytes : ByteArray) : Bool :=
  match n.get? way with
  | some (.file old) => old.data = bytes.data
  | _ => false

def hasFile (n : FileNode) (way : List String) : Bool :=
  match n.get? way with
  | some (.file _) => true
  | _ => false

/-- What turns `old` into `new`. -/
def changes (old new : FileNode) : List FileChange :=
  let path := Path.ofParts true
  let gone := old.files.filter fun (way, _) => !new.hasFile way
  let made := new.dirs.filter fun way => !(old.get? way).any isDir
  let written := new.files.filter fun (way, bytes) => !old.holds way bytes
  gone.map (fun (way, _) => .remove (path way)) ++ made.map (fun way => .makeDir (path way)) ++
    written.map fun (way, bytes) => .write (path way) bytes

end FileNode

end Jasm

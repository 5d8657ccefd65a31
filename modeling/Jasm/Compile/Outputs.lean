import Jasm.Files.Basic
import Jasm.Text.Quoted

/-!
# Removing output files

The programs written to a directory are removed by the ending of their names. Directories and other
files are left alone.
-/

namespace Jasm.Compile

def outputEnding : String := ".jasm"

/-- The output files right inside a directory, in the order of their names. -/
def outputsIn (dir : String) (entries : List (String × FileNode)) : List String :=
  (entries.filter fun (name, n) => !n.isDir && name.endsWith outputEnding).map
    fun (name, _) => Path.join [dir, name]

/-- Removes the output files right inside a directory and lists them. A directory that is not there
has none. -/
def removeOutputs (dir : String) : ExceptT String (StateM Files) (List String) := do
  let refuse (e : Errno) : ExceptT String (StateM Files) (List String) :=
    let fault : FileFault := ⟨"open", [dir], e⟩
    throw s!"failed to read {Text.quoted dir}: {fault.message}"
  match (← get).node dir with
  | .error .noEntry => return []
  | .error e => refuse e
  | .ok (.file _) => refuse .notDirectory
  | .ok (.dir entries) =>
    let paths := outputsIn dir entries
    for path in paths do
      FileOp.step s!"failed to remove {Text.quoted path}" (pure ()) (FileOp.remove path)
    return paths

end Jasm.Compile

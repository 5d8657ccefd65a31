import Jasm.Sorted

/-!
# File trees

A file tree is a file, or a directory with named entries in the order of their names. Inside a tree
a file is addressed by the names on the way to it.
-/

namespace Jasm

inductive FileNode where
  | file (bytes : ByteArray)
  | dir (entries : List (String × FileNode))

namespace FileNode

instance : Inhabited FileNode := ⟨.dir []⟩

def isDir : FileNode → Bool
  | .dir _ => true
  | .file _ => false

def entries : FileNode → List (String × FileNode)
  | .dir es => es
  | .file _ => []

/-- The entry of a directory under a name. -/
def child? (n : FileNode) (name : String) : Option FileNode := n.entries.lookup name

/-- The node at the end of a way. -/
def get? : (way : List String) → FileNode → Option FileNode
  | [], n => some n
  | name :: way, n => (n.child? name).bind (get? way)

/-- Puts an entry in its place, instead of one of the same name. -/
def putEntry (name : String) (node : FileNode) :
    List (String × FileNode) → List (String × FileNode) := insertBy Prod.fst (name, node)

/-- Changes the entry at the end of a way by `f`, among those around it. The directories on the way
have to be there; otherwise nothing changes. -/
def alter (f : String → List (String × FileNode) → List (String × FileNode)) :
    (way : List String) → FileNode → FileNode
  | [], n => n
  | _ :: _, .file bytes => .file bytes
  | [name], .dir es => .dir (f name es)
  | name :: way, .dir es =>
    match es.lookup name with
    | some inner => .dir (putEntry name (alter f way inner) es)
    | none => .dir es

/-- Puts a node at the end of a way. -/
def put (node : FileNode) (way : List String) (n : FileNode) : FileNode :=
  if way = [] then node else alter (putEntry · node) way n

/-- Removes the node at the end of a way. -/
def erase (way : List String) (n : FileNode) : FileNode :=
  alter (fun name es => es.filter (·.1 ≠ name)) way n

mutual

/-- The ways to all files below a node, with the files. -/
def files : FileNode → List (List String × ByteArray)
  | .file bytes => [([], bytes)]
  | .dir es => filesOf es

def filesOf : List (String × FileNode) → List (List String × ByteArray)
  | [] => []
  | (name, n) :: rest => n.files.map (fun (way, b) => (name :: way, b)) ++ filesOf rest

end

mutual

/-- The ways to all directories below a node, outer ones first. -/
def dirs : FileNode → List (List String)
  | .file _ => []
  | .dir es => [] :: dirsOf es

def dirsOf : List (String × FileNode) → List (List String)
  | [] => []
  | (name, n) :: rest => n.dirs.map (name :: ·) ++ dirsOf rest

end

end FileNode

end Jasm

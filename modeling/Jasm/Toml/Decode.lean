import Std.Data.TreeSet
import Jasm.Toml.Document

/-!
# Taking values out of a document

A decoder takes the values it expects out of a table and notes which keys it took. A field is found
under its own name, or under a name that differs from it in case only. What no decoder took can be
listed afterwards.
-/

namespace Jasm.Toml

/-- Decoding notes the keys that were taken and refuses values of the wrong type. -/
abbrev Decode := StateT (Std.TreeSet (List String)) Option

namespace Decode

/-- A character with case removed. The long s and the Kelvin sign are letters of their own that only
differ in case from `s` and `k`. -/
def foldCase (c : Char) : Char :=
  match c.toNat with
  | 0x17f => 's'
  | 0x212a => 'k'
  | _ => c.toLower

/-- The field a key means. -/
def fieldOf (names : List String) (key : String) : Option String :=
  if key ∈ names then some key
  else
    let folded := key.toList.map foldCase
    names.find? fun name => name.toList = folded

def take (path : List String) : Decode Unit := modify (·.insert path)

def string : Data → Decode String
  | .string s => return s
  | _ => failure

def integer : Data → Decode Int
  | .integer n => return n
  | _ => failure

def boolean : Data → Decode Bool
  | .boolean b => return b
  | _ => failure

/-- A float, or an integer that a float holds exactly. -/
def float : Data → Decode Float
  | .float x => return x
  | .integer n => if n.natAbs < 1 <<< 53 then return Float.ofInt n else failure
  | _ => failure

/-- The items of an array or of a list of tables. -/
def list : Data → Decode (List Data)
  | .array ds | .rows ds => return ds
  | _ => failure

def strings (d : Data) : Decode (List String) := do (← list d).mapM string

/-- Decodes a table whose fields need no recursion: `step` puts one field into a record. It is given
the name of the field and the path and value of its key. -/
def record {α : Type} (path names : List String) (empty : α)
    (step : α → String → List String → Data → Decode α) (d : Data) : Decode α := do
  match d with
  | .table fields =>
    fields.foldlM (fun r (key, d) => do
      match fieldOf names key with
      | some name =>
        take (path ++ [key])
        step r name (path ++ [key]) d
      | none => return r) empty
  | _ => failure

end Decode

/-- Whether there is something under a path, by the exact names of its parts. -/
def Data.defines : (path : List String) → Data → Bool
  | [], _ => true
  | part :: rest, .table fields => (fields.lookup part).any (defines rest)
  | _, _ => false

/-- The keys of the document that are not among those taken, in the order of the file. -/
def Document.untaken (doc : Document) (taken : Std.TreeSet (List String)) : List (List String) :=
  doc.keys.filter fun path => !taken.contains path

end Jasm.Toml

import Jasm.Compile.All
import Jasm.Text.Blank
import Jasm.Toml.Decode

/-!
# Project descriptions

A project is described by a file in its root directory, which is looked for in a directory and in
those above it. It names the package and may say how the units of the project are built.
-/

namespace Jasm

/-- The description of a project. -/
structure Manifest where
  path : String := ""
  root : String := ""
  name : String := ""
  /-- The units as they are written. -/
  unitList : List String := []
  /-- Where programs are written, as it is written. -/
  outDirText : String := ""
  maxStack : Int := 0
  maxLocals : Int := 0
  labelStem : String := ""
  jobs : Int := 0
  /-- Whether the cache is used, if that is said. -/
  cache : Option Bool := none

namespace Manifest

/-- Why there is no usable description. -/
inductive Fault where
  /-- It cannot be found out whether there is a description. -/
  | unreachable (fault : FileFault) (path : String)
  | unreadable (path : String) (fault : FileFault)
  | malformed (path : String)
  | noPackage (path : String)
  | noName (path : String)
  | unknownKey (path key : String)
  | negative (path key : String)

def Fault.message : Fault → String
  | .unreachable f path => s!"failed to stat {Text.quoted path}: {f.message}"
  | .unreadable path f => s!"{path}: failed to parse TOML: {f.message}"
  | .malformed path => s!"{path}: failed to parse TOML: toml: invalid document"
  | .noPackage path => s!"{path}: missing [package]"
  | .noName path => s!"{path}: missing [package].name"
  | .unknownKey path key => s!"{path}: unknown key {key}"
  | .negative path key => s!"{path}: [build].{key} must not be negative"

def Fault.isFound : Fault → Bool
  | .unreachable .. => false
  | _ => true

/-- Looks for a description in a directory and in those above it; the way to the directory is given
in reverse. -/
def findAbove (fs : Files) (way : List String) : Except Fault (Option String) :=
  let candidate := Path.ofParts true (way.reverse ++ [Compile.manifestName])
  match fs.node candidate with
  | .ok _ => .ok (some candidate)
  | .error .noEntry =>
    match way with
    | [] => .ok none
    | _ :: above => findAbove fs above
  | .error e => .error (.unreachable ⟨"stat", [candidate], e⟩ candidate)

/-- Looks for a description from a directory on. -/
def find (fs : Files) (start : String) : Except Fault (Option String) :=
  let dir := Path.absolute fs.cwd (if start = "" then "." else start)
  findAbove fs (Path.cleanParts dir).reverse

open Toml (Decode)
open Toml.Decode (string strings integer boolean record)

def decodePackage (path : List String) (m : Manifest) : Toml.Data → Decode Manifest :=
  record path ["name"] m fun m _ _ d => return { m with name := ← string d }

def decodeBuild (path : List String) (m : Manifest) : Toml.Data → Decode Manifest :=
  record path ["units", "out_dir", "max_stack", "max_locals", "label_prefix", "jobs", "cache"] m
    fun m name _ d => do
      match name with
      | "units" => return { m with unitList := ← strings d }
      | "out_dir" => return { m with outDirText := ← string d }
      | "max_stack" => return { m with maxStack := ← integer d }
      | "max_locals" => return { m with maxLocals := ← integer d }
      | "label_prefix" => return { m with labelStem := ← string d }
      | "jobs" => return { m with jobs := ← integer d }
      | _ => return { m with cache := some (← boolean d) }

def decode (m : Manifest) : Toml.Data → Decode Manifest :=
  record [] ["package", "build"] m fun m name path d =>
    if name = "package" then decodePackage path m d else decodeBuild path m d

def parse (path : String) (bytes : ByteArray) : Except Fault Manifest := do
  let some doc := Toml.Document.ofBytes? bytes | throw (.malformed path)
  let start : Manifest := { path := path, root := Path.dir path }
  let some (m, taken) := (decode start doc.root).run ∅ | throw (.malformed path)
  if !doc.root.defines ["package"] then throw (.noPackage path)
  if !doc.root.defines ["package", "name"] || Text.trim m.name = "" then throw (.noName path)
  if let key :: _ := doc.untaken taken then throw (.unknownKey path (Toml.keyText key))
  if m.maxStack < 0 then throw (.negative path "max_stack")
  if m.maxLocals < 0 then throw (.negative path "max_locals")
  if m.jobs < 0 then throw (.negative path "jobs")
  return m

/-- Finds and reads the description of the project that a directory belongs to, if any. -/
def load (fs : Files) (start : String) : Except Fault (Option Manifest) := do
  match ← find fs start with
  | none => return none
  | some path =>
    match fs.read path with
    | .error f => throw (.unreadable path f)
    | .ok bytes => some <$> parse path bytes

/-- A path that is written in the description, from its directory on. -/
def resolve (m : Manifest) (written : String) : String :=
  let path := Text.trim written
  if Path.isRooted path then path else Path.join [m.root, path]

/-- Where the units are; without a list, anywhere below the root. -/
def units (m : Manifest) : List String :=
  if m.unitList.isEmpty then [m.root] else m.unitList.map m.resolve

/-- Where programs are written; empty if that is not said. -/
def outDir (m : Manifest) : String := if m.outDirText = "" then "" else m.resolve m.outDirText

def usesCache (m : Manifest) : Bool := m.cache.getD true

end Manifest

end Jasm

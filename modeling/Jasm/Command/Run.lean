import Jasm.Command.Clean

/-!
# Running a command line

The first word that is no flag names the command. An unknown command is answered with the names that
are close to it. What a command prints, the files it leaves and its exit status are its outcome.
-/

namespace Jasm.Command

/-! ## Names that are close -/

/-- One more row of the table of distances: `above` and `left` are the distances around it. -/
def distanceRow (c : UInt8) : (diagonal left : Nat) → (above : List Nat) → List UInt8 → List Nat
  | diagonal, left, up :: above, d :: word =>
    let here := if c = d then diagonal else min (min up left) diagonal + 1
    here :: distanceRow c up here above word
  | _, _, _, _ => []

/-- How many bytes have to be put in, left out or changed to get from one word to another. -/
def distance (s t : List UInt8) : Nat :=
  let first := List.range (t.length + 1)
  let last := s.foldl (fun row c =>
    match row with
    | [] => []
    | corner :: above => (corner + 1) :: distanceRow c corner (corner + 1) above t) first
  last.getLastD 0

/-- The names of commands that can be meant, besides those of `Task` the one that helps shells. -/
def knownNames : List String := Task.all.map Task.name ++ ["completion"]

/-- Whether a name is close to a word, or starts with it. -/
def isClose (typed name : String) : Bool :=
  let word := Text.lower typed
  distance word.toUTF8.toList name.toUTF8.toList ≤ 2 || name.startsWith word

def unknownCommandMessage (typed : String) : String :=
  let close := knownNames.filter (isClose typed)
  s!"unknown command {Text.quoted typed} for \"jasmc\"" ++
    if close.isEmpty then ""
    else "\n\nDid you mean this?\n" ++ String.join (close.map fun n => s!"\t{n}\n")

/-! ## Commands -/

def showVersion (s : Settings) : Script Unit := do
  let env ← read
  let hash := s.hash || s.full
  let date := s.date || s.full
  match Text.lower s.format with
  | "json" => Script.print (env.build.toJson hash date).document
  | "pretty" =>
    let color ← Script.ofExcept id (Mode.parse "color" s.color)
    Script.print (env.build.banner (color.resolve env.terminal) hash date)
  | _ => Script.fail s!"unsupported format {Text.quoted s.format} (must be pretty or json)"

def perform (task : Task) (s : Settings) (args : List String) : Script Unit :=
  match task with
  | .build | .check => compile task s args
  | .clean => clean s args
  | .version => showVersion s

/-- The words in front of any command: only asking for the version does something. -/
def runRoot (words : List String) : Script Unit := do
  let (s, _) ← Script.ofExcept FlagFault.message
    (Reading.run (helpFlag :: versionFlag :: globalFlags) {} words)
  if s.showVersion && !s.help then
    Script.print s!"jasmc version {(← read).build.version}\n"

def runTask (task : Task) (words : List String) : Script Unit := do
  let (s, args) ← Script.ofExcept FlagFault.message
    (Reading.run (task.flags ++ helpFlag :: globalFlags) {} words)
  if !s.help then perform task s args

def dispatch (words : List String) : Script Unit :=
  match splitCommand globalFlags words with
  | none => runRoot words
  | some (name, rest) =>
    match Task.all.find? (·.name = name) with
    | some task => runTask task rest
    | none =>
      if name = "help" || name = "completion" then return
      else Script.fail (unknownCommandMessage name)

/-- How a command ended. -/
structure Outcome where
  exitCode : Nat
  output : String
  errorOutput : String
  files : Files

def run (env : Environment) (files : Files) : Outcome :=
  match ((dispatch env.words).run env).run.run { files := files } with
  | (.ok _, s) => ⟨0, s.output, s.errorOutput, s.files⟩
  | (.error .unitsFailed, s) => ⟨1, s.output, s.errorOutput, s.files⟩
  | (.error (.fault m), s) => ⟨1, s.output, s.errorOutput ++ s!"Error: {m}\n", s.files⟩

end Jasm.Command

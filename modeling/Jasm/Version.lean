import Jasm.Json
import Jasm.Text.Style

/-!
# Versions

What a build of the tool says about itself. The three numbers of a version can be shown in colours;
what follows them stays plain.
-/

namespace Jasm

/-- What is known about a build. -/
structure BuildInfo where
  version : String := "0.1.0-dev"
  /-- The commit it was made from; empty if unknown. -/
  commit : String := ""
  /-- When it was made; empty if unknown. -/
  date : String := ""
  compiler : String := ""
  platform : String := ""

namespace Version

/-- The part before the first dash or plus, and the rest. -/
def splitCore (v : List Char) : List Char × List Char :=
  v.span fun c => c ≠ '-' && c ≠ '+'

/-- The two numbers in front and all that follows the second point. -/
def numbers? (core : List Char) : Option (List Char × List Char × List Char) :=
  match core.span (· ≠ '.') with
  | (major, _ :: rest) =>
    match rest.span (· ≠ '.') with
    | (minor, _ :: patch) => some (major, minor, patch)
    | _ => none
  | _ => none

/-- A version with its numbers in colours. -/
def pretty (color : Bool) (v : String) : String :=
  let (core, rest) := splitCore v.toList
  match numbers? core with
  | none => v
  | some (major, minor, patch) =>
    Text.paint color [.yellow, .bold] (String.ofList major) ++ "." ++
      Text.paint color [.green, .bold] (String.ofList minor) ++ "." ++
      Text.paint color [.blue, .bold] (String.ofList patch) ++ String.ofList rest

end Version

namespace BuildInfo

def orUnknown (s : String) : String := if s = "" then "unknown" else s

def banner (b : BuildInfo) (color showCommit showDate : Bool) : String :=
  s!"jasmc {Version.pretty color b.version} ({b.compiler}, {b.platform})\n" ++
    (if showCommit then s!"commit: {orUnknown b.commit}\n" else "") ++
    (if showDate then s!"built:  {orUnknown b.date}\n" else "")

def toJson (b : BuildInfo) (showCommit showDate : Bool) : Json :=
  .obj ([("tool", .str "jasmc"), ("version", .str b.version)] ++
    (if showCommit then [("git_commit", .str (orUnknown b.commit))] else []) ++
    (if showDate then [("build_date", .str (orUnknown b.date))] else []) ++
    [("go_version", .str b.compiler), ("platform", .str b.platform)])

end BuildInfo

end Jasm

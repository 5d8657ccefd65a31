import Jasm.Command.Compile
import Jasm.Compile.Outputs

/-!
# Cleaning

Forgets what is in the cache, and removes the programs of a project if they have a directory of
their own.
-/

namespace Jasm.Command

/-- Prints a line unless that is not wanted. -/
def inform (s : Settings) (line : String) : Script Unit :=
  if s.quiet then return else Script.print (line ++ "\n")

/-- Removes the output files of the project that a directory belongs to. -/
def cleanProject (s : Settings) (start : String) : Script Unit := do
  let manifest ← Script.ofExcept Manifest.Fault.message (Manifest.load (← Script.files) start)
  match manifest.filter (·.outDir ≠ "") with
  | none => inform s "no [build].out_dir configured; outputs left in place"
  | some m =>
    let removed ← Script.ofExcept id (← Script.onFiles (Compile.removeOutputs m.outDir))
    removed.forM fun path => inform s s!"removed {Path.within m.root path}"

def clean (s : Settings) (args : List String) : Script Unit := do
  if 1 < args.length then Script.fail s!"accepts at most 1 arg(s), received {args.length}"
  let dir ← Script.ofExcept (fun m => s!"failed to open cache: {m}") (← openCache)
  Script.ofExcept (fun f : FileFault => s!"failed to drop cache: {f.message}")
    (← Script.onFiles (Cache.dropAll dir))
  inform s s!"cleared cache {dir}"
  if !s.cacheOnly then cleanProject s (args.headD "")

end Jasm.Command

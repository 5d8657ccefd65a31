import Jasm.Command.Basic
import Jasm.Trace.Saving

/-!
# Tracing a command

The settings decide whether a command is traced, how finely, and where the trace goes. What was
streamed to a file or to the error output is put there when the work is done; the events in memory
are only shown if something fails.
-/

namespace Jasm.Command

/-- A traced command. -/
structure Tracing where
  tracer : Trace.Tracer := .off
  format : Trace.Format := .auto

namespace Tracing

def targetOf (path : String) : Trace.Target :=
  if path = "" || path = "-" then .errorOutput else .file path

def isStreamed : Trace.Storage → Bool
  | .ring => false
  | _ => true

def start (s : Settings) : Script Tracing := do
  let level ← Script.ofExcept (fun m => s!"invalid trace level: {m}")
    (Trace.Level.parse s.traceLevel)
  let format ← Script.ofExcept id (Trace.Format.parse s.traceFormat)
  if level = .off && s.trace = "" then return {}
  let storage ← Script.ofExcept (fun m => s!"invalid trace mode: {m}")
    (Trace.Storage.parse s.traceMode)
  let target := targetOf s.trace
  if let .file path := target then
    if isStreamed storage then
      let made ← Script.onFiles (FileOp.write path .empty)
      Script.ofExcept (fun f : FileFault =>
        s!"failed to create tracer: failed to open trace output: {f.message}") made
  let config : Trace.Config :=
    { level := if level = .off then .phase else level
      storage := storage
      format := format
      path := s.trace
      ringSize := s.traceRingSize }
  let tracer ← Script.ofExcept (fun m => s!"failed to create tracer: {m}")
    (config.tracer target (← read).now)
  return ⟨tracer, format⟩

/-- Puts what was streamed where it belongs. -/
def drain (t : Tracing) : Script Unit := do
  let (tracer, fs) := t.tracer.save (← Script.files)
  modify fun session => { session with files := fs }
  tracer.streams.forM fun s =>
    match s.target with
    | .file _ => return
    | _ => Script.printError s.written

/-- Shows the events in memory, if there are such. -/
def showRing (t : Tracing) : Script Unit :=
  match t.tracer.rings with
  | [] => return
  | ring :: _ =>
    Script.printError ("trace: last events before failure\n" ++
      ring.dump (if t.format = .auto then .text else t.format))

end Tracing

end Jasm.Command

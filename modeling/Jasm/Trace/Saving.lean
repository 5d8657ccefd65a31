import Jasm.Files.Basic
import Jasm.Trace.Tracer

/-!
# Traces in files

What a stream writes to a file is there for everybody who reads the file afterwards. A stream keeps
what it wrote, and what its file held when it was last brought up to date. Saving brings the files
of all streams up to date; it has to be done before a file is read or replaced, and at the end. A
file that was replaced in between belongs to somebody else and is left alone.
-/

namespace Jasm.Trace

/-- Brings the file of a stream up to date. -/
def Stream.save (s : Stream) (fs : Files) : Stream × Files :=
  match s.target with
  | .file path =>
    if fs.holds path s.saved.toUTF8 then
      ({ s with saved := s.written }, ((FileOp.write path s.written.toUTF8).run.run fs).2)
    else (s, fs)
  | _ => (s, fs)

def Sink.save (s : Sink) (fs : Files) : Sink × Files :=
  match s with
  | .ring l r => (.ring l r, fs)
  | .stream st =>
    let (st, fs) := st.save fs
    (.stream st, fs)

/-- Brings the files of several sinks up to date, one after another. -/
def Sink.saveAll : List Sink → Files → List Sink × Files
  | [], fs => ([], fs)
  | s :: rest, fs =>
    let (s, fs) := s.save fs
    let (rest, fs) := saveAll rest fs
    (s :: rest, fs)

/-- Brings the files of a tracer up to date. -/
def Tracer.save (t : Tracer) (fs : Files) : Tracer × Files :=
  let (sinks, fs) := Sink.saveAll t.sinks fs
  (t.withSinks sinks, fs)

end Jasm.Trace

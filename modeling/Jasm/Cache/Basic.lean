import Jasm.Assembly.Generator
import Jasm.Cache.Packed
import Jasm.Diagnostic.Reporter
import Jasm.Files.Basic
import Jasm.Sha256
import Jasm.Text.Utf8

/-!
# The cache

What a compilation without errors leaves behind is kept in a file, under a key made from the source
and all options that the result depends on. A compilation under the same key need not be done again.
An entry that was written in another layout is as good as none.
-/

namespace Jasm.Cache

def currentLayout : Nat := 2

/-- A finding without its file, which is the one that is compiled later. -/
structure Finding where
  severity : Nat := 0
  code : Nat := 0
  message : Text.ByteText := {}
  index : Int := 0
  path : Text.ByteText := {}
  deriving DecidableEq, Repr

/-- What a compilation leaves behind. -/
structure Payload where
  layout : Nat := 0
  program : Text.ByteText := {}
  text : List UInt8 := []
  lines : Int := 0
  findings : List Finding := []
  deriving DecidableEq, Repr

def Payload.ofResult (program : String) (text : List UInt8) (lines : Int) (b : Bag) : Payload where
  layout := currentLayout
  program := program
  text := text
  lines := lines
  findings := b.items.toList.map fun d =>
    ⟨d.severity.rank % 256, d.code.number.toNat, ⟨d.message, d.rawMessage⟩, d.place.index,
      ⟨d.place.path, d.rawPath⟩⟩

/-- A kept finding, now about a file. -/
def Finding.diagnostic (f : Finding) (file : String) : Diagnostic where
  severity := .ofRank f.severity
  code := ⟨f.code.toUInt16⟩
  message := f.message.text
  place := ⟨file, f.index, f.path.text⟩
  rawMessage := f.message.raw
  rawPath := f.path.raw

/-- Reports the kept findings again; those of no known severity are passed over. -/
def Payload.restore (p : Payload) (r : Reporter) (file : String) : Reporter :=
  r.reportAll ((p.findings.map (·.diagnostic file)).filter (·.severity.isValid))

/-! ## Entries -/

open Packed

def packText (t : Text.ByteText) : List UInt8 := packString t.bytes

def Finding.pack (f : Finding) : List UInt8 :=
  packRecord [("Severity", packByte f.severity), ("Code", packShort f.code),
    ("Message", packText f.message), ("Index", packInt f.index), ("Path", packText f.path)]

def Payload.pack (p : Payload) : List UInt8 :=
  packRecord [("Schema", packShort p.layout), ("Program", packText p.program),
    ("Text", packBytes p.text), ("Lines", packInt p.lines),
    ("Diags", if p.findings.isEmpty then [0xc0] else packList (p.findings.map Finding.pack))]

def text? (v : Packed) : Option Text.ByteText := v.bytes?.map .ofBytes

/-- Puts the fields of a record one after another into `old`; unknown fields are passed over, and
nothing or an empty list gives `empty`. -/
def readRecord {α : Type} (names : List String) (empty : α)
    (step : α → String → Packed → Option α) (old : α) : Packed → Option α
  | .nil | .list [] => some empty
  | v => do
    (← v.fields? names).foldlM (fun a (name, field) =>
      match names.find? (·.toUTF8.toList = name) with
      | some name => step a name field
      | none => some a) old

/-- Reads a finding; fields that are not given keep what they were. -/
def Finding.read? : (old : Finding) → Packed → Option Finding :=
  readRecord ["Severity", "Code", "Message", "Index", "Path"] {} fun f name v => do
    match name with
    | "Severity" => return { f with severity := ← v.nat? 8 }
    | "Code" => return { f with code := ← v.nat? 16 }
    | "Message" => return { f with message := ← text? v }
    | "Index" => return { f with index := ← v.int? }
    | _ => return { f with path := ← text? v }

/-- Reads findings one by one over those of an earlier list, as far as that goes. -/
def readFindings : (old : List Finding) → List Packed → Option (List Finding)
  | _, [] => some []
  | old, v :: rest => do
    let first ← (old.headD {}).read? v
    return first :: (← readFindings old.tail rest)

/-- A payload that is being read. A field can be given again; a list of findings is then read over
all findings that were ever read in their places, `spare` being those behind the current list. -/
structure Reading extends Payload where
  spare : List Finding := []

/-- Takes in a list of findings; nothing forgets the earlier ones. -/
def Reading.readList (p : Reading) : Packed → Option Reading
  | .nil => some { p with findings := [], spare := [] }
  | v => do
    let old := p.findings ++ p.spare
    let findings ← readFindings old (← v.items?)
    return { p with findings := findings, spare := old.drop findings.length }

def Payload.read? (v : Packed) : Option Payload :=
  (readRecord ["Schema", "Program", "Text", "Lines", "Diags"] {} step {} v).map (·.toPayload)
where
  step (p : Reading) (name : String) (v : Packed) : Option Reading := do
    match name with
    | "Schema" => return { p with layout := ← v.nat? 16 }
    | "Program" => return { p with program := ← text? v }
    | "Text" => return { p with text := ← v.bytes? }
    | "Lines" => return { p with lines := ← v.int? }
    | _ => p.readList v

def Payload.unpack? (bs : List UInt8) : Option Payload := (Packed.unpack? bs).bind Payload.read?

/-! ## Keys -/

/-- The bytes that a key is made from: the layout, the options and the source. -/
def keyBytes (source : List UInt8) (o : Assembly.Options) : List UInt8 :=
  bigEndian 2 currentLayout ++
    s!"{o.maxStack}|{o.maxLocals}|{o.labelStem}|{o.indent}|".toUTF8.toList ++ source

def key (source : List UInt8) (o : Assembly.Options) : List UInt8 :=
  Sha256.digest (keyBytes source o)

def keyText (key : List UInt8) : String := String.join (key.map (Text.hexText 2 ·.toNat))

def entryPath (dir : String) (key : List UInt8) : String :=
  Path.join [dir, "units", keyText key ++ ".mp"]

/-! ## Files -/

def create (dir : String) : FileOp Unit := FileOp.makeDirs dir

/-- Looks up an entry: whether it can be used, and what it holds. -/
def get (fs : Files) (dir : String) (key : List UInt8) : Except String (Bool × Payload) :=
  match fs.read (entryPath dir key) with
  | .ok data =>
    match Payload.unpack? data.toList with
    | some p => .ok (p.layout = currentLayout, p)
    | none => .error "decode cache entry: msgpack: invalid entry"
  | .error f =>
    if f.cause = .noEntry then .ok (false, {})
    else if f.cause = .isDirectory then .error "decode cache entry: msgpack: invalid entry"
    else .error f.message

/-- Keeps an entry, in place of an older one. -/
def put (dir : String) (key : List UInt8) (p : Payload) : FileOp Unit := do
  let path := entryPath dir key
  FileOp.makeDirs (Path.dir path)
  let temp ← FileOp.createFresh (Path.dir path) "tmp-" ""
  FileOp.write temp ⟨p.pack.toArray⟩
  tryCatch (FileOp.rename temp path) fun f => do
    FileOp.remove temp
    throw f

def dropAll (dir : String) : FileOp Unit := do
  if (← getThe Files).exists? dir then
    FileOp.removeAll dir
    FileOp.makeDirs dir

end Jasm.Cache

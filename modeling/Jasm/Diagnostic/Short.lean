import Jasm.Diagnostic.Shown
import Jasm.Text.Blank
import Jasm.Text.Utf8

/-!
# Short reports

One line per finding and, if asked for, one per note, sorted so that the report does not depend on
the order in which findings were made.
-/

namespace Jasm.Diagnostic

/-- One line of a short report before it is put together. -/
structure ShortLine where
  label : String
  code : String
  file : String
  index : Int
  path : String
  message : Text.ByteText
  deriving DecidableEq, Repr

/-- Replaces line ends, in any of their three spellings, by blanks. -/
def joinLines : List Char → List Char
  | '\r' :: '\n' :: rest => ' ' :: joinLines rest
  | c :: rest => (if c = '\r' || c = '\n' then ' ' else c) :: joinLines rest
  | [] => []

/-- A message on one line without blanks around it. -/
def oneLine (message : String) : String :=
  String.ofList (Text.trimChars (joinLines message.toList))

/-- The bytes of the blanks that characters start with. -/
def blankBytes (cs : List (Option Char)) : Nat :=
  (cs.takeWhile (·.any Text.isBlank)).foldl (fun n c => n + (c.map Char.utf8Size).getD 0) 0

/-- The bytes of a message on one line without blanks around it. -/
def oneLineBytes (bs : List UInt8) : List UInt8 :=
  let joined := (joinLines (bs.map fun b => Char.ofNat b.toNat)).map (·.toNat.toUInt8)
  let chars := Text.charsOfBytes 0 joined
  (joined.take (joined.length - blankBytes chars.reverse)).drop (blankBytes chars)

/-- A message as a line shows it. -/
def shortMessage (message : String) : (raw : Option (List UInt8)) → Text.ByteText
  | none => oneLine message
  | some bs => .ofBytes (oneLineBytes bs)

def shortLine (label : String) (code : Code) (baseDir : String) (place : Place)
    (message : String) (raw : Option (List UInt8)) : ShortLine :=
  ⟨label, code.id, Path.below place.file baseDir, place.index, place.path,
    shortMessage message raw⟩

def shortLines (baseDir : String) (notes : Bool) (d : Diagnostic) : List ShortLine :=
  shortLine d.severity.label d.code baseDir d.place d.message d.rawMessage ::
    if notes then d.notes.map fun n => shortLine "note" d.code baseDir n.place n.message none
    else []

/-- The order of the lines: by file, statement, label, code and the bytes of the message. -/
def ShortLine.precedes (a b : ShortLine) : Bool :=
  if a.file ≠ b.file then a.file < b.file
  else if a.index ≠ b.index then a.index < b.index
  else if a.label ≠ b.label then a.label < b.label
  else if a.code ≠ b.code then a.code < b.code
  else a.message.bytes < b.message.bytes

def ShortLine.text (l : ShortLine) : String :=
  let place : Place := { file := l.file, path := l.path }
  s!"{l.label} {l.code} {place.text} {l.message.text}"

def shortReport (ds : List Diagnostic) (baseDir : String) (notes : Bool) : String :=
  let lines := (ds.flatMap (shortLines baseDir notes)).mergeSort fun x y => !y.precedes x
  "\n".intercalate (lines.map ShortLine.text)

end Jasm.Diagnostic

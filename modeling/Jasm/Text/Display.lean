import Jasm.Text.Width

/-!
# Text as a terminal displays it

A terminal takes control sequences out of the text it is sent and draws the rest. The cells of a
line are counted the same way: byte by byte through the states of a terminal's parser, where plain
text and characters beyond ASCII take room and everything that belongs to a sequence takes none.

Beyond ASCII the cells are counted by cluster. A pictograph takes the room of its usual form unless
a variation selector asks for another one; in other clusters the parts are added up.
-/

namespace Jasm.Text

namespace Display

/-- Pictographs that are shown as emoji unless something else is asked for. -/
def emoji : CodePoints := CodePoints.ofString "
231a-b e9-c f0 3 5fd-e 614-5 48-53 7f 93 a1 a-b bd-e c4-5 e d4 ea f2-3 5 a d 705 a-b 28 4c e 53-5 7
95-7 b0 f b1b-c 50 5 1f004 cf 18e 91-a e6-ff 201 1a 2f 32-6 8-a 50-1 300-20 d-35 7-7c e-93 a0-ca
f-d3 e0-f0 4 8-43e 40 2-fc f-53d 4b-e 50-67 7a 95-6 a4 fb-64f 80-c5 c d0-2 5-7 c-f eb-c f4-c 7e0-b
f0 90c-3a c-45 7-ff a70-c 80-8 90-bd f-c5 e-db e0-8 f0-8
"

def charCells (c : Char) : Nat :=
  match Cluster.classify c with
  | .control | .carriageReturn | .lineFeed | .extend | .zeroWidthJoiner => 0
  | .regional => 2
  | .pictograph => if emoji.contains c.toNat then 2 else 1
  | _ =>
    if c.toNat = 0x2e3a then 3
    else if c.toNat = 0x2e3b then 4
    else if Width.wide.contains c.toNat then 2
    else 1

/-- The cells of a pictograph after a character that follows it: variation selectors change them. -/
def select (cells : Nat) (c : Char) : Nat :=
  if c.toNat = 0xfe0e then 1 else if c.toNat = 0xfe0f then 2 else cells

def clusterCells (c : Char) (rest : List Char) : Nat :=
  match Cluster.classify c with
  | .pictograph => rest.foldl select (charCells c)
  | .regional | .leading => charCells c
  | _ => rest.foldl (fun n c => n + charCells c) (charCells c)

/-- What a terminal expects next. -/
inductive State where
  /-- Plain text. -/
  | ground
  /-- Behind an escape character. -/
  | escape
  | escapeIntermediate
  /-- The start, the parameters and the end of a control sequence. -/
  | sequenceEntry
  | sequenceParameter
  | sequenceIntermediate
  /-- The same of a device control string, then its contents. -/
  | deviceEntry
  | deviceParameter
  | deviceIntermediate
  | deviceString
  /-- A command to the operating system. -/
  | commandString
  /-- Another string that is not shown. -/
  | hiddenString
  deriving DecidableEq, Repr

/-- Control characters that are obeyed or ignored without changing what is expected. -/
def isPlainControl (b : Nat) : Bool := b < 0x20 && b ≠ 0x18 && b ≠ 0x1a && b ≠ 0x1b

/-- Where a byte leads from any state that has no rule of its own for it. -/
def State.anywhere (b : Nat) : State :=
  if b = 0x1b then .escape
  else if b = 0x90 then .deviceEntry
  else if b = 0x9b then .sequenceEntry
  else if b = 0x9d then .commandString
  else if b = 0x98 || b = 0x9e || b = 0x9f then .hiddenString
  else .ground

/-- Where the byte behind an escape character leads. -/
def State.afterEscape (b : Nat) : State :=
  if b = 0x50 then .deviceEntry
  else if b = 0x5b then .sequenceEntry
  else if b = 0x5d then .commandString
  else if b = 0x58 || b = 0x5e || b = 0x5f then .hiddenString
  else .ground

def State.next (s : State) (b : Nat) : State :=
  let isIntermediate := 0x20 ≤ b && b < 0x30
  let isParameter := 0x30 ≤ b && b < 0x40
  let isFinal := 0x40 ≤ b && b < 0x7f
  match s with
  | .ground => anywhere b
  | .escape =>
    if isPlainControl b || b = 0x7f then .escape
    else if isIntermediate then .escapeIntermediate
    else if isParameter || isFinal then afterEscape b
    else anywhere b
  | .escapeIntermediate =>
    if isPlainControl b || isIntermediate || b = 0x7f then .escapeIntermediate else anywhere b
  | .sequenceEntry | .sequenceParameter =>
    if isPlainControl b || b = 0x7f then s
    else if isIntermediate then .sequenceIntermediate
    else if isParameter then .sequenceParameter
    else anywhere b
  | .sequenceIntermediate =>
    if isPlainControl b || isIntermediate || b = 0x7f then .sequenceIntermediate else anywhere b
  | .deviceEntry =>
    if (0x08 ≤ b && b ≤ 0x0d) || b = 0x1b || isFinal then .deviceString
    else if isPlainControl b || b = 0x7f then .deviceEntry
    else if isIntermediate then .deviceIntermediate
    else if isParameter then .deviceParameter
    else anywhere b
  | .deviceParameter =>
    if isPlainControl b || isParameter || b = 0x7f then .deviceParameter
    else if isIntermediate then .deviceIntermediate
    else if isFinal then .deviceString
    else anywhere b
  | .deviceIntermediate =>
    if isPlainControl b || isIntermediate || b = 0x7f then .deviceIntermediate
    else if isParameter || isFinal then .deviceString
    else anywhere b
  | .deviceString =>
    if b = 0x1b then .escape
    else if b = 0x18 || b = 0x1a || b = 0x9c then .ground
    else .deviceString
  | .commandString =>
    if b = 0x1b then .escape
    else if b = 0x07 || b = 0x18 || b = 0x1a || b = 0x9c then .ground
    else .commandString
  | .hiddenString =>
    if isPlainControl b || (0x20 ≤ b && b < 0x80) then .hiddenString else anywhere b

/-- Whether a string takes in the bytes of characters beyond ASCII. -/
def State.takesBytes : State → Bool
  | .deviceString | .commandString => true
  | _ => false

/-- The cells of what follows. The first `skip` characters were counted with a cluster. -/
def cellsFrom : (s : State) → (skip : Nat) → List Char → Nat
  | _, _, [] => 0
  | s, skip + 1, _ :: rest => cellsFrom s skip rest
  | s, 0, c :: rest =>
    if c.toNat < 0x80 then
      let here := if s = .ground && 0x20 ≤ c.toNat then 1 else 0
      here + cellsFrom (s.next c.toNat) 0 rest
    else if s.takesBytes then
      let after := (String.singleton c).toUTF8.toList.foldl (fun s b => s.next b.toNat) s
      cellsFrom after 0 rest
    else
      let reach := clusterReach c rest
      clusterCells c (rest.take reach) + cellsFrom .ground reach rest

end Display

/-- The cells that a line of text takes on a terminal, control sequences apart. -/
def displayWidth (s : String) : Nat := Display.cellsFrom .ground 0 s.toList

end Jasm.Text

import Jasm.Text.Cluster

/-!
# Width on a terminal

How many cells a text takes on a terminal that is not set up for an East Asian language, and
cutting a text to a number of cells.
-/

namespace Jasm.Text

namespace Width

/-- Wide and full-width characters: two cells. -/
def wide : CodePoints := CodePoints.ofString "
1100-5f 231a-b 29-a e9-c f0 3 5fd-e 614-5 48-53 7f 93 a1 a-b bd-e c4-5 e d4 ea f2-3 5 a d 705 a-b
28 4c e 53-5 7 95-7 b0 f b1b-c 50 5 e80-99 b-f3 f00-d5 f0-b 3000-3e 41-96 9-ff 105-2f 31-8e 90-e3
f0-21e 20-47 50-4dbf e00-a48c 90-c6 960-7c c00-d7a3 f900-aff e10-9 30-52 4-66 8-b f01-60 e0-6
16fe0-4 f0-1 7000-87f7 800-cd5 d00-8 aff0-3 5-b d-e b000-122 32 50-2 5 64-7 70-2fb f004 cf 18e 91-a
200-2 10-3b 40-8 50-1 60-5 300-20 d-35 7-7c e-93 a0-ca f-d3 e0-f0 4 8-43e 40 2-fc f-53d 4b-e 50-67
7a 95-6 a4 fb-64f 80-c5 c d0-2 5-7 c-f eb-c f4-c 7e0-b f0 90c-3a c-45 7-ff a70-c 80-8 90-bd f-c5
e-db e0-8 f0-8 20000-fffd 30000-fffd
"

/-- Wide characters that came to the standard after the others. -/
def lateWide : CodePoints := CodePoints.ofString "2ffc-f 31ef"

/-- Marks drawn over the character before them: no cell. -/
def combining : CodePoints := CodePoints.ofString "
300-6f 483-9 7eb-f3 c00 4 f3 d00-1 135d-f a7f b0-ce b6b-73 dc0-ff 20d0-f0 cef-f1 de0-ff 3099-a
a66f-72 4-d 9e-f f0-1 8e0-f1 fe20-f 101fd 376-a eab-c f46-50 82-5 1300-1 3b-c 66-c 70-4 6af0-4
cf00-2d 30-46 d165-9 d-72 b-82 5-b aa-d 242-4 e000-6 8-18 b-21 3-4 6-a 8f 8d0-6
"

/-- Format characters without a form of their own: no cell. -/
def invisible : CodePoints := CodePoints.ofString "
0-1f 7f-9f ad 70f 180b-e 200b-f 28-e 6a-f feff ff9-b e-f
"

/-- Brackets and signs that are narrow although the table of wide characters is asked after
them. -/
def narrow : CodePoints := CodePoints.ofString "
20-7e a2-3 5-6 c f 27e6-d 985-6
"

end Width

def charWidth (c : Char) : Nat :=
  let n := c.toNat
  if n < 0x20 || (0x7f ≤ n && n ≤ 0x9f) || n = 0xad then 0
  else if n < 0x300 then 1
  else if Width.narrow.contains n then 1
  else if Width.invisible.contains n || Width.combining.contains n then 0
  else if Width.wide.contains n || Width.lateWide.contains n then 2
  else 1

/-- A cluster is as wide as its first character that takes room. -/
def clusterWidth (cs : List Char) : Nat :=
  match (cs.map charWidth).find? (0 < ·) with
  | some w => w
  | none => 0

def width (s : String) : Nat :=
  (clusters s.toList).foldl (fun n c => n + clusterWidth c) 0

/-- The longest run of leading clusters that fits into `room` cells. -/
def takeClusters (room : Nat) : List (List Char) → List Char
  | [] => []
  | c :: rest =>
    if clusterWidth c ≤ room then c ++ takeClusters (room - clusterWidth c) rest else []

/-- Cuts a text that does not fit into `cells` and puts `tail` behind what is left of it. The tail
is kept even where it alone is too wide. -/
def truncate (s : String) (cells : Nat) (tail : String) : String :=
  if width s ≤ cells then s
  else if width tail ≤ cells then
    String.ofList (takeClusters (cells - width tail) (clusters s.toList)) ++ tail
  else tail

end Jasm.Text

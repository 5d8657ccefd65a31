/-!
# Lists in the order of keys

Entries of a directory, annotations, rules and the paths of units are all kept in the order of their
names, and no name is there twice.
-/

namespace Jasm

/-- Puts an item in its place by key, instead of one of the same key. -/
def insertBy {α : Type} (key : α → String) (x : α) : List α → List α
  | [] => [x]
  | y :: rest =>
    if key x = key y then x :: rest
    else if key x < key y then x :: y :: rest
    else y :: insertBy key x rest

/-- Some items in order; of those with one key the first counts. -/
def sortBy {α : Type} (key : α → String) (xs : List α) : List α := xs.foldr (insertBy key) []

end Jasm

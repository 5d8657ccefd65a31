/-!
# Slash-separated paths

Paths are text; no file is ever looked at. A path is rooted if it starts with a slash, and its
parts are what stands between slashes.
-/

namespace Jasm.Path

/-- The characters up to the next slash and what follows that slash. -/
def splitChars : List Char → List (List Char)
  | [] => [[]]
  | c :: rest =>
    match splitChars rest with
    | [] => [[c]]
    | part :: parts => if c = '/' then [] :: part :: parts else (c :: part) :: parts

/-- What stands between the slashes of a path, empty parts included. -/
def parts (path : String) : List String := (splitChars path.toList).map String.ofList

def isRooted (path : String) : Bool := path.toList.head? = some '/'

/-- Adds a part to those kept so far, which are in reverse. A part that stays in place is dropped,
and `..` takes back the part before it. Above the root there is only the root. -/
def keepPart (rooted : Bool) (kept : List String) (part : String) : List String :=
  if part = "" || part = "." then kept
  else if part = ".." then
    match kept with
    | last :: before => if last = ".." then ".." :: kept else before
    | [] => if rooted then [] else [".."]
  else part :: kept

/-- The parts of a path in its shortest form. -/
def cleanParts (path : String) : List String :=
  ((parts path).foldl (keepPart (isRooted path)) []).reverse

def ofParts (rooted : Bool) (ps : List String) : String :=
  if rooted then "/" ++ "/".intercalate ps
  else if ps.isEmpty then "." else "/".intercalate ps

/-- The shortest path that means the same, without looking at any file. -/
def clean (path : String) : String := ofParts (isRooted path) (cleanParts path)

/-- Joins the parts that are not empty from the first such on. -/
def join (ps : List String) : String :=
  match ps.dropWhile (· = "") with
  | [] => ""
  | rest => clean ("/".intercalate rest)

/-- The last part of a path; a path of slashes only is its own last part. -/
def base (path : String) : String :=
  if path = "" then "."
  else
    match (parts path).reverse.dropWhile (· = "") with
    | last :: _ => last
    | [] => "/"

def dir (path : String) : String :=
  match (parts path).reverse with
  | _ :: before@(_ :: _) => clean ("/".intercalate before.reverse ++ "/")
  | _ => "."

/-- A path as seen from the root, for a given working directory. -/
def absolute (cwd path : String) : String :=
  if isRooted path then clean path else join [cwd, path]

/-- The parts of a clean path. A path that stays in place has one part as a target and none as a
starting point. -/
def relParts (path : String) : List String :=
  let ps := cleanParts path
  if ps.isEmpty && !isRooted path then ["."] else ps

/-- Drops the parts that two paths have in common at the front. -/
def dropCommon : List String → List String → List String × List String
  | b :: bs, t :: ts => if b = t then dropCommon bs ts else (b :: bs, t :: ts)
  | bs, ts => (bs, ts)

/-- How to get from one path to another, where text alone can say it. -/
def relative? (start target : String) : Option String :=
  if clean start = clean target then some "."
  else if isRooted start ≠ isRooted target then none
  else
    match dropCommon (cleanParts start) (relParts target) with
    | (".." :: _, _ :: _) => none
    | (up, down) => some ("/".intercalate (up.map (fun _ => "..") ++ down))

end Jasm.Path

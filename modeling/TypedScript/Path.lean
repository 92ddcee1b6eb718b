/-! # Module paths

A path is a list of segments written with `/` between them. Normal form drops `.` segments, lets a
`..` cancel the name before it, and keeps the `..` that no name is left for. The internal form of a
path is the identity of the module it names: a directory stands for its index, and the extension of
a file is left out.
-/

namespace TypedScript.Path

/-- The name of a library path begins with this. -/
def libraryStart : String := "~lib/"

/-- The segments of a path; the empty path is one empty segment. -/
def segments : List Char → List (List Char)
  | [] => [[]]
  | c :: rest =>
    if c = '/' then [] :: segments rest
    else
      match segments rest with
      | [] => [[c]]
      | s :: more => (c :: s) :: more

def ofSegments (parts : List (List Char)) : List Char :=
  ['/'].intercalate parts

def dropHere : List Char → List Char
  | '.' :: '/' :: rest => dropHere rest
  | path => path

/-- One segment after the first, on the kept segments with the last one first. A `..` cancels a kept
name, but neither another `..` nor the root of an absolute path. -/
def keep (absolute : Bool) (kept : List (List Char)) (part : List Char) : List (List Char) :=
  if part = ['.'] then kept
  else if part = ['.', '.'] then
    match kept with
    | [] => [part]
    | last :: before =>
      if last = ['.', '.'] ∨ (absolute ∧ before = []) then part :: kept else before
  else part :: kept

def normalizeChars (path : List Char) : List Char :=
  let path := dropHere path
  let absolute := path.head? = some '/'
  let kept :=
    match segments path with
    | [] => []
    | first :: more => more.foldl (keep absolute) [first]
  match ofSegments kept.reverse with
  | [] => if absolute then ['/'] else ['.']
  | result => result

def normalize (path : String) : String :=
  String.ofList (normalizeChars path.toList)

/-- Everything before the last `/`, if there is one. -/
def beforeLastSlash? (path : List Char) : Option (List Char) :=
  match path.reverse.dropWhile (· ≠ '/') with
  | [] => none
  | _ :: before => some before.reverse

/-- The directory of a path. A leading `/` alone separates no directory from a name. -/
def directoryChars : List Char → List Char
  | [] => ['.']
  | ['/'] => ['/']
  | first :: rest =>
    match beforeLastSlash? rest with
    | some before => first :: before
    | none => ['.']

def directory (path : String) : String :=
  String.ofList (directoryChars path.toList)

/-- A normal path read from the place of another file. Paths under `std/` are not relative. -/
def resolve (path origin : String) : String :=
  if "std/".toList.isPrefixOf path.toList then path
  else String.ofList (normalizeChars (directoryChars origin.toList ++ '/' :: path.toList))

/-- The text without an ending, if it has that ending. -/
def dropEnding? (ending text : List Char) : Option (List Char) :=
  if ending.isSuffixOf text then some (text.take (text.length - ending.length)) else none

def internalChars (path : List Char) : List Char :=
  if ['/'].isSuffixOf path then path ++ "index".toList
  else (dropEnding? ".ts".toList path).getD path

/-- The identity of the module at a path. -/
def internal (path : String) : String :=
  String.ofList (internalChars path.toList)

def lastSegment (path : String) : String :=
  String.ofList (path.toList.reverse.takeWhile (· ≠ '/')).reverse

end TypedScript.Path

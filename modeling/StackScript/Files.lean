import StackScript.Association

/-!
# Files

A tree of directories and text files, held by their paths, and the parts of a path: its last
name, the stem and the extension of that name, and the directory it stands in.

Main statements: `Files.text?_put` (what was put at a path is found there).
-/
namespace StackScript

namespace FilePath

/-- The names between the slashes; empty names and single points say nothing. -/
def parts (path : String) : List String :=
  ((path.splitOn "/").filter fun p => p != "" && p != ".")

/-- Whether a path starts at the top. -/
def isAbsolute (path : String) : Bool := path.startsWith "/"

/-- The last name of a path, unless it leads upwards. -/
def fileName? (path : String) : Option String :=
  match (parts path).getLast? with
  | some ".." => none
  | last => last

/-- A name before and after its last point; a point that starts the name is part of it. -/
def splitName (name : String) : String × Option String :=
  let reversed := name.toList.reverse
  let extension := (reversed.takeWhile (· != '.')).reverse
  match (reversed.dropWhile (· != '.')) with
  | _ :: stem =>
    if stem.isEmpty then (name, none)
    else (String.ofList stem.reverse, some (String.ofList extension))
  | [] => (name, none)

/-- The last name of a path without its extension. -/
def stem? (path : String) : Option String := (fileName? path).map fun n => (splitName n).1

/-- The extension of the last name of a path. -/
def extension? (path : String) : Option String := (fileName? path).bind fun n => (splitName n).2

/-- A path below a directory; an absolute path stands by itself. -/
def join (directory path : String) : String :=
  if isAbsolute path then path
  else if directory = "" then path
  else if directory.endsWith "/" then directory ++ path
  else directory ++ "/" ++ path

/-- The path up to its last name. -/
def parent? (path : String) : Option String :=
  match (parts path).reverse with
  | [] => none
  | _ :: rest =>
    let up := "/".intercalate rest.reverse
    some (if isAbsolute path then "/" ++ up else up)

end FilePath

/-- Why a file cannot be used, with the text and the number of the system. -/
inductive FileFault where
  | notFound
  | alreadyExists
  | isDirectory
  | notDirectory
  | nameTooLong
deriving Repr, DecidableEq

/-- The system's text for a failure. -/
def FileFault.text : FileFault → String
  | notFound => "No such file or directory (os error 2)"
  | alreadyExists => "File exists (os error 17)"
  | isDirectory => "Is a directory (os error 21)"
  | notDirectory => "Not a directory (os error 20)"
  | nameTooLong => "File name too long (os error 36)"

/-- The system opens no path of so many bytes, its end included. -/
def pathLimit : Nat := 4096

/-- How many bytes a name on a path may have. -/
def nameLimit : Nat := 255

/-- Files by the names on their paths from the top, directories that were made, and the directory
that relative paths start from. -/
structure Files where
  texts : List (List String × String) := []
  directories : List (List String) := []
  working : List String := []

namespace Files

/-- Whether a path leads to a directory: one that was made, or one that something lies in. -/
def hasDirectory (f : Files) (path : List String) : Bool :=
  path.isEmpty || f.directories.any (path.isPrefixOf ·) || path.isPrefixOf f.working ||
    f.texts.any fun (p, _) => path.isPrefixOf p && p.length > path.length

/-- The text of a file by the names on its path. -/
def text? (f : Files) (path : List String) : Option String := Association.find? path f.texts

/-- Follow names from a directory; all but the last must lead to directories. -/
def follow (f : Files) : (here : List String) → List String → Except FileFault (List String)
  | here, [] => .ok here
  | here, name :: rest =>
    if (f.text? here).isSome then .error .notDirectory
    else if !f.hasDirectory here then .error .notFound
    else if nameLimit < name.utf8ByteSize then .error .nameTooLong
    else follow f (if name = ".." then here.dropLast else here ++ [name]) rest

/-- The names on the way from the top that a path stands for. -/
def resolve (f : Files) (path : String) : Except FileFault (List String) :=
  if path = "" then .error .notFound
  else if pathLimit ≤ path.utf8ByteSize then .error .nameTooLong
  else f.follow (if FilePath.isAbsolute path then [] else f.working) (FilePath.parts path)

/-- Whether a path must lead to a directory because of how it ends. -/
def wantsDirectory (path : String) : Bool := path.endsWith "/" || path.endsWith "/."

/-- Whether a path leads to a file. -/
def isFile (f : Files) (path : String) : Bool :=
  match f.resolve path with
  | .ok names => (f.text? names).isSome && !wantsDirectory path
  | .error _ => false

/-- Whether a path leads to a file or a directory. -/
def hasPath (f : Files) (path : String) : Bool :=
  match f.resolve path with
  | .ok names =>
    if (f.text? names).isSome then !wantsDirectory path else f.hasDirectory names
  | .error _ => false

/-- Read a file. -/
def read (f : Files) (path : String) : Except FileFault String :=
  match f.resolve path with
  | .error e => .error e
  | .ok names =>
    match f.text? names with
    | some text => if wantsDirectory path then .error .notDirectory else .ok text
    | none => if f.hasDirectory names then .error .isDirectory else .error .notFound

/-- Where a file can be written: the names on the way to it. Its directory must exist. -/
def writable (f : Files) (path : String) : Except FileFault (List String) :=
  match f.resolve path with
  | .error e => .error e
  | .ok names =>
    if f.hasDirectory names then .error .isDirectory
    else if (f.text? names.dropLast).isSome then .error .notDirectory
    else if !f.hasDirectory names.dropLast then .error .notFound
    else if wantsDirectory path then
      .error (if (f.text? names).isSome then .notDirectory else .isDirectory)
    else .ok names

/-- Write a file. -/
def write (f : Files) (path text : String) : Except FileFault Files :=
  (f.writable path).map fun names =>
    { f with texts := Association.insert names text f.texts }

/-- Write at the end of a file, which is made if there is none. -/
def append (f : Files) (path text : String) : Except FileFault Files :=
  (f.writable path).map fun names =>
    { f with texts := Association.insert names ((f.text? names).getD "" ++ text) f.texts }

/-- Make a directory and all above it. -/
def makeDirectories (f : Files) (path : String) : Except FileFault Files :=
  let names := FilePath.parts path
  let names := if FilePath.isAbsolute path then names else f.working ++ names
  if (f.text? names).isSome then .error .alreadyExists
  else if (List.range names.length).any fun n => (f.text? (names.take n)).isSome then
    .error .notDirectory
  else .ok { f with directories := names :: f.directories }

/-- Put a text at a path from the top, whatever is there. -/
def put (f : Files) (names : List String) (text : String) : Files :=
  { f with texts := Association.insert names text f.texts }

/-- The names from the top that a path stands for when every directory on the way exists. -/
def names (f : Files) (path : String) : List String :=
  let start := if FilePath.isAbsolute path then [] else f.working
  (FilePath.parts path).foldl (fun here n => if n = ".." then here.dropLast else here ++ [n]) start

/-- The files with the directory of a path and those on the way to it. -/
def withDirectory (f : Files) (path : String) : Files :=
  let parts := FilePath.parts path
  let ways := (List.range (parts.length + 1)).map fun n =>
    f.names ((if FilePath.isAbsolute path then "/" else "") ++ "/".intercalate (parts.take n))
  { f with directories := ways ++ f.directories }

theorem text?_put (f : Files) (names : List String) (text : String) :
    (f.put names text).text? names = some text := by
  simp [put, text?, Association.find?_insert_self]

end Files

end StackScript

import HandlerSplit.Error
import HandlerSplit.Files.Path
/-!
# A tree of files

What a run reads from is a function from paths to texts; `FileTree.read` is the one for a
tree of files below a working directory. A path is followed name by name: each step must
start at a directory, `.` stays, `..` goes up. Nothing is known above the working directory
but that there are directories, and nothing below the root but what every system has there:
some directories and the null device, which is always empty. A source file is read and parsed, or
parsed from a text as if it had been read; every error names the path.
-/

namespace HandlerSplit

/-- The texts of files by path, or why a path cannot be read. -/
abbrev Files := String → Except ReadFault String

/-- Files below a working directory, each with the names that lead to it. -/
structure FileTree where
  files : List (List String × ByteArray)

namespace FileTree

/-- The tree of files given by relative paths. -/
def ofFiles (files : List (String × ByteArray)) : FileTree :=
  ⟨files.map fun (path, content) => (path.splitOn "/", content)⟩

/-- The content of the file at a place. -/
def content? (t : FileTree) (names : List String) : Option ByteArray :=
  (t.files.find? fun (path, _) => path == names).map (·.2)

/-- Whether there is a directory at a place. -/
def isDirectory (t : FileTree) (names : List String) : Bool :=
  names.isEmpty || t.files.any fun (path, _) => names.isPrefixOf path && path != names

/-- Where a path has led so far. -/
inductive Place where
  /-- Below the working directory, or at it. -/
  | within (names : List String)
  /-- At a directory above the working directory. -/
  | above
  /-- Below the root, or at it. -/
  | rooted (names : List String)
  deriving DecidableEq, Repr

/-- The longest name of a file in bytes. -/
def maxNameSize : Nat := 255

/-- The longest path in bytes. -/
def maxPathSize : Nat := 4095

/-- The names that lead from the root to the null device. -/
def nullDevice : List String :=
  ["dev", "null"]

/-- The directories at the root of every system. -/
def rootDirectories : List String :=
  ["bin", "dev", "etc", "home", "lib", "opt", "proc", "run", "sbin", "sys", "tmp", "usr", "var"]

/-- Follows one name of a path. -/
def step (t : FileTree) (place : Place) (name : String) : Except ReadFault Place :=
  let stays := name == "" || name == "."
  let isTooLong := name.utf8ByteSize > maxNameSize
  match place with
  | .above =>
    if stays || name == ".." then .ok .above
    else if isTooLong then .error .nameTooLong
    else .error .missing
  | .rooted names =>
    let inner := names ++ [name]
    if names = nullDevice then .error .notDirectory
    else if stays then .ok place
    else if name == ".." then .ok (.rooted names.dropLast)
    else if isTooLong then .error .nameTooLong
    else if inner = nullDevice || (names.isEmpty && rootDirectories.contains name) then
      .ok (.rooted inner)
    else .error .missing
  | .within names =>
    if (t.content? names).isSome then .error .notDirectory
    else if stays then .ok place
    else if name == ".." then .ok (if names.isEmpty then .above else .within names.dropLast)
    else if isTooLong then .error .nameTooLong
    else
      let inner := names ++ [name]
      if (t.content? inner).isSome || t.isDirectory inner then .ok (.within inner)
      else .error .missing

/-- Follows a path. -/
def resolve (t : FileTree) (path : String) : Except ReadFault Place :=
  if path.isEmpty then .error .missing
  else if path.contains '\x00' then .error .nulInPath
  else if path.utf8ByteSize > maxPathSize then .error .nameTooLong
  else (path.splitOn "/").foldlM t.step (if Files.isAbsolute path then .rooted [] else .within [])

/-- The text of the file at a path. -/
def read (t : FileTree) (path : String) : Except ReadFault String := do
  match ← t.resolve path with
  | .above => throw .isDirectory
  | .rooted names => if names = nullDevice then return "" else throw .isDirectory
  | .within names =>
    match t.content? names with
    | none => throw .isDirectory
    | some bytes =>
      match String.fromUTF8? bytes with
      | some text => return text
      | none => throw .notText

end FileTree

/-! ## Loading sources -/

/-- Parses a text as if it had been read from a path. -/
def loadSource (path source : String) : Except Error SourceFile :=
  (parseFile source).mapError fun e => e.toError.atPath path

/-- Reads and parses the file at a path. -/
def loadFile (files : Files) (path : String) : Except Error SourceFile :=
  match files path with
  | .ok source => loadSource path source
  | .error fault => .error { kind := .source path (.unreadable fault) }

end HandlerSplit

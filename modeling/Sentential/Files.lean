import Sentential.Text.Quoted

/-! A store of files: directories and texts under relative paths. Paths are divided at slashes;
empty parts and single dots stand for nothing, and double dots for the directory above. -/

namespace Sentential

/-- What a path may lead to. -/
inductive Entry where
  | directory
  | text (content : String)
deriving DecidableEq, Repr

/-- The entries below the top directory, by the parts of their paths. -/
structure Files where
  entries : List (List String × Entry) := []
deriving DecidableEq, Repr

/-- Why a file cannot be written. -/
inductive FileError where
  | missing (path : String)
  | notDirectory (path : String)
  | isDirectory (path : String)
deriving DecidableEq, Repr

/-- What the user is told. -/
def FileError.message : FileError → String
  | missing path => s!"[Errno 2] No such file or directory: {Text.quoted path}"
  | notDirectory path => s!"[Errno 20] Not a directory: {Text.quoted path}"
  | isDirectory path => s!"[Errno 21] Is a directory: {Text.quoted path}"

namespace Files

/-- The pieces of a path between its slashes. -/
def pieces (path : String) : List String :=
  (path.toList.splitOn '/').map String.ofList

/-- Whether a piece of a path stands for a name. -/
def isName (piece : String) : Bool :=
  piece ≠ "" && piece ≠ "." && piece ≠ ".."

/-- The entry with the given parts; no parts are the top directory. -/
def entry? (files : Files) (parts : List String) : Option Entry :=
  if parts.isEmpty then some .directory else files.entries.lookup parts

/-- Where a path leads from the directory with the given parts. -/
def resolve (files : Files) (path : String) (parts : List String) :
    List String → Except FileError (List String)
  | [] => .ok parts
  | piece :: rest =>
    match files.entry? parts with
    | none => .error (.missing path)
    | some (.text _) => .error (.notDirectory path)
    | some .directory =>
      if piece = "" || piece = "." then files.resolve path parts rest
      else if piece = ".." then files.resolve path parts.dropLast rest
      else files.resolve path (parts ++ [piece]) rest

/-- The entry that a path leads to. -/
def find? (files : Files) (path : String) : Option Entry :=
  if path.isEmpty then none
  else match files.resolve path [] (pieces path) with
    | .error _ => none
    | .ok parts => files.entry? parts

/-- The text of the file at a path. -/
def read? (files : Files) (path : String) : Option String :=
  match files.find? path with
  | some (.text content) => some content
  | _ => none

/-- The files with an entry set. -/
def insert (files : Files) (parts : List String) (entry : Entry) : Files :=
  { entries := (parts, entry) :: files.entries.filter fun e => e.1 ≠ parts }

/-- The pieces of a path without empty ones at its end. -/
def trimmedPieces (path : String) : List String :=
  ((pieces path).reverse.dropWhile (· = "")).reverse

/-- Writes a text to a path. The directories on the way have to be there, and a slash at the end of
the path asks for a directory. -/
def write (files : Files) (path content : String) : Except FileError Files :=
  if path.isEmpty then .error (.missing path)
  else
    let all := trimmedPieces path
    match files.resolve path [] all.dropLast with
    | .error cause => .error cause
    | .ok parent =>
      match files.entry? parent with
      | none => .error (.missing path)
      | some (.text _) => .error (.notDirectory path)
      | some .directory =>
        let last := all.getLastD ""
        if !isName last || all.length < (pieces path).length then .error (.isDirectory path)
        else match files.entry? (parent ++ [last]) with
          | some .directory => .error (.isDirectory path)
          | _ => .ok (files.insert (parent ++ [last]) (.text content))

/-- Makes a directory. -/
def makeDirectory (files : Files) (path : String) : Except FileError Files :=
  let all := pieces path
  match files.resolve path [] all.dropLast with
  | .error cause => .error cause
  | .ok parent =>
    match files.entry? parent with
    | none => .error (.missing path)
    | some (.text _) => .error (.notDirectory path)
    | some .directory => .ok (files.insert (parent ++ [all.getLastD ""]) .directory)

/-- The beginnings of a path that end before a run of slashes, and the path itself, from the
shortest; `seen` is what stands before `rest`. -/
def beginnings (seen : List Char) : List Char → List (List Char)
  | [] => if seen.isEmpty then [] else [seen]
  | '/' :: rest =>
    if seen.isEmpty || seen.getLast? = some '/' then beginnings (seen ++ ['/']) rest
    else seen :: beginnings (seen ++ ['/']) rest
  | c :: rest => beginnings (seen ++ [c]) rest

/-- Makes those directories among the beginnings of a path that are not there. -/
def makeAll (files : Files) : List String → Files × Except FileError Unit
  | [] => (files, .ok ())
  | path :: rest =>
    if (files.find? path).isSome || !isName ((pieces path).getLastD "") then files.makeAll rest
    else match files.makeDirectory path with
      | .error cause => (files, .error cause)
      | .ok files => files.makeAll rest

/-- The path of the directory that a path leads into, without slashes at its end. -/
def directoryOf (path : String) : String :=
  let upToSlash := path.toList.reverse.dropWhile (· ≠ '/')
  String.ofList (upToSlash.dropWhile (· = '/')).reverse

/-- Makes the directories that are missing on the way to a path. -/
def ensureDirectory (files : Files) (path : String) : Files × Except FileError Unit :=
  let directory := directoryOf path
  if directory.isEmpty || (files.find? directory).isSome then (files, .ok ())
  else files.makeAll ((beginnings [] directory.toList).map String.ofList)

end Files

end Sentential

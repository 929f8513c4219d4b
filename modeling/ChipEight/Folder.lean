import ChipEight.Failure
import ChipEight.Text.Pieces
import ChipEight.Text.Utf8

/-!
# Folders

The files that the library reads and writes stand in one folder without subfolders. A path names a
file of it, perhaps through `.` and doubled slashes; every other path leads to an error of its own.

## Termination

A path is walked component by component.
-/

namespace ChipEight

open Text

/-- Files by name, each name once. -/
structure Folder where
  files : List (String × List UInt8) := []
  deriving DecidableEq, Repr, Inhabited

namespace Folder

/-! ## Paths -/

/-- Where a path leads. -/
inductive Place
  /-- To a folder. -/
  | folder
  /-- To the file with a name, which may not exist yet. -/
  | file (name : String)
  /-- To something that could only be a folder; a reader finds none, for the cause given. -/
  | noFolder (cause : IoError)
  deriving DecidableEq, Repr

/-- The most bytes that a name has. -/
def maxName : Nat := 255

/-- The most bytes that a path has. -/
def maxPath : Nat := 4095

/-- Whether a component of a path stays where it is. -/
def stays (component : List Char) : Bool := component.isEmpty || component == ['.']

/-- Why no path leads on from a name, inside the folder or outside, where nothing is found. -/
def barrier (f : Folder) (inside : Bool) (name : String) : IoError :=
  if maxName < name.utf8ByteSize then .nameTooLong
  else if inside && (f.files.lookup name).isSome then .notDirectory
  else .notFound

/-- Where the components of a path lead from inside the folder, or from outside. A slash at the end
asks for a folder, and it is left to the reader or writer to say what comes of that. -/
def walk (f : Folder) (inside : Bool) : List (List Char) → Except IoError Place
  | [] => .ok .folder
  | component :: rest =>
    let name := String.ofList component
    if stays component then walk f inside rest
    else if component = ['.', '.'] then walk f false rest
    else if rest.isEmpty then
      -- A file of the name need not exist yet, so none stands in the way.
      if inside && name.utf8ByteSize ≤ maxName then .ok (.file name)
      else .error (f.barrier false name)
    else if rest.all List.isEmpty then .ok (.noFolder (f.barrier inside name))
    else .error (f.barrier inside name)

/-- Where a path leads. -/
def locate (f : Folder) (path : String) : Except IoError Place :=
  let s := path.toList
  if s.contains '\x00' then .error .nulInName
  else if s.isEmpty then .error .notFound
  else if maxPath < path.utf8ByteSize then .error .nameTooLong
  else walk f (s.head? != some '/') (pieces '/' s)

/-! ## Reading and writing -/

/-- The bytes of the file at a path. -/
def read (f : Folder) (path : String) : Except IoError (List UInt8) := do
  match ← f.locate path with
  | .folder => throw .isDirectory
  | .noFolder cause => throw cause
  | .file name =>
    match f.files.lookup name with
    | some bytes => return bytes
    | none => throw .notFound

/-- The characters of the file at a path. -/
def readText (f : Folder) (path : String) : Except IoError (List Char) := do
  match ofUtf8? (← f.read path) with
  | some text => return text
  | none => throw .notUtf8

/-- The folder with a file of the given name and bytes, in the place of any file of that name. -/
def put (f : Folder) (name : String) (bytes : List UInt8) : Folder :=
  { files := (name, bytes) :: f.files.filter fun entry => entry.1 != name }

/-- Writes a file at a path. -/
def write (f : Folder) (path : String) (bytes : List UInt8) : Except IoError Folder := do
  match ← f.locate path with
  | .folder | .noFolder _ => throw .isDirectory
  | .file name => return f.put name bytes

/-- A file just written is read back. -/
theorem lookup_put (f : Folder) (name : String) (bytes : List UInt8) :
    (f.put name bytes).files.lookup name = some bytes := by
  simp [put]

end Folder

/-- The bytes of a file, with a failure of the library as error. -/
def Folder.readFile (f : Folder) (path : String) : Except Failure (List UInt8) :=
  (f.read path).mapError .io

/-- The characters of a file, with a failure of the library as error. -/
def Folder.readSource (f : Folder) (path : String) : Except Failure (List Char) :=
  (f.readText path).mapError .io

end ChipEight

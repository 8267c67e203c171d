import WireCodec.Fault
import WireCodec.Path
/-! # Files

`Files` lists the operations on files that a run needs.  Everything that decides what is read and
written is stated over it, so that it can run on the files of a system and on a tree of files held as
a value. -/

namespace WireCodec

inductive FileKind
  | file
  | directory
  deriving DecidableEq, Repr

/-- Operations on files and directories, each of which leaves everything as it was when it is denied. -/
class Files (m : Type → Type) where
  /-- What stands at a path, if anything can be reached there. -/
  kind? : String → m (Option FileKind)
  read : String → m (Except Denial ByteArray)
  /-- Writes a file, in place of the one that stands there. -/
  write : String → String → m (Except Denial Unit)
  /-- Makes a directory in one that is there. -/
  makeDirectory : String → m (Except Denial Unit)
  /-- The paths of the files below a directory: those of a directory in the order of their names, and
  what lies below a directory in its place.  A directory that is linked to is not entered, as in a walk
  of `walkdir` that follows no links. -/
  filesBelow : String → m (List String)

namespace Files

variable {m : Type → Type} [Monad m] [Files m]

/-- Reads a file as text. -/
def readText (path : String) : m (Except Denial String) := do
  match ← Files.read path with
  | .error reason => return .error reason
  | .ok bytes =>
    match String.fromUTF8? bytes with
    | some text => return .ok text
    | none => return .error .notText

/-- Takes a denial back where a directory is there in any case. -/
def unlessThere (path : String) (reason : Denial) : m (Except Denial Unit) := do
  if (← Files.kind? path) = some .directory then return .ok () else return .error reason

/-- Makes the first of some directories, where one that is missing is made after the ones behind it. -/
def makeFirst : List String → m (Except Denial Unit)
  | [] => return .ok ()
  | path :: above => do
    match ← Files.makeDirectory path with
    | .ok _ => return .ok ()
    | .error .missing =>
      match ← makeFirst above with
      | .error reason => return .error reason
      | .ok _ =>
        match ← Files.makeDirectory path with
        | .ok _ => return .ok ()
        | .error reason => unlessThere path reason
    | .error reason => unlessThere path reason

/-- Makes a directory and the ones above it that are missing. -/
def makeDirectories (path : String) : m (Except Denial Unit) :=
  if path = "" then pure (.ok ()) else makeFirst (path :: Path.above path)

end Files
end WireCodec

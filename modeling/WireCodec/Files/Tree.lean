import WireCodec.Files.Basic
/-! # Trees of files

A tree of files as a value: what stands at each place, and the directory that paths start from.
`FileTree.locate` follows a path through the tree, and the operations of `Files` on a state that
holds a tree are denied for the reasons that a system gives.  A tree holds files and directories and
no links, so that everything in it lies at one place.  `FileTree.filesBelow` lists files in the order
that `walkdir` documents for a walk sorted by file names. -/

namespace WireCodec

/-- The components on the way from the top to a file or directory. -/
abbrev Place := List String

inductive Entry
  | file (bytes : ByteArray)
  | directory

def Entry.kind : Entry → FileKind
  | file _ => .file
  | directory => .directory

structure FileTree where
  /-- Everything but the top, which is a directory. -/
  entries : List (Place × Entry) := []
  /-- The directory that paths start from. -/
  here : Place := []

namespace FileTree

/-! ### Places -/

/-- What stands at a place. -/
def at? (t : FileTree) (p : Place) : Option Entry :=
  if p = [] then some .directory else t.entries.lookup p

def isDirectory (t : FileTree) (p : Place) : Bool := (t.at? p).map Entry.kind == some .directory

/-- Sets what stands at a place. -/
def put (t : FileTree) (p : Place) (e : Entry) : FileTree :=
  if (t.entries.lookup p).isSome then
    { t with entries := t.entries.map fun (q, old) => if q = p then (q, e) else (q, old) }
  else { t with entries := t.entries ++ [(p, e)] }

/-! ### Following a path -/

/-- The number of bytes of the longest name. -/
def longestName : Nat := 255

/-- The number of bytes of the longest path. -/
def longestPath : Nat := 4095

/-- The place that the pieces of a path lead to from a place. -/
def walk (t : FileTree) (p : Place) : List String → Except Denial Place
  | [] => .ok p
  | piece :: rest =>
    if !t.isDirectory p then .error .notDirectory
    else if piece = "" ∨ piece = "." then walk t p rest
    else if piece = ".." then walk t p.dropLast rest
    else if longestName < piece.utf8ByteSize then .error .nameTooLong
    else if (t.at? (p ++ [piece])).isNone then .error .missing
    else walk t (p ++ [piece]) rest

/-- Is the text fit to be a path? -/
def checkPath (path : String) : Except Denial Unit :=
  if path.toList.contains '\x00' then .error .zeroInPath
  else if path = "" then .error .missing
  else if longestPath < path.utf8ByteSize then .error .nameTooLong
  else .ok ()

/-- Where a path starts. -/
def origin (t : FileTree) (path : String) : Place := if Path.isAbsolute path then [] else t.here

/-- The place of what stands at a path. -/
def locate (t : FileTree) (path : String) : Except Denial Place := do
  checkPath path
  t.walk (t.origin path) (Path.pieces path)

/-- The directory in which the path's last component is to stand, and that component; there is none
where the path leads to a directory by way of `.` or `..` or to the top. -/
def slot (t : FileTree) (path : String) : Except Denial (Place × Option String) := do
  checkPath path
  let named := (Path.pieces path).filter (· ≠ "")
  let directory ← t.walk (t.origin path) named.dropLast
  match named.getLast? with
  | none => return (directory, none)
  | some last =>
    if !t.isDirectory directory then throw .notDirectory
    else if last = "." ∨ last = ".." then return (directory, none)
    else if longestName < last.utf8ByteSize then throw .nameTooLong
    else return (directory, some last)

/-! ### Operations -/

/-- What stands at a path. -/
def reach (t : FileTree) (path : String) : Except Denial Entry := do
  match t.at? (← t.locate path) with
  | some e => return e
  | none => throw .missing

def kind? (t : FileTree) (path : String) : Option FileKind := (t.reach path).toOption.map Entry.kind

def read (t : FileTree) (path : String) : Except Denial ByteArray := do
  match ← t.reach path with
  | .file bytes => return bytes
  | .directory => throw .isDirectory

def write (t : FileTree) (path text : String) : Except Denial FileTree := do
  let (directory, last) ← t.slot path
  match last with
  | none => throw .isDirectory
  | some last =>
    if path.toList.getLast? = some '/' ∨ t.isDirectory (directory ++ [last]) then
      throw .isDirectory
    else return t.put (directory ++ [last]) (.file text.toUTF8)

def makeDirectory (t : FileTree) (path : String) : Except Denial FileTree := do
  let (directory, last) ← t.slot path
  match last with
  | none => throw .occupied
  | some last =>
    if (t.at? (directory ++ [last])).isSome then throw .occupied
    else return t.put (directory ++ [last]) .directory

/-- The order in which places are visited. -/
def placeLE : Place → Place → Bool
  | [], _ => true
  | _ :: _, [] => false
  | a :: as, b :: bs => if a = b then placeLE as bs else a < b

/-- The places of what lies below a place, as they lie there, in the order of a visit. -/
def below (t : FileTree) (p : Place) : List (Place × Entry) :=
  let inside := t.entries.filter fun (q, _) => p.isPrefixOf q && q.length ≠ p.length
  (inside.map fun (q, e) => (q.drop p.length, e)).mergeSort fun x y => placeLE x.1 y.1

/-- The paths of the files below a directory. -/
def filesBelow (t : FileTree) (path : String) : List String :=
  match t.locate path with
  | .error _ => []
  | .ok p =>
    let files := (t.below p).filter fun (_, e) => e.kind = .file
    files.map fun (q, _) => q.foldl Path.join path

end FileTree

/-- Runs an operation on the tree of a state, which stays as it is when the operation is denied. -/
def FileTree.change (operation : FileTree → Except Denial FileTree) :
    StateM FileTree (Except Denial Unit) := fun t =>
  match operation t with
  | .ok t => (.ok (), t)
  | .error reason => (.error reason, t)

instance : Files (StateM FileTree) where
  kind? path := fun t => (t.kind? path, t)
  read path := fun t => (t.read path, t)
  write path text := FileTree.change fun t => t.write path text
  makeDirectory path := FileTree.change fun t => t.makeDirectory path
  filesBelow path := fun t => (t.filesBelow path, t)

end WireCodec

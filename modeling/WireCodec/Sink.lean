import WireCodec.Codec.Units
import WireCodec.Files.Basic
/-! # Sinks

A sink receives printed units, one after another: it forgets them, counts them, keeps them, or writes
each to a file of a directory.  A unit that is refused leaves the sink as it was, and the units after
it are not tried. -/

namespace WireCodec

/-- Something that receives units. -/
class Sink (m : Type → Type) (σ : Type) where
  write : SourceUnit → σ → m (Except Fault σ)

namespace Sink

variable {m : Type → Type} [Monad m] {σ : Type} [Sink m σ]

/-- Writes units up to the first that is refused. -/
def writeAll : List SourceUnit → σ → m (σ × Except Fault Unit)
  | [], s => return (s, .ok ())
  | u :: us, s => do
    match ← Sink.write u s with
    | .ok s => writeAll us s
    | .error f => return (s, .error f)

end Sink

/-- Writes all units of a schema, unless one of them has no code. -/
def Generator.generate {m : Type → Type} [Monad m] {σ : Type} [Sink m σ] (g : Generator)
    (c : Configuration) (s : σ) : m (σ × Except Fault Unit) :=
  match g.units c with
  | .error f => return (s, .error f)
  | .ok units => Sink.writeAll units s

/-! ### Forgetting -/

/-- The sink that forgets every unit. -/
structure Discard where
  deriving DecidableEq, Repr

instance {m : Type → Type} [Monad m] : Sink m Discard := ⟨fun _ s => return .ok s⟩

/-! ### Counting -/

/-- How many units of each kind were received, and how many bytes their sources have. -/
structure Tally where
  root : Nat := 0
  enumeration : Nat := 0
  bitSet : Nat := 0
  composite : Nat := 0
  message : Nat := 0
  bytes : Nat := 0
  deriving DecidableEq, Repr

namespace Tally

/-- Counts one unit of a kind. -/
def count (t : Tally) : UnitKind → Tally
  | .root => { t with root := t.root + 1 }
  | .enumeration => { t with enumeration := t.enumeration + 1 }
  | .bitSet => { t with bitSet := t.bitSet + 1 }
  | .composite => { t with composite := t.composite + 1 }
  | .message => { t with message := t.message + 1 }

def add (t : Tally) (u : SourceUnit) : Tally :=
  { t.count u.kind with bytes := t.bytes + u.source.utf8ByteSize }

end Tally

instance {m : Type → Type} [Monad m] : Sink m Tally := ⟨fun u t => return .ok (t.add u)⟩

/-! ### Keeping -/

/-- The latest source of each module, in the order of the modules' names. -/
structure Shelf where
  sources : List (String × String) := []
  deriving DecidableEq, Repr

namespace Shelf

/-- Puts a source in its place among sources in the order of their names. -/
def insert (module source : String) : List (String × String) → List (String × String)
  | [] => [(module, source)]
  | (name, old) :: rest =>
    if module < name then (module, source) :: (name, old) :: rest
    else if module = name then (module, source) :: rest
    else (name, old) :: insert module source rest

def add (s : Shelf) (u : SourceUnit) : Shelf := ⟨insert u.module u.source s.sources⟩

/-- The source of a module. -/
def get? (s : Shelf) (module : String) : Option String := s.sources.lookup module

def modules (s : Shelf) : List String := s.sources.map (·.1)

end Shelf

instance {m : Type → Type} [Monad m] : Sink m Shelf := ⟨fun u s => return .ok (s.add u)⟩

/-! ### Writing to a directory -/

/-- A directory that receives a file for each unit, and is made for the first. -/
structure OutputDirectory where
  path : String
  /-- May files be replaced? -/
  force : Bool := false
  /-- The paths written so far. -/
  written : List String := []
  deriving DecidableEq, Repr

namespace OutputDirectory

variable {m : Type → Type} [Monad m] [Files m]

/-- Where the file of a unit stands. -/
def pathOf (d : OutputDirectory) (u : SourceUnit) : String := Path.join d.path u.fileName

/-- Makes the directory unless it is there. -/
def prepare (d : OutputDirectory) : m (Except Fault Unit) := do
  if (← Files.kind? d.path).isSome then return .ok ()
  else return (← Files.makeDirectories d.path).mapError (.directoryCreate d.path)

/-- Writes the file of a unit into the directory, which is there. -/
def place (d : OutputDirectory) (u : SourceUnit) : m (Except Fault OutputDirectory) := do
  let taken ← Files.kind? (d.pathOf u)
  if taken.isSome && !d.force then return .error (.fileExists (d.pathOf u))
  else
    match ← Files.write (d.pathOf u) u.source with
    | .error reason => return .error (.fileWrite (d.pathOf u) reason)
    | .ok _ => return .ok { d with written := d.written ++ [d.pathOf u] }

/-- Writes a unit whose module has a plain name. -/
def write (u : SourceUnit) (d : OutputDirectory) : m (Except Fault OutputDirectory) := do
  if !Name.isModule u.module then return .error (.pathTraversal u.module)
  else
    match ← d.prepare with
    | .error f => return .error f
    | .ok _ => d.place u

end OutputDirectory

instance {m : Type → Type} [Monad m] [Files m] : Sink m OutputDirectory := ⟨OutputDirectory.write⟩

end WireCodec

import WireCodec.Command.Placement
import WireCodec.Command.Report
import WireCodec.Schema.Document
import WireCodec.Sink
/-! # Runs

`Command.run` carries out a request: it reads schemas, makes their code, and lists it, shows it, or
writes it below the output directory.  A document that fails stops a run that reads it alone; in a run
over a directory it is reported and the next one is read. -/

namespace WireCodec

/-- Reads a schema from a file. -/
def Schema.ofFile {m : Type → Type} [Monad m] [Files m] (path : String) :
    m (Except Fault Schema) := do
  match ← Files.readText path with
  | .error reason => return .error (.fileRead path reason)
  | .ok text => return Schema.ofText text

namespace Command

/-! ### One schema -/

/-- What has been placed and told so far. -/
structure Progress where
  tenancy : Tenancy := {}
  lines : List Line := []
  deriving DecidableEq, Repr

namespace Progress

/-- Tells some lines. -/
def tell (p : Progress) (lines : List Line) : Progress := { p with lines := p.lines ++ lines }

/-- Tells that a file was written, and counts it. -/
def wrote (p : Progress) (path : String) : Progress :=
  { (p.tell [.plain ("Wrote " ++ path)]) with
    tenancy.accounts.written := p.tenancy.accounts.written + 1 }

end Progress

/-- The code of the schema in a document. -/
def unitsOf (o : Options) (path : String) (s : Schema) : Except Trouble (List SourceUnit) :=
  ((do (← Generator.ofSchema s).units o.configuration) : Except Fault (List SourceUnit)).mapError
    (Trouble.ofFault ("Failed to generate codecs for " ++ path))

/-- The lines that list units. -/
def listing (name : String) (units : List SourceUnit) : List Line :=
  units.map fun u => .plain (name ++ "/" ++ u.fileName)

/-- The lines that say what would be written. -/
def preview (o : Options) (directory : String) (units : List SourceUnit) : List Line :=
  units.flatMap fun u =>
    let heading := Line.plain ("Would write: " ++ Path.join directory u.fileName)
    if o.verbosity = 0 then [heading] else [heading, .plain "---", .plain u.source, .plain "---"]

section

variable {m : Type → Type} [Monad m] [Files m]

/-- Writes units one after another, up to the first that is refused. -/
def writeUnits (p : Progress) (d : OutputDirectory) : List SourceUnit →
    m (Progress × Option Trouble)
  | [] => return (p, none)
  | u :: us => do
    match ← d.write u with
    | .ok d => writeUnits (p.wrote (d.pathOf u)) d us
    | .error f =>
      let line := Line.failure s!"Failed to write {d.pathOf u}: {f.message}"
      return (p.tell [line], some (.ofFault "Use --force to overwrite existing files" f))

/-- Finds a place for units and shows or writes them there. -/
def emit (o : Options) (p : Progress) (name : String) (units : List SourceUnit) :
    m (Progress × Option Trouble) :=
  let (tenancy, placement) :=
    p.tenancy.register o.strategy o.output name (SourceUnit.digest units)
  let p := { p with tenancy }
  match placement with
  | .skipped => return (p, none)
  | .placed directory => proceed p directory
  | .renamed renamed directory =>
    let line := Line.information s!"Conflict resolved: {name} -> {renamed} (content differs)"
    proceed (p.tell [line]) directory
where
  /-- Shows or writes the units in their directory. -/
  proceed (p : Progress) (directory : String) : m (Progress × Option Trouble) :=
    if o.dryRun then return (p.tell (preview o directory units), none)
    else writeUnits p { path := directory, force := o.force } units

/-- Does what is asked for with the schema of a document. -/
def processDocument (o : Options) (p : Progress) (path : String) :
    m (Progress × Option Trouble) := do
  match ← Schema.ofFile path with
  | .error f => return (p, some (.ofFault ("Failed to load IR: " ++ path) f))
  | .ok s =>
    match unitsOf o path s with
    | .error t => return (p, some t)
    | .ok units =>
      if o.listOnly then return (p.tell (listing s.qualifiedName units), none)
      else emit o p s.qualifiedName units

/-! ### Many schemas -/

/-- Processes documents one after another, and counts those that fail. -/
def processAll (o : Options) (p : Progress) (failed : Nat) : List String → m (Progress × Nat)
  | [] => return (p, failed)
  | path :: paths => do
    match ← processDocument o p path with
    | (p, none) => processAll o p failed paths
    | (p, some t) =>
      processAll o (p.tell [.warning s!"Error processing {path}: {t.inline}"]) (failed + 1) paths

/-- The line that sums up what became of the schemas; a run that writes nothing has none. -/
def summary (o : Options) (a : Accounts) : List Line :=
  if o.listOnly || o.dryRun then []
  else [.information <|
    s!"Summary: {a.schemas} schemas, {a.duplicates} duplicates skipped, "
      ++ s!"{a.renamed} conflicts renamed, {a.written} files written"]

/-- Tells the summary. -/
def conclude (o : Options) (p : Progress) : Progress := p.tell (summary o p.tenancy.accounts)

/-- A run that is stopped before it begins. -/
def refuse (summary : String) : List Line × Option Trouble := ([], some ⟨summary, []⟩)

/-- Processes one document. -/
def runDocument (o : Options) (path : String) : m (List Line × Option Trouble) := do
  match ← Files.kind? path with
  | none => return refuse ("Input file does not exist: " ++ path)
  | some .directory => return refuse ("Input path is not a file: " ++ path)
  | some .file =>
    match ← processDocument o {} path with
    | (p, some t) => return (p.lines, some t)
    | (p, none) => return ((conclude o p).lines, none)

/-- Processes the documents below a directory.  They are all listed before the first one is processed.
A listing that goes on in between finds the same ones, since what a run writes is named like code and
no document is. -/
def runDirectory (o : Options) (path : String) : m (List Line × Option Trouble) := do
  match ← Files.kind? path with
  | none => return refuse ("Directory does not exist: " ++ path)
  | some .file => return refuse ("Path is not a directory: " ++ path)
  | some .directory =>
    let documents := (← Files.filesBelow path).filter Path.isDocument
    let start : Progress := { lines := [.information ("Scanning directory: " ++ path)] }
    let (p, failed) ← processAll o start 0 documents
    let p := conclude o (p.tell [.information s!"Processed {documents.length} IR files"])
    let trouble :=
      if failed = 0 then none else some ⟨s!"{failed} of {documents.length} IR files failed", []⟩
    return (p.lines, trouble)

/-! ### Requests -/

/-- The name and version of the command. -/
def versionLine : String := "sbec 0.1.0"

/-- How the command is called. -/
def usageLine : String := "Usage: sbec [OPTIONS] <--ir <IR>|--directory <DIRECTORY>>"

/-- Carries out a request. -/
def perform : Request → m Report
  | .version => return { output := [versionLine] }
  | .help => return { output := [usageLine] }
  | .refused _ => return { code := 2, errors := [usageLine] }
  | .run o => do
    let (lines, trouble) ← match o.origin with
      | .document path => runDocument o path
      | .directory path => runDirectory o path
    return .ofRun o.verbosity lines trouble

/-- Carries out what the arguments ask for. -/
def run (arguments : List String) : m Report := perform (Request.ofArguments arguments)

end
end Command
end WireCodec

import WireCodec.Command.Run
/-! # The command

The files on disk, and the entry point: nothing is decided here. -/

namespace WireCodec.Disk

/-- A path as the system takes it. -/
def entry (path : String) : IO.FS.DirEntry := ⟨path, ""⟩

/-- Why the system refused an operation. -/
def denial : IO.Error → Denial
  | .noFileOrDirectory _ _ _ => .missing
  | .alreadyExists _ code details | .permissionDenied _ code details
  | .resourceExhausted _ code details | .inappropriateType _ code details
  | .invalidArgument _ code details | .noSuchThing _ code details
  | .interrupted _ code details | .otherError code details | .resourceBusy code details
  | .resourceVanished code details | .unsupportedOperation code details
  | .hardwareFault code details | .unsatisfiedConstraints code details
  | .illegalOperation code details | .protocolError code details | .timeExpired code details =>
    .stated s!"{details} (os error {code})"
  | .unexpectedEof => .stated "unexpected end of file"
  | .userError message => .stated message

/-- An operation at a path, which the system may refuse. -/
def attempt {α : Type} (path : String) (operation : IO α) : IO (Except Denial α) := do
  if path.toList.contains '\x00' then return .error .zeroInPath
  match ← operation.toBaseIO with
  | .ok x => return .ok x
  | .error e => return .error (denial e)

/-- What stands at a path. -/
def kind? (path : String) : IO (Option FileKind) := do
  match ← (entry path).root.metadata.toBaseIO with
  | .ok data => return some (if data.type == .dir then .directory else .file)
  | .error _ => return none

/-- Is the path a link? -/
def isLink (path : String) : IO Bool := do
  match ← (entry path).root.symlinkMetadata.toBaseIO with
  | .ok data => return data.type == .symlink
  | .error _ => return false

/-- The files below a directory. -/
partial def filesBelow (path : String) : IO (List String) := do
  match ← (entry path).root.readDir.toBaseIO with
  | .error _ => return []
  | .ok entries =>
    let names := (entries.toList.map (·.fileName)).mergeSort fun a b => a ≤ b
    let parts ← names.mapM fun name => do
      let path := Path.join path name
      match ← kind? path with
      | some .directory => if ← isLink path then return [] else filesBelow path
      | some .file => return [path]
      | none => return []
    return parts.flatten

instance : Files IO where
  kind? := kind?
  read path := attempt path (IO.FS.readBinFile path)
  write path text := attempt path (IO.FS.writeFile path text)
  makeDirectory path := attempt path (IO.FS.createDir path)
  filesBelow := filesBelow

end WireCodec.Disk

open WireCodec in
/-- Runs the command on its arguments. -/
def main (arguments : List String) : IO UInt32 := do
  let report : Command.Report ← Command.run arguments
  report.output.forM IO.println
  report.errors.forM IO.eprintln
  return UInt32.ofNat report.code

import WireCodec.Codec.Units
/-! # Requests

What is asked for on the command line.  Arguments are read from left to right, and the first one that
settles the matter decides: one that is refused, or one that asks for the version or for help.  The
rules are those that `clap` documents for a command whose options are declared with their names.

* `--name value` and `--name=value` set an option, and so do `-n value`, `-nvalue` and `-n=value`.
* Short options without a value may stand together, and one with a value may stand behind them.
* A value of its own argument does not look like an option; `-` alone does not.
* Everything may be given once, except that each `-v` asks for more messages.
* Behind `--` nothing may follow. -/

namespace WireCodec.Command

/-! ### Options -/

/-- What to do with a schema whose namespace is taken by different code. -/
inductive Strategy
  | hashSuffix
  | skipConflicts
  deriving DecidableEq, Repr

def Strategy.ofWord? : String → Option Strategy
  | "hash-suffix" => some .hashSuffix
  | "skip-conflicts" => some .skipConflicts
  | _ => none

/-- Where schemas come from. -/
inductive Origin
  | document (path : String)
  | directory (path : String)
  deriving DecidableEq, Repr

/-- What a run is to do. -/
structure Options where
  origin : Origin
  output : String := "generated"
  verbosity : Nat := 0
  arrangement : Arrangement := .moduleFiles
  docs : Bool := true
  dryRun : Bool := false
  force : Bool := false
  listOnly : Bool := false
  strategy : Strategy := .hashSuffix
  deriving DecidableEq, Repr

def Options.configuration (o : Options) : Configuration :=
  { style := { docs := o.docs }, arrangement := o.arrangement }

/-- An option that takes a value. -/
inductive Setting
  | document
  | directory
  | output
  | strategy
  deriving DecidableEq, Repr

inductive Flag
  | singleFile
  | noDocs
  | dryRun
  | force
  | listOnly
  deriving DecidableEq, Repr

/-- What an argument may name. -/
inductive Switch
  | setting (s : Setting)
  | flag (f : Flag)
  | verbose
  | version
  | help
  deriving DecidableEq, Repr

def Switch.ofLong? : String → Option Switch
  | "ir" => some (.setting .document)
  | "directory" => some (.setting .directory)
  | "output" => some (.setting .output)
  | "conflict-strategy" => some (.setting .strategy)
  | "single-file" => some (.flag .singleFile)
  | "no-docs" => some (.flag .noDocs)
  | "dry-run" => some (.flag .dryRun)
  | "force" => some (.flag .force)
  | "list-only" => some (.flag .listOnly)
  | "verbose" => some .verbose
  | "version" => some .version
  | "help" => some .help
  | _ => none

def Switch.ofShort? : Char → Option Switch
  | 'i' => some (.setting .document)
  | 'd' => some (.setting .directory)
  | 'o' => some (.setting .output)
  | 'v' => some .verbose
  | 'V' => some .version
  | 'h' => some .help
  | _ => none

/-! ### Reading arguments -/

/-- Why arguments are refused. -/
inductive Misuse
  | unexpected (argument : String)
  | repeated (name : String)
  | missingValue (setting : Setting)
  | needlessValue (argument : String)
  | badValue (setting : Setting) (value : String)
  | ambiguousOrigin
  | missingOrigin
  deriving DecidableEq, Repr

/-- Why reading ends before the last argument. -/
inductive Interruption
  | misuse (m : Misuse)
  | version
  | help
  deriving DecidableEq, Repr

/-- The options read so far. -/
structure Draft where
  values : List (Setting × String) := []
  flags : List Flag := []
  verbosity : Nat := 0
  deriving DecidableEq, Repr

namespace Draft

/-- May the setting have this value? -/
def isAllowed (s : Setting) (value : String) : Bool :=
  value != "" && (s != .strategy || (Strategy.ofWord? value).isSome)

def set (d : Draft) (s : Setting) (value : String) : Except Interruption Draft :=
  if !isAllowed s value then .error (.misuse (.badValue s value))
  else if (d.values.lookup s).isSome then .error (.misuse (.repeated value))
  else .ok { d with values := d.values ++ [(s, value)] }

/-- Follows an option that takes no value. -/
def follow (d : Draft) (argument : String) : Switch → Except Interruption Draft
  | .setting s => .error (.misuse (.missingValue s))
  | .flag f =>
    if d.flags.contains f then .error (.misuse (.repeated argument))
    else .ok { d with flags := d.flags ++ [f] }
  | .verbose => .ok { d with verbosity := d.verbosity + 1 }
  | .version => .error .version
  | .help => .error .help

/-- Reads short options that stand together; the last one may wait for its value. -/
def short (d : Draft) (argument : String) : List Char → Except Interruption (Draft × Option Setting)
  | [] => .ok (d, none)
  | c :: cs =>
    match Switch.ofShort? c, cs with
    | none, _ => .error (.misuse (.unexpected argument))
    | some (.setting s), [] => .ok (d, some s)
    | some (.setting s), '=' :: value => (d.set s (String.ofList value)).map (·, none)
    | some (.setting s), value => (d.set s (String.ofList value)).map (·, none)
    | some switch, _ =>
      match d.follow argument switch with
      | .error e => .error e
      | .ok d => short d argument cs

/-- Reads a long option without its dashes. -/
def long (d : Draft) (argument : String) (cs : List Char) :
    Except Interruption (Draft × Option Setting) :=
  let name := String.ofList (cs.takeWhile (· ≠ '='))
  match Switch.ofLong? name, cs.dropWhile (· ≠ '=') with
  | none, _ => .error (.misuse (.unexpected argument))
  | some (.setting s), [] => .ok (d, some s)
  | some (.setting s), _ :: value => (d.set s (String.ofList value)).map (·, none)
  | some switch, [] => (d.follow argument switch).map (·, none)
  | some _, _ :: _ => .error (.misuse (.needlessValue argument))

/-- Reads an argument that is no value. -/
def argument (d : Draft) (text : String) : Except Interruption (Draft × Option Setting) :=
  match text.toList with
  | '-' :: '-' :: cs => d.long text cs
  | '-' :: c :: cs => d.short text (c :: cs)
  | _ => .error (.misuse (.unexpected text))

/-- Does the argument look like an option? -/
def isOption (text : String) : Bool := text.toList.head? == some '-' && text != "-"

/-- Reads arguments, where a setting may wait for its value. -/
def read (d : Draft) : Option Setting → List String → Except Interruption Draft
  | none, [] => .ok d
  | some s, [] => .error (.misuse (.missingValue s))
  | some s, text :: rest =>
    if isOption text then .error (.misuse (.missingValue s))
    else match d.set s text with
      | .error e => .error e
      | .ok d => read d none rest
  | none, text :: rest =>
    if text = "--" then
      match rest with
      | [] => .ok d
      | next :: _ => .error (.misuse (.unexpected next))
    else match d.argument text with
      | .error e => .error e
      | .ok (d, waiting) => read d waiting rest

/-- The options of a draft, which must say where schemas come from. -/
def options (d : Draft) : Except Misuse Options :=
  let build (origin : Origin) : Options :=
    { origin
      output := (d.values.lookup .output).getD "generated"
      verbosity := d.verbosity
      arrangement := if d.flags.contains .singleFile then .singleFile else .moduleFiles
      docs := !d.flags.contains .noDocs
      dryRun := d.flags.contains .dryRun
      force := d.flags.contains .force
      listOnly := d.flags.contains .listOnly
      strategy := ((d.values.lookup .strategy).bind Strategy.ofWord?).getD .hashSuffix }
  match d.values.lookup .document, d.values.lookup .directory with
  | some path, none => .ok (build (.document path))
  | none, some path => .ok (build (.directory path))
  | some _, some _ => .error .ambiguousOrigin
  | none, none => .error .missingOrigin

end Draft

/-- What is asked for. -/
inductive Request
  | run (options : Options)
  | version
  | help
  | refused (misuse : Misuse)
  deriving DecidableEq, Repr

/-- Reads the arguments of a command. -/
def Request.ofArguments (arguments : List String) : Request :=
  match Draft.read {} none arguments with
  | .error .version => .version
  | .error .help => .help
  | .error (.misuse m) => .refused m
  | .ok d =>
    match d.options with
    | .ok o => .run o
    | .error m => .refused m

end WireCodec.Command

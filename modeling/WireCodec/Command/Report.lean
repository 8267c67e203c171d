import WireCodec.Command.Request
import WireCodec.Fault
import WireCodec.Text.Blank
import WireCodec.Text.Terminal
/-! # Reports

What a run tells: lines on its output, some of which are shown only when asked for, an exit code, and
the account of what stopped it. -/

namespace WireCodec.Command

/-- A line of output. -/
inductive Line
  | plain (text : String)
  | information (text : String)
  | warning (text : String)
  | failure (text : String)
  deriving DecidableEq, Repr

namespace Line

/-- Is the line shown when a number of `-v` was given? -/
def isShown (verbosity : Nat) : Line → Bool
  | information _ => verbosity ≠ 0
  | _ => true

/-- The line as it is shown.  A message may quote a document, so its terminal commands are spelled
out; a plain line is what was asked for, and stays as it is. -/
def text : Line → String
  | plain s => s
  | information s => "INFO " ++ Terminal.text s
  | warning s => "WARN " ++ Terminal.text s
  | failure s => "ERROR " ++ Terminal.text s

end Line

/-- What stopped a run, and the causes behind it. -/
structure Trouble where
  summary : String
  causes : List String := []
  deriving DecidableEq, Repr

namespace Trouble

/-- What was tried when a fault came up. -/
def ofFault (summary : String) (f : Fault) : Trouble := ⟨summary, f.chain⟩

/-- The summary and its causes in one line. -/
def inline (t : Trouble) : String := ": ".intercalate (t.summary :: t.causes)

/-- A text whose lines are indented, the first one behind a mark of its own. -/
def indented (mark indent text : String) : String :=
  mark ++ ("\n" ++ indent).intercalate ((Text.split '\n' text.toList).map String.ofList)

/-- The causes, numbered if there are several. -/
def listed (causes : List String) : List String :=
  match causes with
  | [cause] => [indented "    " "    " cause]
  | causes => causes.zipIdx.map fun (cause, i) => indented s!"    {i}: " "       " cause

/-- The whole account. -/
def account (t : Trouble) : List String :=
  ("Error: " ++ t.summary) :: (if t.causes = [] then [] else "" :: "Caused by:" :: listed t.causes)

end Trouble

/-- What a run tells. -/
structure Report where
  code : Nat := 0
  output : List String := []
  errors : List String := []
  deriving DecidableEq, Repr

/-- The report of a run that told some lines and may have been stopped. -/
def Report.ofRun (verbosity : Nat) (lines : List Line) (trouble : Option Trouble) : Report :=
  { code := if trouble.isSome then 1 else 0
    output := (lines.filter (Line.isShown verbosity)).map Line.text
    errors := (trouble.map Trouble.account).getD [] }

end WireCodec.Command

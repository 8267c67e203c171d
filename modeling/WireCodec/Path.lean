import WireCodec.Text.Blank
/-! # Paths

A path is a text whose components stand between slashes.  It keeps the form in which it was given:
nothing is simplified, since what `.` and `..` mean is for the files to say. -/

namespace WireCodec.Path

/-- Does the path start from the top of all files? -/
def isAbsolute (path : String) : Bool := path.toList.head? == some '/'

/-- A path taken from a directory; one that starts from the top is left as it is. -/
def join (parent child : String) : String :=
  if isAbsolute child || parent == "" || parent.toList.getLast? == some '/' then
    if isAbsolute child then child else parent ++ child
  else parent ++ "/" ++ child

/-- The texts between the slashes, empty ones included. -/
def pieces (path : String) : List String := (Text.split '/' path.toList).map String.ofList

/-- The components that name something; `.` does only in front. -/
def components (path : String) : List String :=
  let named := (pieces path).filter (· ≠ "")
  match isAbsolute path, named with
  | false, "." :: rest => "." :: rest.filter (· ≠ ".")
  | _, named => named.filter (· ≠ ".")

/-- The path with its last component, and then with each earlier one, left out, until none is left. -/
def above (path : String) : List String :=
  let top := if isAbsolute path then "/" else ""
  let text := fun cs => top ++ "/".intercalate cs
  let cs := components path
  let shorter := (List.range cs.length).reverse.map fun n => text (cs.take n)
  if isAbsolute path then shorter else shorter.dropLast

/-- What follows the last slash. -/
def name (path : String) : String := (pieces path).getLast?.getD ""

/-- Is it the name of a document that may be searched for?  Hidden ones are not. -/
def isDocument (path : String) : Bool :=
  let cs := (name path).toList
  cs.head? != some '.' && (cs.map Char.toLower).reverse.take 5 == "nosj.".toList

end WireCodec.Path

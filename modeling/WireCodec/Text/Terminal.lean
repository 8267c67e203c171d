import WireCodec.Text.Quoted
/-! # Text for a terminal

A terminal obeys some control characters instead of showing them: those that start, end or make up
its control sequences.  `Terminal.text` spells them out, so that a text taken from a document cannot
steer the terminal on which it is shown.  All other characters, the line feed and the tab among them,
stay as they are. -/

namespace WireCodec.Terminal

/-- Does a terminal obey the character?  In ASCII these are bell, backspace, form feed, escape and
delete; past ASCII, the second set of control characters. -/
def isCommand (c : Char) : Bool :=
  ['\x07', '\x08', '\x0c', '\x1b', '\x7f'].contains c || (0x80 ≤ c.toNat && c.toNat ≤ 0x9F)

/-- The spelling of a character: `\xNN` for a command in ASCII, `\u{...}` for one past it. -/
def char (c : Char) : List Char :=
  if isCommand c then
    if c.toNat < 0x80 then Quoted.byte c.toNat.toUInt8
    else ['\\', 'u', '\x7b'] ++ Quoted.hex c.toNat ++ ['\x7d']
  else [c]

/-- A text without commands. -/
def text (s : String) : String := String.ofList (s.toList.flatMap char)

end WireCodec.Terminal

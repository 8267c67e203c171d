import WireCodec.Proofs.Outcome
import WireCodec.Proofs.Tree
/-! # Calls as a tree

Calls are read as a tree by keeping the blocks that are open on a stack: a call that indents puts the line
in front of it on the stack, and one that dedents takes it off.  `Code.ofCalls?` is the tree that some
calls write, if they match. -/

namespace WireCodec

namespace Code

/-! ### Reading -/

/-- How an open block has begun: with a line, or as the second of two blocks. -/
inductive Opening
  | one (pieces : List Piece)
  | other (pieces : List Piece) (first : List Code)

/-- An open block, whether a brace has opened it, and what stands in front of it, last first. -/
structure Frame where
  opening : Opening
  braced : Bool
  front : List Code

/-- What is to come next. -/
inductive Mode
  | any
  /-- The line that closes a block. -/
  | closing (opening : Opening) (braced : Bool) (body : List Code)
  /-- The blank line behind a gate. -/
  | gate (since : Nat) (absent : String)

/-- The code of the innermost open block, last first, and the blocks that are open around it. -/
structure Scan where
  code : List Code := []
  frames : List Frame := []
  mode : Mode := .any

/-- The gate that a block is, if it is one. -/
def gateOf? : List Piece → List Code → Option (Nat × String)
  | [.text a, .hidden since, .text b], [.line [.text c, .text absent, .text d]] =>
    if a = "if " ∧ b = " \x7b" ∧ c = "return " ∧ d = ";" then some (since, absent) else none
  | _, _ => none

/-- The line ends with the brace that opens a block. -/
def OpensBlock (line : String) : Prop := line.toList.getLast? = some '\x7b'

instance (line : String) : Decidable (OpensBlock line) := inferInstanceAs (Decidable (_ = _))

namespace Scan

def push (s : Scan) (c : Code) : Scan := { s with code := c :: s.code }

def add (s : Scan) (code : List Code) : Option Scan :=
  match s.mode with
  | .any => some { s with code := code.reverse ++ s.code }
  | _ => none

def addBlank (s : Scan) : Option Scan :=
  match s.mode with
  | .any => some (s.push .blank)
  | .gate since absent => some ({ s with mode := .any }.push (.gate since absent))
  | _ => none

/-- Behind a block that has been left stands the line that closes it: a brace where a brace has opened
it. -/
def closed (s : Scan) (opening : Opening) (braced : Bool) (body : List Code) (closing : String) :
    Option Scan :=
  match opening with
  | .one opening =>
    if closing = "\x7d" then
      if braced then
        match gateOf? opening body with
        | some (since, absent) => some { s with mode := .gate since absent }
        | none => some ({ s with mode := .any }.push (.block opening body closing))
      else none
    else some ({ s with mode := .any }.push (.block opening body closing))
  | .other pieces first =>
    if closing = "\x7d" ∧ braced then
      some ({ s with mode := .any }.push (.choice pieces first body))
    else none

def write (s : Scan) (pieces : List Piece) : Option Scan :=
  match s.mode with
  | .any => some (s.push (.line pieces))
  | .closing opening braced body => s.closed opening braced body (renderPieces pieces)
  | .gate .. => none

/-- Opens a block behind the last line, which may be what stands between two blocks. -/
def indent (s : Scan) (braced : Bool) : Option Scan :=
  match s.mode, s.code with
  | .any, .line pieces :: front => some ⟨[], ⟨.one pieces, braced, front⟩ :: s.frames, .any⟩
  | .any, .block pieces first closing :: front =>
    if closing = "\x7d else \x7b" then
      some ⟨[], ⟨.other pieces first, braced, front⟩ :: s.frames, .any⟩
    else none
  | _, _ => none

/-- Does the last line end with a brace? -/
def lastOpens (s : Scan) : Bool :=
  match s.code with
  | .line pieces :: _ => OpensBlock (renderPieces pieces)
  | .block _ _ closing :: _ => OpensBlock closing
  | _ => false

/-- Leaves the innermost block. -/
def dedent (s : Scan) : Option Scan :=
  match s.mode, s.frames with
  | .any, f :: frames => some ⟨f.front, frames, .closing f.opening f.braced s.code.reverse⟩
  | _, _ => none

def step (s : Scan) : Call → Option Scan
  | .write pieces => s.write pieces
  | .lines text => s.add (ofText text)
  | .blank => s.addBlank
  | .doc text => s.add [.doc text]
  | .begin heading => (s.write (withText heading " \x7b")).bind (·.indent true)
  | .close => s.dedent.bind (·.write [.text "\x7d"])
  | .indent => s.indent s.lastOpens
  | .dedent => s.dedent

def run (s : Scan) : List Call → Option Scan
  | [] => some s
  | c :: cs => (s.step c).bind (·.run cs)

end Scan

/-- The code that calls write, if they match. -/
def ofCalls? (calls : List Call) : Option (List Code) :=
  match Scan.run {} calls with
  | some ⟨code, [], .any⟩ => some code.reverse
  | _ => none

/-- The code that calls write. -/
def ofCalls (calls : List Call) : List Code := (ofCalls? calls).getD []

/-! ### Steps -/

namespace Scan

variable {code body first : List Code} {frames : List Frame} {calls : List Call}

-- The equations are proved by terms in brackets, so that `simp` rewrites with them and does not take
-- them for definitional: the kernel would compare the texts of whole codecs otherwise.
@[simp] theorem run_nil (s : Scan) : s.run [] = some s := (rfl)

/-- Reads calls behind others. -/
def andThen (s : Option Scan) (calls : List Call) : Option Scan := s.bind (·.run calls)

@[simp] theorem run_append (s : Scan) (xs ys : List Call) :
    s.run (xs ++ ys) = andThen (s.run xs) ys := by
  induction xs generalizing s with
  | nil => rfl
  | cons c xs ih =>
      rw [List.cons_append, run, run, andThen, Option.bind_assoc]
      exact congrArg _ (funext ih)

@[simp] theorem andThen_some (s : Scan) : andThen (some s) calls = s.run calls := (rfl)

@[simp] theorem run_write (pieces : List Piece) :
    run ⟨code, frames, .any⟩ (.write pieces :: calls)
      = run ⟨.line pieces :: code, frames, .any⟩ calls := (rfl)

@[simp] theorem run_line (s : String) :
    run ⟨code, frames, .any⟩ (Call.line s :: calls)
      = run ⟨.line [.text s] :: code, frames, .any⟩ calls := (rfl)

@[simp] theorem run_lines (s : String) :
    run ⟨code, frames, .any⟩ (.lines s :: calls)
      = run ⟨(ofText s).reverse ++ code, frames, .any⟩ calls := (rfl)

@[simp] theorem run_blank :
    run ⟨code, frames, .any⟩ (.blank :: calls) = run ⟨blank :: code, frames, .any⟩ calls := (rfl)

@[simp] theorem run_doc (s : String) :
    run ⟨code, frames, .any⟩ (.doc s :: calls) = run ⟨doc s :: code, frames, .any⟩ calls := (rfl)

@[simp] theorem run_begin (heading : List Piece) :
    run ⟨code, frames, .any⟩ (.begin heading :: calls)
      = run ⟨[], ⟨.one (withText heading " \x7b"), true, code⟩ :: frames, .any⟩ calls := (rfl)

@[simp] theorem run_enter (heading : String) :
    run ⟨code, frames, .any⟩ (Call.enter heading :: calls)
      = run ⟨[], ⟨.one [.text (heading ++ " \x7b")], true, code⟩ :: frames, .any⟩ calls := (rfl)

/-- A brace on a line of its own opens a block. -/
@[simp] theorem run_indent_brace :
    run ⟨.line [.text "\x7b"] :: code, frames, .any⟩ (.indent :: calls)
      = run ⟨[], ⟨.one [.text "\x7b"], true, code⟩ :: frames, .any⟩ calls := (rfl)

/-- So does a line that ends without one. -/
theorem run_indent_line {opening : String} (h : ¬ OpensBlock opening) :
    run ⟨.line [.text opening] :: code, frames, .any⟩ (.indent :: calls)
      = run ⟨[], ⟨.one [.text opening], false, code⟩ :: frames, .any⟩ calls := by
  have hlast : lastOpens ⟨.line [.text opening] :: code, frames, .any⟩ = false := by
    simpa [lastOpens] using h
  rw [run, step, hlast]
  rfl

theorem run_dedent_line {closing : String} (h : closing ≠ "\x7d") (opening : List Piece) :
    run ⟨body, ⟨.one opening, false, code⟩ :: frames, .any⟩ (.dedent :: Call.line closing :: calls)
      = run ⟨.block opening body.reverse closing :: code, frames, .any⟩ calls := by
  show (closed _ (.one opening) false body.reverse (renderPieces [.text closing])).bind _ = _
  rw [renderPieces_text, closed, if_neg h]
  rfl

@[simp] theorem run_close (opening : String) :
    run ⟨body, ⟨.one [.text opening], true, code⟩ :: frames, .any⟩ (.close :: calls)
      = run ⟨.block [.text opening] body.reverse "\x7d" :: code, frames, .any⟩ calls := (rfl)

@[simp] theorem run_close_gate (since : Nat) (absent : String) :
    run ⟨[.line [.text "return ", .text absent, .text ";"]],
        ⟨.one [.text "if ", .hidden since, .text " \x7b"], true, code⟩ :: frames, .any⟩
        (.close :: .blank :: calls)
      = run ⟨.gate since absent :: code, frames, .any⟩ calls := (rfl)

/-- One of two blocks ends and the other begins. -/
@[simp] theorem run_otherwise (opening : String) :
    run ⟨body, ⟨.one [.text opening], true, code⟩ :: frames, .any⟩
        (.dedent :: Call.enter "\x7d else" :: calls)
      = run ⟨[], ⟨.other [.text opening] body.reverse, true, code⟩ :: frames, .any⟩ calls := (rfl)

@[simp] theorem run_close_other (opening : List Piece) :
    run ⟨body, ⟨.other opening first, true, code⟩ :: frames, .any⟩ (.close :: calls)
      = run ⟨.choice opening first body.reverse :: code, frames, .any⟩ calls := (rfl)

end Scan
/-! ### Emitters -/

/-- The calls write the code, whatever has been written and whatever blocks are open. -/
def Reads (calls : List Call) (code : List Code) : Prop :=
  ∀ front frames,
    Scan.run ⟨front, frames, .any⟩ calls = some ⟨code.reverse ++ front, frames, .any⟩

namespace Reads

variable {xs ys : List Call} {as bs : List Code}

theorem ofCalls? (h : Reads xs as) : ofCalls? xs = some as := by
  rw [Code.ofCalls?, h [] [], List.append_nil]
  exact congrArg some as.reverse_reverse

theorem ofCalls (h : Reads xs as) : ofCalls xs = as := by rw [Code.ofCalls, h.ofCalls?]; rfl

theorem nil : Reads [] [] := fun _ _ => rfl

theorem append (hx : Reads xs as) (hy : Reads ys bs) : Reads (xs ++ ys) (as ++ bs) := fun front frames => by
  rw [Scan.run_append, hx, Scan.andThen_some, hy, List.reverse_append, List.append_assoc]

theorem blank (h : Reads xs as) : Reads (.blank :: xs) (.blank :: as) := fun front frames => by
  rw [Scan.run_blank, h, List.reverse_cons, List.append_assoc, List.singleton_append]

theorem docs (texts : List String) : Reads (texts.map .doc) (texts.map .doc) := by
  induction texts with
  | nil => exact nil
  | cons t texts ih =>
      intro front frames
      rw [List.map_cons, Scan.run_doc, ih, List.map_cons, List.reverse_cons, List.append_assoc]
      rfl

theorem flatten {parts : List (List Call)} {codes : List (List Code)}
    (h : List.Forall₂ Reads parts codes) : Reads parts.flatten codes.flatten := by
  induction h with
  | nil => exact nil
  | cons h _ ih => exact h.append ih

/-- Calls each of which begin with a blank line. -/
theorem flatten_blank {parts : List (List Call)} {codes : List (List Code)}
    (h : List.Forall₂ (fun calls code => Reads calls (.blank :: code)) parts codes) :
    Reads parts.flatten (codes.flatMap (.blank :: ·)) := by
  induction h with
  | nil => exact nil
  | cons h _ ih => exact h.append ih

theorem flatMap {α : Type} {f : α → List Call} {g : α → List Code} {as : List α}
    (h : ∀ a ∈ as, Reads (f a) (g a)) : Reads (as.flatMap f) (as.flatMap g) := by
  induction as with
  | nil => exact nil
  | cons a as ih =>
      obtain ⟨ha, has⟩ := List.forall_mem_cons.mp h
      exact ha.append (ih has)

theorem writes {α : Type} (f : α → List Piece) (as : List α) :
    Reads (as.map fun a => .write (f a)) (as.map fun a => .line (f a)) := by
  induction as with
  | nil => exact nil
  | cons a as ih =>
      intro front frames
      rw [List.map_cons, Scan.run_write, ih, List.map_cons, List.reverse_cons, List.append_assoc]
      rfl

theorem lines {α : Type} (f : α → String) (as : List α) :
    Reads (as.map fun a => Call.line (f a)) (as.map fun a => Code.text (f a)) :=
  writes (fun a => [.text (f a)]) as

end Reads

theorem ofCalls_of_alike {x : Except Fault (List Call)} {y : Except Fault (List Code)}
    (h : Alike Reads x y) : ofCalls <$> x = y := h.map_eq fun _ _ => Reads.ofCalls

end Code
end WireCodec

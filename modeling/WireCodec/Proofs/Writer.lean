import WireCodec.Proofs.Lines
import WireCodec.Proofs.Printing
import WireCodec.Proofs.Transcript
/-! # What calls write

Calls that can be read as a tree write that tree (`Code.written_of_ofCalls?`): at any point the writer
has written the lines of what has been read so far, and its level is the number of open blocks
(`Code.Scan.run_spec`). -/

namespace WireCodec

open Text (terminated)

namespace Writer

variable {style : Style}

theorem run_append (w : Writer) (xs ys : List Call) :
    run style w (xs ++ ys) = run style (run style w xs) ys := List.foldl_append

theorem run_concat (w : Writer) (calls : List Call) (c : Call) :
    run style w (calls ++ [c]) = step style (run style w calls) c := by
  rw [run_append]
  rfl

theorem writeln_terminated (ls : List String) (level : Nat) (l : String) :
    writeln style ⟨terminated ls, level⟩ l = ⟨terminated (ls ++ [style.indented level l]), level⟩ := by
  rw [Text.terminated_append, Text.terminated_singleton, ← String.append_assoc]
  rfl

theorem foldl_writeln (level : Nat) (ms ls : List String) :
    ms.foldl (writeln style) ⟨terminated ls, level⟩
      = ⟨terminated (ls ++ ms.map (style.indented level)), level⟩ := by
  induction ms generalizing ls with
  | nil => rw [List.map_nil, List.append_nil, List.foldl_nil]
  | cons m ms ih =>
      rw [List.foldl_cons, writeln_terminated, ih, List.append_assoc, List.map_cons]
      rfl

end Writer

namespace Code

open Writer (run)

variable {style : Style} {calls : List Call} {code : List Code}

theorem linesAll_concat (depth : Nat) (xs : List Code) (x : Code) :
    linesAll style depth (xs ++ [x]) = linesAll style depth xs ++ lines style depth x := by
  rw [linesAll_append, linesAll, linesAll, List.append_nil]

theorem renderPieces_withText (ps : List Piece) (s : String) :
    renderPieces (withText ps s) = renderPieces ps ++ s := by
  fun_induction withText ps s with
  | case1 s =>
      rw [renderPieces_text]
      exact String.empty_append.symm
  | case2 s t => rw [renderPieces_text, renderPieces_text]
  | case3 s p ps h ih => rw [renderPieces_cons, ih, renderPieces_cons, String.append_assoc]

/-! ### The lines of what has been read -/

/-- The lines that have opened a block, at the depth around it. -/
def Opening.lines (style : Style) (depth : Nat) : Opening → List String
  | .one pieces => [style.indented depth (renderPieces pieces)]
  | .other pieces first =>
    style.indented depth (renderPieces pieces)
      :: (linesAll style (depth + 1) first ++ [style.indented depth "\x7d else \x7b"])

/-- The lines in front of what stands in the innermost of some open blocks. -/
def frameLines (style : Style) : List Frame → List String
  | [] => []
  | f :: fs =>
    frameLines style fs
      ++ (linesAll style fs.length f.front.reverse ++ f.opening.lines style fs.length)

def Mode.lines (style : Style) (depth : Nat) : Mode → List String
  | .any => []
  | .closing opening _ body => opening.lines style depth ++ linesAll style (depth + 1) body
  | .gate since absent =>
    [style.indented depth s!"if self.acting_version() < {since} \x7b",
     style.indented (depth + 1) s!"return {absent};", style.indented depth "\x7d"]

namespace Scan

/-- The lines of what has been read. -/
def lines (style : Style) (s : Scan) : List String :=
  frameLines style s.frames ++ linesAll style s.frames.length s.code.reverse
    ++ s.mode.lines style s.frames.length

variable {s s' : Scan}

theorem lines_push (hmode : s.mode = .any) (c : Code) :
    (s.push c).lines style = s.lines style ++ Code.lines style s.frames.length c := by
  simp [lines, push, hmode, Mode.lines, linesAll_concat]

theorem renderPieces_hidden (since : Nat) :
    renderPieces [.text "if ", .hidden since, .text " \x7b"]
      = s!"if self.acting_version() < {since} \x7b" := by
  have hfront : "if self.acting_version() < " = "if " ++ "self.acting_version() < " := by decide
  rw [renderPieces_cons, renderPieces_cons, renderPieces_text]
  show "if " ++ ("self.acting_version() < " ++ toString since ++ " \x7b")
    = "if self.acting_version() < " ++ toString since ++ " \x7b"
  rw [hfront]
  simp only [String.append_assoc]

theorem renderPieces_return (absent : String) :
    renderPieces [.text "return ", .text absent, .text ";"] = s!"return {absent};" := by
  rw [renderPieces_cons, renderPieces_cons, renderPieces_text, ← String.append_assoc]
  rfl

theorem eq_of_gateOf? {opening : List Piece} {body : List Code} {since : Nat} {absent : String}
    (h : gateOf? opening body = some (since, absent)) :
    opening = [.text "if ", .hidden since, .text " \x7b"] ∧
      body = [.line [.text "return ", .text absent, .text ";"]] := by
  unfold gateOf? at h
  split at h
  · split at h
    next hlines =>
      obtain ⟨rfl, rfl, rfl, rfl⟩ := hlines
      cases h
      exact ⟨rfl, rfl⟩
    next => cases h
  · cases h

/-- The line that closes a block is read behind the block. -/
theorem closed_spec (style : Style) {opening : Opening} {braced : Bool} {body : List Code}
    {closing : String} (h : s.closed opening braced body closing = some s') :
    s'.frames = s.frames ∧ s'.lines style = frameLines style s.frames
      ++ linesAll style s.frames.length s.code.reverse
      ++ (opening.lines style s.frames.length ++ linesAll style (s.frames.length + 1) body
        ++ [style.indented s.frames.length closing]) := by
  unfold closed at h
  split at h
  next pieces =>
    split at h
    next hclosing =>
      split at h
      · split at h
        next since absent hgate =>
          cases h
          obtain ⟨rfl, rfl⟩ := eq_of_gateOf? hgate
          refine ⟨rfl, ?_⟩
          simp [lines, Mode.lines, Opening.lines, linesAll, Code.lines, renderPieces_hidden,
            renderPieces_return, hclosing]
        next =>
          cases h
          exact ⟨rfl, by simp [lines, push, Mode.lines, Opening.lines, linesAll_concat, Code.lines]⟩
      · cases h
    next =>
      cases h
      exact ⟨rfl, by simp [lines, push, Mode.lines, Opening.lines, linesAll_concat, Code.lines]⟩
  next pieces first =>
    split at h
    next hclosing =>
      cases h
      refine ⟨rfl, ?_⟩
      simp [lines, push, Mode.lines, Opening.lines, linesAll_concat, Code.lines, hclosing.1]
    next => cases h

theorem write_spec (style : Style) {pieces : List Piece} (h : s.write pieces = some s') :
    s'.frames = s.frames ∧
      s'.lines style = s.lines style ++ [style.indented s.frames.length (renderPieces pieces)] := by
  unfold write at h
  split at h
  next hmode =>
    cases h
    exact ⟨rfl, lines_push hmode _⟩
  next opening braced body hmode =>
    obtain ⟨hframes, hlines⟩ := closed_spec style h
    refine ⟨hframes, ?_⟩
    rw [hlines, lines, hmode, Mode.lines]
    simp only [List.append_assoc]
  next => cases h

theorem indent_spec (style : Style) {braced : Bool} (h : s.indent braced = some s') :
    s'.lines style = s.lines style ∧ ∃ f, s'.frames = f :: s.frames ∧ f.braced = braced := by
  unfold indent at h
  split at h
  next pieces front hmode hcode =>
    cases h
    refine ⟨?_, _, rfl, rfl⟩
    simp [lines, hmode, hcode, Mode.lines, frameLines, Opening.lines, linesAll, Code.lines,
      linesAll_concat]
  next pieces first closing front hmode hcode =>
    split at h
    next hclosing =>
      cases h
      refine ⟨?_, _, rfl, rfl⟩
      simp [lines, hmode, hcode, hclosing, Mode.lines, frameLines, Opening.lines, linesAll, Code.lines,
        linesAll_concat]
    next => cases h
  next => cases h

/-- A block begins behind a line. -/
theorem lastLine_of_indent (style : Style) {braced : Bool} (h : s.indent braced = some s') :
    ∃ ls opening, s.lines style = ls ++ [style.indented s.frames.length opening] ∧
      (s.lastOpens → OpensBlock opening) := by
  unfold indent at h
  split at h
  next pieces front hmode hcode =>
    refine ⟨frameLines style s.frames ++ linesAll style s.frames.length front.reverse,
      renderPieces pieces, ?_, ?_⟩
    · simp [lines, hmode, hcode, Mode.lines, Code.lines, linesAll_concat]
    · simp [lastOpens, hcode]
  next pieces first closing front hmode hcode =>
    refine ⟨frameLines style s.frames ++ linesAll style s.frames.length front.reverse
      ++ style.indented s.frames.length (renderPieces pieces)
        :: linesAll style (s.frames.length + 1) first, closing, ?_, ?_⟩
    · simp [lines, hmode, hcode, Mode.lines, Code.lines, linesAll_concat]
    · simp [lastOpens, hcode]
  next => cases h

theorem dedent_spec (style : Style) (h : s.dedent = some s') :
    s'.lines style = s.lines style ∧ ∃ f, s.frames = f :: s'.frames := by
  unfold dedent at h
  split at h
  next f frames hmode hframes =>
    cases h
    refine ⟨?_, f, hframes⟩
    simp [lines, hmode, hframes, Mode.lines, frameLines]
  next => cases h

theorem add_spec (style : Style) {code : List Code} (h : s.add code = some s') :
    s'.frames = s.frames ∧
      s'.lines style = s.lines style ++ linesAll style s.frames.length code := by
  unfold add at h
  split at h
  next hmode =>
    cases h
    exact ⟨rfl, by simp [lines, hmode, Mode.lines, linesAll_append]⟩
  next => cases h

theorem addBlank_spec (style : Style) (h : s.addBlank = some s') :
    s'.frames = s.frames ∧ s'.lines style = s.lines style ++ [""] := by
  unfold addBlank at h
  split at h
  next hmode =>
    cases h
    exact ⟨rfl, lines_push hmode _⟩
  next since absent hmode =>
    cases h
    exact ⟨rfl, by simp [lines, push, hmode, Mode.lines, linesAll_concat, Code.lines]⟩
  next => cases h

/-- What a call writes is what is read of it. -/
theorem step_spec {c : Call} (h : s.step c = some s') :
    Writer.step style ⟨terminated (s.lines style), s.frames.length⟩ c
      = ⟨terminated (s'.lines style), s'.frames.length⟩ := by
  cases c with
  | write pieces =>
      obtain ⟨hframes, hlines⟩ := write_spec style h
      rw [Writer.step, Writer.writeln_terminated, hframes, hlines]
  | lines text =>
      obtain ⟨hframes, hlines⟩ := add_spec style h
      rw [Writer.step, Writer.foldl_writeln, hframes, hlines, ofText, linesAll_map_text]
  | blank =>
      obtain ⟨hframes, hlines⟩ := addBlank_spec style h
      rw [Writer.step, Writer.writeln_terminated, Style.indented_empty, hframes, hlines]
  | doc text =>
      obtain ⟨hframes, hlines⟩ := add_spec style h
      rw [Writer.step, hframes, hlines, linesAll, linesAll, Code.lines, List.append_nil]
      split
      · exact Writer.foldl_writeln _ _ _
      · rw [List.append_nil]
  | begin heading =>
      obtain ⟨s₁, hwrite, hindent⟩ := Option.bind_eq_some_iff.mp h
      obtain ⟨hframes, hlines⟩ := write_spec style hwrite
      obtain ⟨hsame, f, hopen, -⟩ := indent_spec style hindent
      rw [Writer.step, Writer.writeln_terminated, hsame, hopen, hlines, hframes, renderPieces_withText]
      rfl
  | close =>
      obtain ⟨s₁, hdedent, hwrite⟩ := Option.bind_eq_some_iff.mp h
      obtain ⟨hsame, f, hopen⟩ := dedent_spec style hdedent
      obtain ⟨hframes, hlines⟩ := write_spec style hwrite
      rw [Writer.step, hlines, hframes, hsame, renderPieces_text, ← Writer.writeln_terminated, hopen]
      rfl
  | indent =>
      obtain ⟨hsame, f, hopen, -⟩ := indent_spec style h
      rw [Writer.step, hsame, hopen]
      rfl
  | dedent =>
      obtain ⟨hsame, f, hopen⟩ := dedent_spec style h
      rw [Writer.step, hsame, hopen]
      rfl

/-- What calls write is what is read of them. -/
theorem run_spec : ∀ {calls : List Call} {s : Scan}, s.run calls = some s' →
    Writer.run style ⟨terminated (s.lines style), s.frames.length⟩ calls
      = ⟨terminated (s'.lines style), s'.frames.length⟩
  | [], _, h => by
      cases h
      rfl
  | c :: calls, s, h => by
      obtain ⟨s₁, hstep, hrun⟩ := Option.bind_eq_some_iff.mp h
      rw [Writer.run, List.foldl_cons, step_spec hstep]
      exact run_spec hrun

theorem written_of_run (h : run {} calls = some s) :
    Writer.run style {} calls = ⟨terminated (s.lines style), s.frames.length⟩ := run_spec h

end Scan

/-! ### Calls that can be read -/

theorem run_of_ofCalls? (h : ofCalls? calls = some code) :
    ∃ s, Scan.run {} calls = some s ∧ s.code = code.reverse ∧ s.frames = [] ∧ s.mode = .any := by
  unfold ofCalls? at h
  split at h
  next tree hrun =>
    cases h
    exact ⟨_, hrun, tree.reverse_reverse.symm, rfl, rfl⟩
  next => cases h

/-- What calls write is the tree that they can be read as. -/
theorem written_of_ofCalls? (h : ofCalls? calls = some code) :
    Writer.written style calls = source style code := by
  obtain ⟨s, hrun, hcode, hframes, hmode⟩ := run_of_ofCalls? h
  unfold Writer.written
  rw [Scan.written_of_run hrun]
  simp [Scan.lines, hcode, hframes, hmode, frameLines, Mode.lines, source, terminated]

end Code
end WireCodec

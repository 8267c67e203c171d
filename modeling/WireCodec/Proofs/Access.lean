import WireCodec.Layout
import WireCodec.Proofs.Trees.Side
/-! # What generated code does

Three things matter about a piece of generated code: which bytes of the buffer it accesses, which
versions it turns away, and how it moves the limit.

* `Code.accesses version code` lists the accesses that the code makes for a reader of some version:
  behind a gate that the version does not pass nothing of the function is accessed any more.
  Addresses are given by the expressions that `offset` is bound to, not by the name.
* `Code.gates` and `Code.moves` list the gates and the moves of the limit at any depth, and
  `Code.functions` the headings of the functions.

Comments have no part in any of these. -/

namespace WireCodec

open Codec (Side)

/-! ### Accesses -/

/-- What is transferred between a codec and its buffer. -/
inductive Transfer
  | value (type : Primitive) (at_ : Address)
  /-- As many bytes as a length says. -/
  | bytes (at_ : Address)
  /-- The address is handed to a nested codec or value. -/
  | nested (at_ : Address)
  deriving DecidableEq, Repr

/-- A transfer to or from the buffer; what is nested is not accessed here. -/
structure Access where
  side : Option Side
  transfer : Transfer
  deriving DecidableEq, Repr

namespace Transfer

/-- The transfer as an encoder or a decoder makes it. -/
@[simp] def madeBy (side : Side) : Transfer → Access
  | value type a => ⟨some side, value type a⟩
  | bytes a => ⟨some side, bytes a⟩
  | nested a => ⟨none, nested a⟩

end Transfer

/-- The address where the name `offset` is bound to `scope`. -/
def Address.resolve (scope : Option Address) (a : Address) : Address :=
  match scope with
  | some bound =>
    if a.base = "offset" then
      ⟨bound.base, bound.displacement + a.displacement, a.stride.or bound.stride⟩
    else a
  | none => a

@[simp] theorem Address.resolve_none (a : Address) : a.resolve none = a := rfl

@[simp] theorem Address.resolve_offset (bound : Address) (displacement : Nat) (stride : Option Nat) :
    (⟨"offset", displacement, stride⟩ : Address).resolve (some bound)
      = ⟨bound.base, bound.displacement + displacement, stride.or bound.stride⟩ := rfl

namespace Piece

def access? (scope : Option Address) : Piece → Option Access
  | get type a => some ⟨some .decode, .value type (a.resolve scope)⟩
  | put type a _ => some ⟨some .encode, .value type (a.resolve scope)⟩
  | getSlice a _ => some ⟨some .decode, .bytes (a.resolve scope)⟩
  | putSlice a _ => some ⟨some .encode, .bytes (a.resolve scope)⟩
  | nest _ _ a => some ⟨none, .nested (a.resolve scope)⟩
  | text _ | hidden _ | bind _ | moveLimit .. => none

/-- What `offset` is bound to behind a piece. -/
def scopeAfter (scope : Option Address) : Piece → Option Address
  | bind a => some (a.resolve scope)
  | _ => scope

def isMove : Piece → Bool
  | moveLimit .. => true
  | _ => false

end Piece

theorem Gate.isGated_eq_false_iff {g : Gate} : g.isGated = false ↔ g.since = 0 := by
  simp [Gate.isGated]

namespace Code

/-- What `offset` is bound to behind a line or block; a block forgets what is bound in it. -/
def scopeAfter (scope : Option Address) : Code → Option Address
  | line pieces => pieces.foldl Piece.scopeAfter scope
  | _ => scope

/-- Does the code let a version go on? -/
def passes (version : Nat) : Code → Bool
  | gate since _ => ({ since } : Gate).isVisibleTo version
  | _ => true

/-- The accesses of a line. -/
def lineAccesses (scope : Option Address) : List Piece → List Access
  | [] => []
  | p :: ps => (p.access? scope).toList ++ lineAccesses (p.scopeAfter scope) ps

mutual
/-- The accesses of one line or block.  Of a choice both blocks count. -/
def accessesOf (version : Nat) (scope : Option Address) : Code → List Access
  | line pieces => lineAccesses scope pieces
  | block opening body _ => lineAccesses scope opening ++ accessesIn version scope body
  | choice opening first second =>
    lineAccesses scope opening ++ accessesIn version scope first ++ accessesIn version scope second
  | blank | doc _ | gate .. => []

/-- The accesses of codes that follow each other, as far as the version gets. -/
def accessesIn (version : Nat) (scope : Option Address) : List Code → List Access
  | [] => []
  | c :: cs =>
    accessesOf version scope c
      ++ if c.passes version then accessesIn version (c.scopeAfter scope) cs else []
end

/-- The accesses that code makes for a reader of some version. -/
def accesses (version : Nat) (code : List Code) : List Access := accessesIn version none code

/-! ### Gates, moves and functions -/

mutual
/-- The lines and gates of a code, headings of blocks included. -/
def leavesOf : Code → List Code
  | block opening body _ => line opening :: leaves body
  | choice opening first second => line opening :: (leaves first ++ leaves second)
  | blank => [blank]
  | line pieces => [line pieces]
  | doc text => [doc text]
  | gate since absent => [gate since absent]

/-- The lines and gates of codes that follow each other. -/
def leaves : List Code → List Code
  | [] => []
  | c :: cs => leavesOf c ++ leaves cs
end

def gate? : Code → Option Nat
  | gate since _ => some since
  | _ => none

def pieces : Code → List Piece
  | line pieces => pieces
  | _ => []

/-- The versions that the gates in some code ask for. -/
def gates (code : List Code) : List Nat := (leaves code).filterMap gate?

/-- The moves of the limit in some code. -/
def moves (code : List Code) : List Piece :=
  ((leaves code).flatMap Code.pieces).filter Piece.isMove

/-- The opening of a block, if it is one. -/
def opening? : Code → Option (List Piece)
  | block opening _ _ => some opening
  | _ => none

/-- The openings of the blocks in a list: of functions, where the list holds these. -/
def functions (code : List Code) : List (List Piece) := code.filterMap opening?

attribute [simp] accessesOf accessesIn lineAccesses passes scopeAfter Piece.access? Piece.scopeAfter
  leavesOf leaves gate? pieces opening? Piece.isMove braces bare text Codec.inlined

/-! ### Closure -/

theorem leaves_append (xs ys : List Code) : leaves (xs ++ ys) = leaves xs ++ leaves ys := by
  induction xs with
  | nil => rfl
  | cons x xs ih => rw [List.cons_append, leaves, leaves, ih, List.append_assoc]

@[simp] theorem gates_append (xs ys : List Code) : gates (xs ++ ys) = gates xs ++ gates ys := by
  unfold gates
  rw [leaves_append, List.filterMap_append]

@[simp] theorem moves_append (xs ys : List Code) : moves (xs ++ ys) = moves xs ++ moves ys := by
  unfold moves
  rw [leaves_append, List.flatMap_append, List.filter_append]

@[simp] theorem functions_append (xs ys : List Code) :
    functions (xs ++ ys) = functions xs ++ functions ys := List.filterMap_append

/-- Code that any version passes and that leaves `offset` as it is. -/
def isOpen : Code → Bool
  | gate .. => false
  | line pieces => pieces.all fun p => p.scopeAfter none == none
  | _ => true

theorem foldl_scopeAfter {ps : List Piece} (h : ps.all fun p => p.scopeAfter none == none)
    (scope : Option Address) : ps.foldl Piece.scopeAfter scope = scope := by
  induction ps with
  | nil => rfl
  | cons p ps ih =>
      rw [List.all_cons, Bool.and_eq_true, beq_iff_eq] at h
      have hp : p.scopeAfter scope = scope := by
        cases p <;> first | rfl | cases h.1
      rw [List.foldl_cons, hp, ih h.2]

theorem passes_of_isOpen {c : Code} (h : c.isOpen) (version : Nat) : c.passes version := by
  cases c <;> simp_all [isOpen, passes]

theorem scopeAfter_of_isOpen {c : Code} (h : c.isOpen) (scope : Option Address) :
    c.scopeAfter scope = scope := by
  cases c with
  | line pieces =>
      rw [isOpen] at h
      unfold scopeAfter
      exact foldl_scopeAfter h scope
  | _ => rfl

theorem accessesIn_append {xs : List Code} (h : xs.all isOpen) (version : Nat)
    (scope : Option Address) (ys : List Code) :
    accessesIn version scope (xs ++ ys)
      = accessesIn version scope xs ++ accessesIn version scope ys := by
  induction xs with
  | nil => rfl
  | cons x xs ih =>
      rw [List.all_cons, Bool.and_eq_true] at h
      rw [List.cons_append, accessesIn, accessesIn, if_pos (passes_of_isOpen h.1 version),
        if_pos (passes_of_isOpen h.1 version), scopeAfter_of_isOpen h.1, ih h.2, List.append_assoc]

theorem accesses_append {xs : List Code} (h : xs.all isOpen) (version : Nat) (ys : List Code) :
    accesses version (xs ++ ys) = accesses version xs ++ accesses version ys :=
  accessesIn_append h version none ys

/-! ### Comments and blocks -/

/-- A blank line or documentation. -/
def isComment : Code → Bool
  | blank | doc _ => true
  | _ => false

theorem functions_comments {xs : List Code} (h : xs.all isComment) : functions xs = [] := by
  rw [List.all_eq_true] at h
  rw [functions, List.filterMap_eq_nil_iff]
  intro c hc
  have := h c hc
  cases c <;> first | rfl | cases this

/-- The code is one function with the given heading. -/
def IsFunction (heading : String) (code : List Code) : Prop :=
  functions code = [[.text (heading ++ " \x7b")]]

theorem isFunction_inlined (heading : String) (body : List Code) :
    IsFunction heading (Codec.inlined heading body) := rfl

theorem IsFunction.comments {heading : String} {xs ys : List Code} (hx : xs.all isComment)
    (h : IsFunction heading ys) : IsFunction heading (xs ++ ys) := by
  unfold IsFunction
  rw [functions_append, functions_comments hx, List.nil_append]
  exact h

/-- For versions from `since` on the code makes the given transfers, as an encoder or a decoder makes
them, and for earlier ones it makes none.  It holds no other gate, and the given moves. -/
structure Carries (side : Side) (since : Nat) (transfers : List Transfer) (moved : List Piece)
    (code : List Code) : Prop where
  accesses : ∀ version,
    accesses version code = if since ≤ version then transfers.map (·.madeBy side) else []
  gates : gates code = if 0 < since then [since] else []
  moves : moves code = moved

namespace Carries
variable {side : Side} {since : Nat} {transfers : List Transfer} {moved : List Piece}

theorem comment {c : Code} {cs : List Code} (hc : c.isComment)
    (h : Carries side since transfers moved cs) : Carries side since transfers moved (c :: cs) := by
  cases c with
  | blank | doc => exact ⟨h.accesses, h.gates, h.moves⟩
  | _ => cases hc

theorem comments {xs ys : List Code} (hx : xs.all isComment)
    (h : Carries side since transfers moved ys) : Carries side since transfers moved (xs ++ ys) := by
  induction xs with
  | nil => exact h
  | cons x xs ih =>
      rw [List.all_cons, Bool.and_eq_true] at hx
      exact (ih hx.2).comment hx.1

/-- A block does what its body does. -/
theorem braces {body : List Code} (h : Carries side since transfers moved body) (heading : String) :
    Carries side since transfers moved [Code.braces heading body] := by
  refine ⟨fun version => ?_, ?_, ?_⟩
  · rw [← h.accesses version]
    simp [Code.accesses]
  · rw [← h.gates]
    simp [Code.gates, List.filterMap_cons]
  · rw [← h.moves]
    simp [Code.moves]

/-- A function does what its body does. -/
theorem inlined {body : List Code} (h : Carries side since transfers moved body) (heading : String) :
    Carries side since transfers moved (Codec.inlined heading body) :=
  ⟨(h.braces heading).accesses, (h.braces heading).gates, (h.braces heading).moves⟩

theorem nil (side : Side) : Carries side 0 [] [] [] := ⟨fun _ => rfl, rfl, rfl⟩

theorem append {xs ys : List Code} {transfers' : List Transfer} {moved' : List Piece}
    (hx : Carries side 0 transfers moved xs) (ho : xs.all isOpen)
    (hy : Carries side 0 transfers' moved' ys) :
    Carries side 0 (transfers ++ transfers') (moved ++ moved') (xs ++ ys) := by
  refine ⟨fun version => ?_, ?_, ?_⟩
  · rw [accesses_append ho, hx.accesses, hy.accesses, List.map_append]
    simp
  · rw [Code.gates_append, hx.gates, hy.gates]
    rfl
  · rw [Code.moves_append, hx.moves, hy.moves]

theorem flatMap {α : Type} {f : α → List Code} {transfers : α → List Transfer} {xs : List α}
    (h : ∀ x ∈ xs, (f x).all isOpen ∧ Carries side 0 (transfers x) [] (f x)) :
    Carries side 0 (xs.flatMap transfers) [] (xs.flatMap f) := by
  induction xs with
  | nil => exact nil side
  | cons x xs ih =>
      rw [List.forall_mem_cons] at h
      obtain ⟨ho, hx⟩ := h.1
      exact hx.append ho (ih h.2)

/-- Code for all versions, with a gate in front of it. -/
theorem gated {body : List Code} (h : Carries side 0 transfers moved body) (g : Gate)
    (absent : String) : Carries side g.since transfers moved
      ((if g.isGated then [gate g.since absent] else []) ++ body) := by
  have hall : ∀ version, Code.accesses version body = transfers.map (·.madeBy side) := fun version => by
    rw [h.accesses, if_pos (Nat.zero_le version)]
  have hgates : Code.gates body = [] := h.gates
  unfold Gate.isGated
  split
  next hs =>
    refine ⟨fun version => ?_, ?_, h.moves⟩
    · rw [← hall version]
      simp [Code.accesses, Gate.isVisibleTo]
    · rw [if_pos (of_decide_eq_true hs), Code.gates_append, hgates]
      rfl
  next hs =>
    have hzero : g.since = 0 := Gate.isGated_eq_false_iff.mp (Bool.not_eq_true _ ▸ hs)
    rw [hzero]
    exact h

end Carries

end Code
end WireCodec

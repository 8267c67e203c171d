import WireCodec.Proofs.Accessors
import WireCodec.Proofs.Structs
/-! # The codecs of a module

The module of a side holds codecs one behind the other.  `Code.codecs` cuts its items in front of every
struct, and a codec's own functions are what stands in the last block behind its struct
(`Code.lastBody?`).

The codec of a message and the codec of a group are each cut out whole, but for comments in front of the
next codec, and their own functions end with the accessors that they are written around
(`Codec.Message.isCodec_encoder`, `Codec.Message.isCodec_decoder`, `Codec.isCodec_groupCodec`). -/

namespace WireCodec

open Codec (Side inherentImpl groupCodec)

namespace Code

/-! ### Cutting a module -/

/-- The structs among some items, each with all that follows it up to the next one. -/
def codecs : List Code → List (String × List Code)
  | [] => []
  | c :: rest => match struct? c with
    | some name => (name, c :: rest.takeWhile fun d => (struct? d).isNone) :: codecs rest
    | none => codecs rest

def body? : Code → Option (List Code)
  | block _ body _ => some body
  | _ => none

/-- What stands in the last block among some items. -/
def lastBody? (items : List Code) : Option (List Code) := (items.filterMap body?).getLast?

/-- A comment or a line of text. -/
def isPlain : Code → Bool
  | blank | doc _ | line [.text _] => true
  | _ => false

variable {xs ys items lead tail : List Code} {c : Code} {name : String}

theorem codecs_append_of_structs (h : structs xs = []) (ys : List Code) :
    codecs (xs ++ ys) = codecs ys := by
  induction xs with
  | nil => rfl
  | cons x xs ih =>
      obtain ⟨hx, hxs⟩ := List.forall_mem_cons.mp (List.filterMap_eq_nil_iff.mp h)
      rw [List.cons_append, codecs, hx]
      exact ih (List.filterMap_eq_nil_iff.mpr hxs)

theorem codecs_cons_struct (hc : struct? c = some name) (h : structs xs = []) (ys : List Code) :
    codecs (c :: (xs ++ ys))
      = (name, c :: (xs ++ ys.takeWhile fun d => (struct? d).isNone)) :: codecs ys := by
  have hxs : ∀ x ∈ xs, (struct? x).isNone = true := fun x hx => by
    rw [List.filterMap_eq_nil_iff.mp h x hx]
    rfl
  rw [codecs, hc]
  dsimp only
  rw [List.takeWhile_append_of_pos hxs, codecs_append_of_structs h]

theorem struct?_of_isPlain (h : c.isPlain) : struct? c = none := by
  cases c <;> first | rfl | cases h

theorem structs_of_isPlain (h : xs.all isPlain) : structs xs = [] :=
  List.filterMap_eq_nil_iff.mpr fun _ hx => struct?_of_isPlain (List.all_eq_true.mp h _ hx)

theorem body?_of_isPlain (h : c.isPlain) : body? c = none := by
  cases c <;> first | rfl | cases h

theorem isOpen_of_isPlain (h : c.isPlain) : c.isOpen := by
  unfold isPlain at h
  split at h <;> first | rfl | cases h

theorem lastBody?_append_plain (h : tail.all isPlain) (xs : List Code) :
    lastBody? (xs ++ tail) = lastBody? xs := by
  have htail : tail.filterMap body? = [] :=
    List.filterMap_eq_nil_iff.mpr fun _ hc => body?_of_isPlain (List.all_eq_true.mp h _ hc)
  unfold lastBody?
  rw [List.filterMap_append, htail, List.append_nil]

theorem lastBody?_plain_append (h : lead.all isPlain) (xs : List Code) :
    lastBody? (lead ++ xs) = lastBody? xs := by
  have hlead : lead.filterMap body? = [] :=
    List.filterMap_eq_nil_iff.mpr fun _ hc => body?_of_isPlain (List.all_eq_true.mp h _ hc)
  unfold lastBody?
  rw [List.filterMap_append, hlead, List.nil_append]

theorem accesses_of_isPlain (h : xs.all isPlain) (version : Nat) : accesses version xs = [] := by
  induction xs with
  | nil => rfl
  | cons x xs ih =>
      rw [List.all_cons, Bool.and_eq_true] at h
      have hx : [x].all isOpen := by simp [isOpen_of_isPlain h.1]
      rw [← List.singleton_append, accesses_append hx, ih h.2, List.append_nil]
      unfold isPlain at h
      split at h <;> first | rfl | cases h.1

theorem moves_of_isPlain (h : xs.all isPlain) : moves xs = [] := by
  induction xs with
  | nil => rfl
  | cons x xs ih =>
      rw [List.all_cons, Bool.and_eq_true] at h
      rw [← List.singleton_append, moves_append, ih h.2, List.append_nil]
      unfold isPlain at h
      split at h <;> first | rfl | cases h.1

theorem lastBody?_concat_block (xs : List Code) (opening : List Piece) (body : List Code)
    (closing : String) : lastBody? (xs ++ [block opening body closing]) = some body := by
  unfold lastBody?
  rw [List.filterMap_append]
  exact List.getLast?_concat

/-! ### One codec -/

/-- The code is one codec of that name: a struct and all that belongs to it, behind comments. -/
inductive IsCodec (name : String) (items : List Code) : List Code → Prop
  | intro {lead rest : List Code} {c : Code} (hitems : items = c :: rest) (hlead : lead.all isPlain)
      (hc : struct? c = some name) (hrest : structs rest = []) : IsCodec name items (lead ++ items)

theorem IsCodec.of_structs (lead : List Code) {rest : List Code} (hlead : lead.all isPlain)
    (hc : structs [c] = [name]) (h : structs (lead ++ c :: rest) = [name]) : IsCodec name (c :: rest) (lead ++ c :: rest) := by
  have hstruct : struct? c = some name := by
    cases hs : struct? c <;> simp_all [structs]
  refine ⟨rfl, hlead, hstruct, ?_⟩
  rw [structs_append, structs_of_isPlain hlead, List.nil_append, ← List.singleton_append,
    structs_append, hc] at h
  exact List.append_right_eq_self.mp h

/-- Items of a codec as they are cut out: comments in front of the next codec stand behind them. -/
def IsCutFrom (found items : List Code) : Prop := ∃ tail, tail.all isPlain ∧ found = items ++ tail

theorem IsCodec.plain_append (h : IsCodec name items xs) (hys : ys.all isPlain) :
    IsCodec name items (ys ++ xs) := by
  obtain @⟨lead, rest, c, rfl, hlead, hc, hrest⟩ := h
  rw [← List.append_assoc]
  exact ⟨rfl, by simp [hlead, hys], hc, hrest⟩

theorem IsCodec.codecs_append (h : IsCodec name items xs)
    (hys : (ys.takeWhile fun d => (struct? d).isNone).all isPlain) :
    ∃ found, codecs (xs ++ ys) = (name, found) :: codecs ys ∧ IsCutFrom found items := by
  obtain @⟨lead, rest, c, rfl, hlead, hc, hrest⟩ := h
  refine ⟨_, ?_, _, hys, rfl⟩
  rw [List.append_assoc, codecs_append_of_structs (structs_of_isPlain hlead), List.cons_append,
    codecs_cons_struct hc hrest]
  rfl

theorem IsCodec.takeWhile_append (h : IsCodec name items xs) (ys : List Code) :
    ((xs ++ ys).takeWhile fun d => (struct? d).isNone).all isPlain := by
  obtain @⟨lead, rest, c, rfl, hlead, hc, hrest⟩ := h
  have hnone : ∀ x ∈ lead, (struct? x).isNone = true := fun x hx => by
    rw [struct?_of_isPlain (List.all_eq_true.mp hlead x hx)]
    rfl
  rw [List.append_assoc, List.takeWhile_append_of_pos hnone, List.cons_append,
    List.takeWhile_cons_of_neg (by simp [hc]), List.append_nil]
  exact hlead

theorem codecs_flatMap {α : Type} {code items : α → List Code} {name : α → String} (as : List α)
    (h : ∀ a ∈ as, IsCodec (name a) (items a) (code a)) :
    List.Forall₂ (fun found a => found.1 = name a ∧ IsCutFrom found.2 (items a))
        (codecs (as.flatMap code)) as ∧
      ((as.flatMap code).takeWhile fun d => (struct? d).isNone).all isPlain := by
  induction as with
  | nil => exact ⟨.nil, rfl⟩
  | cons a as ih =>
      obtain ⟨ha, has⟩ := List.forall_mem_cons.mp h
      obtain ⟨hcodecs, hplain⟩ := ih has
      obtain ⟨found, hfound, hcut⟩ := ha.codecs_append hplain
      rw [List.flatMap_cons, hfound]
      exact ⟨.cons ⟨rfl, hcut⟩ hcodecs, ha.takeWhile_append _⟩

section found

variable {found : List Code}

theorem lastBody?_of_cut (h : IsCodec name items xs) (hfound : IsCutFrom found items) :
    lastBody? found = lastBody? xs := by
  obtain @⟨lead, rest, c, rfl, hlead, -, -⟩ := h
  obtain ⟨tail, htail, rfl⟩ := hfound
  rw [lastBody?_append_plain htail, lastBody?_plain_append hlead]

theorem accesses_of_cut (h : IsCodec name items xs) (hxs : xs.all isOpen)
    (hfound : IsCutFrom found items) (version : Nat) : accesses version found = accesses version xs := by
  obtain @⟨lead, rest, c, rfl, hlead, -, -⟩ := h
  obtain ⟨tail, htail, rfl⟩ := hfound
  rw [List.all_append, Bool.and_eq_true] at hxs
  rw [accesses_append hxs.1, accesses_append hxs.2, accesses_of_isPlain hlead,
    accesses_of_isPlain htail, List.append_nil, List.nil_append]

theorem moves_of_cut (h : IsCodec name items xs) (hfound : IsCutFrom found items) :
    moves found = moves xs := by
  obtain @⟨lead, rest, c, rfl, hlead, -, -⟩ := h
  obtain ⟨tail, htail, rfl⟩ := hfound
  rw [moves_append, moves_append, moves_of_isPlain hlead, moves_of_isPlain htail, List.append_nil,
    List.nil_append]

theorem IsCutFrom.leaves_subset (hfound : IsCutFrom found items) : leaves items ⊆ leaves found := by
  obtain ⟨tail, -, rfl⟩ := hfound
  rw [leaves_append]
  exact List.subset_append_left _ _

end found

/-! ### Code around accessors -/

section around

variable {code : List Code → List Code}

/-- The code ends with the accessors. -/
def EndsWith (code : List Code → List Code) : Prop :=
  ∃ front, ∀ accessors, code accessors = front ++ accessors

/-- The code ends with a block that ends with the accessors. -/
def EndsInBlock (code : List Code → List Code) : Prop :=
  ∃ front opening inner, ∀ accessors,
    code accessors = front ++ [.block [.text opening] (inner ++ accessors) "\x7d"]

theorem EndsWith.self : EndsWith fun accessors => accessors := ⟨[], fun _ => rfl⟩

theorem EndsWith.append (h : EndsWith code) (xs : List Code) :
    EndsWith fun accessors => xs ++ code accessors := by
  obtain ⟨front, hcode⟩ := h
  exact ⟨xs ++ front, fun accessors => by simp only [hcode, List.append_assoc]⟩

theorem EndsWith.block (h : EndsWith code) (opening : String) :
    EndsInBlock fun accessors => [.block [.text opening] (code accessors) "\x7d"] := by
  obtain ⟨inner, hcode⟩ := h
  exact ⟨[], opening, inner, fun accessors => by simp only [hcode, List.nil_append]⟩

theorem EndsInBlock.append (h : EndsInBlock code) (xs : List Code) :
    EndsInBlock fun accessors => xs ++ code accessors := by
  obtain ⟨front, opening, inner, hcode⟩ := h
  exact ⟨xs ++ front, opening, inner, fun accessors => by simp only [hcode, List.append_assoc]⟩

/-- The last of some parts with a blank line between them. -/
theorem exists_spaced (parts : List (List Code)) :
    ∃ front, ∀ last, spaced (parts ++ [last]) = front ++ last := by
  induction parts with
  | nil => exact ⟨[], fun last => spaced_singleton last⟩
  | cons p parts ih =>
      obtain ⟨front, hfront⟩ := ih
      refine ⟨p ++ .blank :: front, fun last => ?_⟩
      obtain ⟨q, qs, hcons⟩ : ∃ q qs, parts ++ [last] = q :: qs :=
        List.exists_cons_of_ne_nil (List.append_ne_nil_of_right_ne_nil _ (List.cons_ne_nil last []))
      rw [List.cons_append, hcons, spaced_cons_cons, ← hcons, hfront]
      simp

theorem EndsWith.spaced (h : EndsWith code) (parts : List (List Code)) :
    EndsWith fun accessors => spaced (parts ++ [code accessors]) := by
  obtain ⟨front, hfront⟩ := exists_spaced parts
  simp only [hfront]
  exact h.append front

theorem EndsInBlock.spaced (h : EndsInBlock code) (parts : List (List Code)) :
    EndsInBlock fun accessors => spaced (parts ++ [code accessors]) := by
  obtain ⟨front, hfront⟩ := exists_spaced parts
  simp only [hfront]
  exact h.append front

theorem EndsWith.inherentImpl (h : EndsWith code) (codec bound : String) :
    EndsInBlock fun accessors => inherentImpl codec bound (code accessors) :=
  (h.block "\x7b").append [_, _, _]

theorem EndsInBlock.lastBody (h : EndsInBlock code) (accessors : List Code) :
    ∃ body, lastBody? (code accessors) = some body ∧ accessors <:+ body := by
  obtain ⟨front, opening, inner, hcode⟩ := h
  rw [hcode]
  exact ⟨_, lastBody?_concat_block front _ _ _, inner, rfl⟩

end around

end Code

/-! ### Codecs of groups and messages -/

/-- The items are the codec of a group on one side, around the accessors of its elements.  It transfers
the header that the layout states and moves the limit past it by the size that is stated for both sides;
what else it transfers and moves its accessors do, which stand last among its functions. -/
structure GroupLayout.IsCodec (g : GroupLayout) (side : Side) (accessors items : List Code) : Prop where
  functions : ∃ functions, Code.lastBody? items = some functions ∧ accessors <:+ functions
  accesses : ∀ version, Code.accesses version items
    = g.transfers.map (·.madeBy side) ++ Code.accesses version accessors
  moves : Code.moves items = GroupLayout.moves side ++ Code.moves accessors
  size : g.sizeLine ∈ Code.leaves items

namespace Codec

open Code (EndsInBlock EndsWith IsCodec IsCutFrom)

theorem endsInBlock_groupCodec (side : Side) (g : GroupLayout) : EndsInBlock (groupCodec side g) := by
  cases side with
  | encode => exact (((EndsWith.self.append _).spaced [_, _, _, _]).inherentImpl _ _).spaced [_, _, _, _]
  | decode => exact (((EndsWith.self.append _).spaced [_, _, _, _]).inherentImpl _ _).spaced [_, _, _, _]

theorem isOpen_groupCodec (side : Side) (g : GroupLayout) (accessors : List Code) :
    (groupCodec side g accessors).all Code.isOpen := by
  cases side <;> rfl

/-- The codec of a group is one codec, behind comments. -/
theorem isCodec_groupCodec (side : Side) (g : GroupLayout) (accessors : List Code) :
    IsCodec (g.structName ++ side.suffix) ((groupCodec side g accessors).drop 2)
      (.blank :: groupCodec side g accessors) := by
  have hstructs := structs_groupCodec side g accessors
  cases side with
  | encode => exact .of_structs [_, _, _] rfl (Code.structs_cons_nested _ _ []) hstructs
  | decode => exact .of_structs [_, _, _] rfl (Code.structs_cons_nested _ _ []) hstructs

theorem sizeLine_mem_drop_groupCodec (side : Side) (g : GroupLayout) (accessors : List Code) :
    g.sizeLine ∈ Code.leaves ((groupCodec side g accessors).drop 2) := by
  unfold groupCodec
  cases side with
  | encode => simp [groupEncoder, GroupLayout.sizeLine]
  | decode => simp [groupDecoder, GroupLayout.sizeLine]

theorem isCodec_of_cut {side : Side} {g : GroupLayout} {accessors found : List Code}
    (h : IsCutFrom found ((groupCodec side g accessors).drop 2)) : g.IsCodec side accessors found := by
  have hcodec := isCodec_groupCodec side g accessors
  have hblank : [Code.blank].all Code.isOpen := rfl
  refine ⟨?_, fun version => ?_, ?_, h.leaves_subset (sizeLine_mem_drop_groupCodec side g accessors)⟩
  · rw [Code.lastBody?_of_cut hcodec h]
    exact ((endsInBlock_groupCodec side g).append [.blank]).lastBody accessors
  · rw [Code.accesses_of_cut hcodec (isOpen_groupCodec side g accessors) h]
    exact accesses_groupCodec version side g accessors
  · rw [Code.moves_of_cut hcodec h]
    exact moves_groupCodec side g accessors

namespace Message

theorem endsInBlock_encoder (codec : String) (withHeader : Bool) :
    EndsInBlock (encoder codec withHeader) := ((EndsWith.self.append _).block _).spaced [_, _, _]

theorem endsInBlock_decoder (blockType codec : String) (withHeader : Bool) :
    EndsInBlock (decoder blockType codec withHeader) :=
  ((EndsWith.self.append _).block _).spaced [_, _, _]

theorem isCodec_encoder (codec : String) (withHeader : Bool) (accessors : List Code) :
    IsCodec codec ((encoder codec withHeader accessors).drop 1) (encoder codec withHeader accessors) :=
  .of_structs [_] rfl (Code.structs_cons_borrowing _ _ []) (structs_encoder ..)

theorem isCodec_decoder (blockType codec : String) (withHeader : Bool) (accessors : List Code) :
    IsCodec codec ((decoder blockType codec withHeader accessors).drop 1)
      (decoder blockType codec withHeader accessors) :=
  .of_structs [_] rfl (Code.structs_cons_borrowing _ _ []) (structs_decoder ..)

/-- The first codec in the module of a side is the message's; its functions end with the accessors. -/
theorem codecs_sideItems (m : Message) (s : Schema) (withHeader : Bool) (side : Side)
    (accessors : List Code) {groups : List Code}
    (hgroups : (groups.takeWhile fun d => (Code.struct? d).isNone).all Code.isPlain) :
    ∃ own, Code.codecs (m.sideItems s withHeader side accessors groups)
        = (Name.type m.token.name ++ side.suffix, own) :: Code.codecs groups ∧
      ∃ functions, Code.lastBody? own = some functions ∧ accessors <:+ functions := by
  have hdocs : (Code.text "use super::*;" :: .blank ::
      m.token.description.toList.map Code.doc).all Code.isPlain := by
    cases m.token.description <;> rfl
  obtain ⟨codec, hcodec⟩ : ∃ codec, codec = Name.type m.token.name ++ side.suffix := ⟨_, rfl⟩
  have hmain {items main : List Code} (h : IsCodec codec items main)
      (hbody : ∃ functions, Code.lastBody? main = some functions ∧ accessors <:+ functions) :
      ∃ own, Code.codecs (Code.spaced [["use super::*;"],
          m.token.description.toList.map .doc ++ main] ++ groups) = (codec, own) :: Code.codecs groups ∧
        ∃ functions, Code.lastBody? own = some functions ∧ accessors <:+ functions := by
    obtain ⟨own, hcodecs, hcut⟩ := (h.plain_append hdocs).codecs_append hgroups
    refine ⟨own, ?_, ?_⟩
    · rw [Code.spaced_cons_cons, Code.spaced_singleton]
      exact hcodecs
    · rwa [Code.lastBody?_of_cut h hcut]
  unfold sideItems
  rw [← hcodec]
  cases side with
  | encode => exact hmain (isCodec_encoder ..) ((endsInBlock_encoder ..).lastBody accessors)
  | decode => exact hmain (isCodec_decoder ..) ((endsInBlock_decoder ..).lastBody accessors)

end Message
end Codec
end WireCodec

import Mathlib
import WireCodec.Proofs.Access
import WireCodec.Proofs.Generator
/-! # The structs of a message

On either side the codecs of a message and of its groups are the structs of one module, which takes
the groups of all depths in one row.  A struct is named for its message or group alone, whatever holds
the group.  `Generator.structs_of_messageUnit` reads the names off the module: they are distinct
exactly if the names of the message and of its groups at every depth become distinct type names.  Where
they do not the message has code all the same: `Generator.fills_are_defined_twice` has two groups that
both hold a group of fills. -/

namespace WireCodec

open Codec (Side groupCodec groupCodecs)

namespace Code

/-! ### Structs and modules of code -/

/-- The name in the heading of a struct; parameters end the heading. -/
def structName? (heading : String) : Option String :=
  (heading.toList.dropPrefix? "pub struct ".toList).map fun rest =>
    String.ofList (rest.rdropWhile (· ≠ '<')).dropLast

/-- The struct that an item defines. -/
def struct? : Code → Option String
  | block [.text heading] _ _ => structName? heading
  | _ => none

/-- The structs that some items define, in their order. -/
def structs (items : List Code) : List String := items.filterMap struct?

/-- The items of a module of that name. -/
def module? (name : String) : Code → Option (List Code)
  | block [.text heading] items _ =>
    if heading = s!"pub mod {name} \x7b" then some items else none
  | _ => none

/-- The modules of that name among some items. -/
def modules (name : String) (items : List Code) : List (List Code) := items.filterMap (module? name)

theorem filterMap_spaced {α : Type} {f : Code → Option α} (hblank : f blank = none)
    (parts : List (List Code)) :
    (spaced parts).filterMap f = parts.flatMap (·.filterMap f) := by
  induction parts with
  | nil => rfl
  | cons part rest ih =>
      cases rest with
      | nil => simp
      | cons next rest =>
          rw [spaced_cons_cons, List.filterMap_append, List.filterMap_cons_none hblank, ih]
          rfl

@[simp] theorem structs_nil : structs [] = [] := rfl

@[simp] theorem structs_append (xs ys : List Code) : structs (xs ++ ys) = structs xs ++ structs ys :=
  List.filterMap_append

@[simp] theorem structs_spaced (parts : List (List Code)) :
    structs (spaced parts) = parts.flatMap structs :=
  filterMap_spaced rfl parts

theorem modules_spaced (name : String) (parts : List (List Code)) :
    modules name (spaced parts) = parts.flatMap (modules name) :=
  filterMap_spaced rfl parts

@[simp] theorem structs_cons_blank (items : List Code) : structs (blank :: items) = structs items := rfl

@[simp] theorem structs_cons_line (pieces : List Piece) (items : List Code) :
    structs (line pieces :: items) = structs items := rfl

@[simp] theorem structs_cons_doc (text : String) (items : List Code) :
    structs (doc text :: items) = structs items := rfl

@[simp] theorem structs_map_doc (docs : List String) : structs (docs.map doc) = [] := by
  induction docs with
  | nil => rfl
  | cons d docs ih => exact ih

@[simp] theorem modules_nil (name : String) : modules name [] = [] := rfl

@[simp] theorem modules_cons_line (name : String) (pieces : List Piece) (items : List Code) :
    modules name (line pieces :: items) = modules name items := rfl

/-! ### Headings -/

theorem rdropWhile_append {l : List Char} (first : List Char) (h : '<' ∉ l) :
    (first ++ '<' :: l).rdropWhile (· ≠ '<') = first ++ ['<'] := by
  induction l using List.reverseRecOn with
  | nil => simp
  | append_singleton l c ih =>
      rw [List.mem_append, List.mem_singleton, not_or] at h
      have hc : decide (c ≠ '<') = true := by simpa using Ne.symm h.2
      rw [← List.cons_append, ← List.append_assoc]
      exact (List.rdropWhile_concat_pos (· ≠ '<') _ c hc).trans (ih h.1)

theorem structName?_of_parameters {name parameters : String} (h : '<' ∉ parameters.toList) :
    structName? ("pub struct " ++ name ++ "<" ++ parameters) = some name := by
  have hlist : ("pub struct " ++ name ++ "<" ++ parameters).toList
      = "pub struct ".toList ++ (name.toList ++ '<' :: parameters.toList) := by
    simp [String.toList_append]
  have hrest : (("pub struct ".toList ++ (name.toList ++ '<' :: parameters.toList)).dropPrefix?
      "pub struct ".toList) = some (name.toList ++ '<' :: parameters.toList) :=
    List.dropPrefix?_eq_some_iff.mpr ⟨_, rfl, beq_self_eq_true _⟩
  rw [structName?, hlist, hrest, Option.map_some, rdropWhile_append _ h, List.dropLast_concat,
    String.ofList_toList]

theorem structName?_eq_none {heading : String} (h : heading.toList.head? = some 'i') :
    structName? heading = none := by
  obtain ⟨rest, hlist⟩ := List.head?_eq_some_iff.mp h
  rw [structName?, hlist]
  rfl

theorem structs_cons_struct {heading name parameters : String} (fields items : List Code)
    (hheading : heading ++ " \x7b" = "pub struct " ++ name ++ "<" ++ parameters)
    (h : '<' ∉ parameters.toList) :
    structs (braces heading fields :: items) = name :: structs items := by
  have hname : struct? (braces heading fields) = some name := by
    rw [braces, struct?, hheading]
    exact structName?_of_parameters h
  exact List.filterMap_cons_some hname

theorem structs_cons_nested (name : String) (fields items : List Code) :
    structs (braces s!"pub struct {name}<P>" fields :: items) = name :: structs items := by
  apply structs_cons_struct fields items _ (show '<' ∉ "P> \x7b".toList by decide)
  simp [String.append_assoc, toString]

theorem structs_cons_borrowing (name : String) (fields items : List Code) :
    structs (braces s!"pub struct {name}<'a>" fields :: items) = name :: structs items := by
  apply structs_cons_struct fields items _ (show '<' ∉ "'a> \x7b".toList by decide)
  simp [String.append_assoc, toString]

theorem structs_cons_impl {heading : String} (h : heading.toList.head? = some 'i')
    (functions items : List Code) :
    structs (braces heading functions :: items) = structs items := by
  have hnone : struct? (braces heading functions) = none := by
    apply structName?_eq_none
    rw [String.toList_append, List.head?_append, h, Option.some_or]
  exact List.filterMap_cons_none hnone

end Code

/-! ### Codecs -/

namespace Codec

open Code (structs)

@[simp] theorem structs_nestedImpl (heading bound : String) (functions : List Code) :
    structs (nestedImpl heading bound functions) = [] := rfl

@[simp] theorem structs_linkImpls (codec : String) (side : Side) :
    structs (linkImpls codec side) = [] := by
  cases side <;> simp only [linkImpls, forwardingImpl, Code.structs_spaced, List.flatMap_cons,
    List.flatMap_nil, structs_nestedImpl, List.append_nil]

@[simp] theorem structs_defaultImpl (codec : String) (fields : List (String × String)) :
    structs (defaultImpl codec fields) = [] :=
  Code.structs_cons_impl (by simp [toString]) _ []

@[simp] theorem structs_limitImpl (codec trait : String) :
    structs (Message.limitImpl codec trait) = [] :=
  Code.structs_cons_impl (by simp [toString]) _ []

theorem structs_groupCodec (side : Side) (g : GroupLayout) (accessors : List Code) :
    structs (groupCodec side g accessors) = [g.structName ++ side.suffix] := by
  have himpl (codec : String) : (s!"impl<P> {codec}<P>").toList.head? = some 'i' := by
    simp [toString]
  cases side with
  | encode =>
      rw [groupCodec, groupEncoder, Code.structs_spaced]
      simp only [List.flatMap_cons, List.flatMap_nil, Code.structs_cons_doc, Code.structs_cons_line,
        Code.structs_cons_nested, Code.structs_nil, structs_defaultImpl, structs_linkImpls,
        Code.structs_cons_impl (himpl _), inherentImpl, structs_nestedImpl]
      rfl
  | decode =>
      rw [groupCodec, groupDecoder, Code.structs_spaced]
      simp only [List.flatMap_cons, List.flatMap_nil, Code.structs_cons_doc, Code.structs_cons_line,
        Code.structs_cons_nested, Code.structs_nil, structs_defaultImpl, structs_linkImpls,
        Code.structs_cons_impl (himpl _), inherentImpl, structs_nestedImpl]
      rfl

theorem structs_encoder (codec : String) (withHeader : Bool) (accessors : List Code) :
    structs (Message.encoder codec withHeader accessors) = [codec] := by
  have hwriter : (s!"impl<'a> Writer<'a> for {codec}<'a>").toList.head? = some 'i' := by
    simp [toString]
  have himpl : (s!"impl<'a> {codec}<'a>").toList.head? = some 'i' := by simp [toString]
  rw [Message.encoder, Code.structs_spaced]
  simp only [List.flatMap_cons, List.flatMap_nil, Code.structs_cons_line,
    Code.structs_cons_borrowing, Code.structs_nil, Code.structs_cons_impl hwriter,
    Code.structs_cons_impl himpl, structs_limitImpl]
  rfl

theorem structs_decoder (blockType codec : String) (withHeader : Bool) (accessors : List Code) :
    structs (Message.decoder blockType codec withHeader accessors) = [codec] := by
  have hreader : (s!"impl<'a> Reader<'a> for {codec}<'a>").toList.head? = some 'i' := by
    simp [toString]
  have himpl : (s!"impl<'a> {codec}<'a>").toList.head? = some 'i' := by simp [toString]
  rw [Message.decoder, Code.structs_spaced]
  simp only [List.flatMap_cons, List.flatMap_nil, Code.structs_cons_line,
    Code.structs_cons_borrowing, Code.structs_nil, Code.structs_cons_impl hreader,
    Code.structs_cons_impl himpl, structs_limitImpl]
  rfl

/-- The codecs of the groups of a body are structs named for the groups, at every depth. -/
theorem structs_groupCodecs {side : Side} : ∀ {body : Body} {enclosing : Nat} {code : List Code},
    groupCodecs side enclosing body = .ok code →
    structs code = body.groupBlocks.map fun b => Name.type b.owner ++ side.suffix
  | [], _, _, h => by
      rw [groupCodecs] at h
      cases h
      simp [Body.groupBlocks]
  | .group head members :: rest, enclosing, code, h => by
      simp only [groupCodecs, bind_eq_ok, pure_eq_ok] at h
      obtain ⟨g, hg, accessors, _, nested, hnested, others, hothers, rfl⟩ := h
      have hname : g.structName = Name.type head.token.name := by
        obtain ⟨_, _, _, _, _, _, _, rfl⟩ := GroupHead.layout_eq_ok.mp hg
        rfl
      rw [Code.structs_cons_blank, Code.structs_append, Code.structs_append, structs_groupCodec,
        structs_groupCodecs hnested, structs_groupCodecs hothers, hname, Body.groupBlocks,
        List.map_cons, List.map_append, List.append_assoc, List.singleton_append]
  | .field _ :: rest, _, _, h => by
      rw [groupCodecs_field] at h
      rw [Body.groupBlocks, structs_groupCodecs h]
  | .varData _ :: rest, _, _, h => by
      rw [groupCodecs_varData] at h
      rw [Body.groupBlocks, structs_groupCodecs h]

/-! ### Messages -/

namespace Message
variable {m : Message} {s : Schema} {r : Registry} {code : List Code}

/-- The structs of a side: the message's codec and those of its groups. -/
def structNames (m : Message) (side : Side) : List String :=
  m.blocks.map fun b => Name.type b.owner ++ side.suffix

/-- Suffixes do not tell structs of one side apart. -/
theorem nodup_structNames_iff (m : Message) (side : Side) :
    (m.structNames side).Nodup
      ↔ m.blocks.Pairwise fun b c => Name.type b.owner ≠ Name.type c.owner := by
  unfold structNames
  rw [List.Nodup, List.pairwise_map]
  simp

/-- The items of the module of a side: the message's codec and then those of its groups. -/
def sideItems (m : Message) (s : Schema) (withHeader : Bool) (side : Side)
    (accessors groups : List Code) : List Code :=
  let codec := Name.type m.token.name ++ side.suffix
  let main := match side with
    | .encode => encoder codec withHeader accessors
    | .decode => decoder s.header.blockLength.typeName codec withHeader accessors
  Code.spaced [["use super::*;"], m.token.description.toList.map .doc ++ main] ++ groups

theorem sideModule_eq_ok {withHeader : Bool} {side : Side} :
    m.sideModule s withHeader side = .ok code ↔ ∃ accessors groups,
      bodyAccessors side m.token.name m.body m.token.encodedLength.toNat m.token.version
        = .ok accessors ∧ groupCodecs side m.token.version m.body = .ok groups ∧
      code = [Code.braces s!"pub mod {side.module}" (m.sideItems s withHeader side accessors groups)] := by
  simp only [sideModule, bind_eq_ok, pure_eq_ok]
  constructor
  · rintro ⟨accessors, haccessors, groups, hgroups, rfl⟩
    exact ⟨accessors, groups, haccessors, hgroups, rfl⟩
  · rintro ⟨accessors, groups, haccessors, hgroups, rfl⟩
    exact ⟨accessors, haccessors, groups, hgroups, rfl⟩

theorem modules_side (side other : Side) (items : List Code) :
    Code.modules side.module [Code.braces s!"pub mod {other.module}" items]
      = if other = side then [items] else [] := by
  cases side <;> cases other <;> rfl

theorem modules_constants (name : String) (s : Schema) (t : Token) :
    Code.modules name (constants s t) = [] := rfl

/-- The code of a message has one module for a side. -/
theorem modules_of_code (h : m.code s r = .ok code) (side : Side) : ∃ accessors groups,
    bodyAccessors side m.token.name m.body m.token.encodedLength.toNat m.token.version
      = .ok accessors ∧ groupCodecs side m.token.version m.body = .ok groups ∧
    Code.modules side.module code = [m.sideItems s (hasHeader s r) side accessors groups] := by
  rw [Message.code_eq, Message.tree] at h
  split at h
  · cases h
  · simp only [bind_eq_ok, pure_eq_ok, Side.all, List.mapM_cons, List.mapM_nil] at h
    obtain ⟨_, ⟨encoder, hencoder, _, ⟨decoder, hdecoder, _, rfl, rfl⟩, rfl⟩, rfl⟩ := h
    obtain ⟨setters, encoders, hsetters, hencoders, rfl⟩ := sideModule_eq_ok.mp hencoder
    obtain ⟨getters, decoders, hgetters, hdecoders, rfl⟩ := sideModule_eq_ok.mp hdecoder
    have hmodules (encoders decoders : List Code) : Code.modules side.module (Code.spaced
        ([[Code.text "use super::*;"], constants s m.token]
          ++ [[Code.braces s!"pub mod {Side.encode.module}" encoders],
            [Code.braces s!"pub mod {Side.decode.module}" decoders]]
          ++ [[Code.text "pub use decoder::*;", Code.text "pub use encoder::*;"]]))
        = (if .encode = side then [encoders] else [])
          ++ if .decode = side then [decoders] else [] := by
      rw [Code.modules_spaced, List.flatMap_append, List.flatMap_append, ← modules_side,
        ← modules_side]
      simp only [List.flatMap_cons, List.flatMap_nil, modules_constants, Code.text,
        Code.modules_cons_line, Code.modules_nil, List.nil_append, List.append_nil]
    cases side with
    | encode => exact ⟨setters, encoders, hsetters, hencoders, hmodules _ _⟩
    | decode => exact ⟨getters, decoders, hgetters, hdecoders, hmodules _ _⟩

/-- The structs in the module of a side are the codecs of the message and of its groups. -/
theorem structs_of_code (h : m.code s r = .ok code) (side : Side) :
    ∃ items, Code.modules side.module code = [items] ∧ structs items = m.structNames side := by
  obtain ⟨accessors, groups, -, hgroups, hmodules⟩ := modules_of_code h side
  refine ⟨_, hmodules, ?_⟩
  unfold sideItems
  rw [Code.structs_append, Code.structs_spaced, structs_groupCodecs hgroups]
  cases side <;> simp [structNames, blocks, structs_encoder, structs_decoder, Side.suffix]

end Message
end Codec

namespace Generator
variable {g : Generator} {m : Codec.Message} {u : CodeUnit}

theorem exists_module_of_messageUnit (h : g.messageUnit m = .ok u) (side : Side) :
    ∃ items, Code.modules side.module u.code = [items] ∧
      Code.structs items = m.structNames side :=
  Codec.Message.structs_of_code (code_of_messageUnit h) side

/-- Names that are not distinct show in the module. -/
theorem exists_module_of_repeated (h : g.messageUnit m = .ok u) (side : Side) {names : List String}
    (hnames : m.structNames side = names) (hrepeated : ¬ names.Nodup) :
    ∃ items, Code.modules side.module u.code = [items] ∧ Code.structs items = names ∧
      ¬ (Code.structs items).Nodup := by
  obtain ⟨items, hmodules, hstructs⟩ := exists_module_of_messageUnit h side
  have hitems : Code.structs items = names := hstructs.trans hnames
  refine ⟨items, hmodules, hitems, ?_⟩
  rw [hitems]
  exact hrepeated

/-- **The structs of a message.**  Where a message has code there is one module on either side.  It
defines one struct for the message and one for each of its groups, at every depth, and these are
distinct exactly if the names of the message and of the groups become distinct type names. -/
theorem structs_of_messageUnit (h : g.messageUnit m = .ok u) (side : Side) :
    ∃ items, Code.modules side.module u.code = [items] ∧
      Code.structs items = m.blocks.map (fun b => Name.type b.owner ++ side.suffix) ∧
      ((Code.structs items).Nodup
        ↔ m.blocks.Pairwise fun b c => Name.type b.owner ≠ Name.type c.owner) := by
  obtain ⟨items, hmodules, hstructs⟩ := exists_module_of_messageUnit h side
  refine ⟨items, hmodules, hstructs, ?_⟩
  rw [hstructs]
  exact m.nodup_structNames_iff side

end Generator

/-! ### Two sides of a book -/

namespace Book

def encoding (name : String) (offset : Int) (primitive : Primitive) : Token :=
  { signal := .encoding, name, offset, encodedLength := primitive.size
    encoding := { primitive := some primitive } }

def opening (name : String) (span : Nat) : Token :=
  { signal := .beginGroup, name, encodedLength := 0, span }

/-- A group of elements without fields. -/
def group (name : String) (inner : List Token) : List Token :=
  [opening name (inner.length + 6),
   { signal := .beginComposite, name := "groupSize", encodedLength := 3, span := 4 },
   encoding "blockLength" 0 .uint16, encoding "numInGroup" 2 .uint8,
   { signal := .endComposite, name := "groupSize" }]
  ++ inner ++ [{ signal := .endGroup, name }]

def token : Token := { signal := .beginMessage, name := "Book", id := 1, encodedLength := 0, span := 26 }

/-- Bids and asks, which hold a group each. -/
def schema (a b : String) : Schema where
  packageName := "demo"
  messages := [token :: (group "bids" (group a []) ++ group "asks" (group b [])
    ++ [{ signal := .endMessage, name := "Book" }])]

def member (name : String) (span : Nat) (members : Body) : Member :=
  .group ⟨opening name span, encoding "blockLength" 0 .uint16, encoding "numInGroup" 2 .uint8⟩ members

def message (a b : String) : Codec.Message :=
  ⟨token, [member "bids" 12 [member a 6 []], member "asks" 12 [member b 6 []]]⟩

def generator (a b : String) : Generator := ⟨schema a b, ⟨[]⟩, [message a b]⟩

theorem ofSchema_distinct :
    Generator.ofSchema (schema "fills" "quotes") = .ok (generator "fills" "quotes") := by cbv

theorem ofSchema_alike :
    Generator.ofSchema (schema "fills" "fills") = .ok (generator "fills" "fills") := by cbv

theorem exists_layout (name : String) (span : Nat) :
    ∃ g, (GroupHead.mk (opening name span) (encoding "blockLength" 0 .uint16)
      (encoding "numInGroup" 2 .uint8)).layout = .ok g :=
  ⟨_, GroupHead.layout_eq_ok.mpr ⟨Int.le_refl 0, _, _, _, rfl, rfl, rfl, rfl⟩⟩

/-- Whatever the groups are called, the message has code. -/
theorem exists_unit (a b : String) : ∃ u, (generator a b).messageUnit (message a b) = .ok u := by
  obtain ⟨bids, hbids⟩ := exists_layout "bids" 12
  obtain ⟨asks, hasks⟩ := exists_layout "asks" 12
  obtain ⟨first, hfirst⟩ := exists_layout a 6
  obtain ⟨second, hsecond⟩ := exists_layout b 6
  have hlength : ¬ token.encodedLength < 0 := by decide
  have hcheck (owner : String) (n : Nat) : Layout.checkBlock owner [] (some n) = .ok () :=
    Layout.checkBlock_eq_ok_iff.mpr ⟨.nil, List.forall_mem_nil _⟩
  simp only [generator, message, member, Generator.messageUnit, Codec.Message.render, hlength, if_false,
    Side.all, List.mapM_cons, List.mapM_nil, Codec.Message.renderSide, Codec.emitBody,
    Codec.blockLayouts, Body.fields, Body.groups, Body.varData, List.filterMap_cons,
    List.filterMap_nil, Codec.renderGroups, Codec.renderGroup, hbids, hasks, hfirst, hsecond, hcheck,
    pure_bind]
  exact ⟨_, rfl⟩

end Book

/-- Names of different structs. -/
theorem Generator.structs_of_messageUnit_book :
    ∃ u, Generator.ofSchema (Book.schema "fills" "quotes") = .ok (Book.generator "fills" "quotes") ∧
      (Book.generator "fills" "quotes").messageUnit (Book.message "fills" "quotes") = .ok u ∧
      ∃ items, Code.modules "encoder" u.code = [items] ∧ Code.structs items
        = ["BookEncoder", "BidsEncoder", "FillsEncoder", "AsksEncoder", "QuotesEncoder"] ∧
        (Book.message "fills" "quotes").blocks.Pairwise
          fun b c => Name.type b.owner ≠ Name.type c.owner := by
  obtain ⟨u, hu⟩ := Book.exists_unit "fills" "quotes"
  obtain ⟨items, hmodules, hstructs, hnodup⟩ := structs_of_messageUnit hu .encode
  have hnames : Code.structs items
      = ["BookEncoder", "BidsEncoder", "FillsEncoder", "AsksEncoder", "QuotesEncoder"] :=
    hstructs.trans (by cbv)
  refine ⟨u, Book.ofSchema_distinct, hu, items, hmodules, hnames, ?_⟩
  apply hnodup.mp
  rw [hnames]
  decide

/-- Both sides of a book hold a group of fills.  The message has code, and its modules define the
struct of the fills twice. -/
theorem Generator.fills_are_defined_twice :
    ∃ u, Generator.ofSchema (Book.schema "fills" "fills") = .ok (Book.generator "fills" "fills") ∧
      (Book.generator "fills" "fills").messageUnit (Book.message "fills" "fills") = .ok u ∧
      (∃ items, Code.modules "encoder" u.code = [items] ∧ Code.structs items
        = ["BookEncoder", "BidsEncoder", "FillsEncoder", "AsksEncoder", "FillsEncoder"] ∧
        ¬ (Code.structs items).Nodup) ∧
      ∃ items, Code.modules "decoder" u.code = [items] ∧ Code.structs items
        = ["BookDecoder", "BidsDecoder", "FillsDecoder", "AsksDecoder", "FillsDecoder"] ∧
        ¬ (Code.structs items).Nodup := by
  obtain ⟨u, hu⟩ := Book.exists_unit "fills" "fills"
  refine ⟨u, Book.ofSchema_alike, hu, ?_, ?_⟩
  · apply exists_module_of_repeated hu .encode
    · cbv
    · decide
  · apply exists_module_of_repeated hu .decode
    · cbv
    · decide

end WireCodec

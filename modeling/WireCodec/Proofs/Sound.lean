import WireCodec.Proofs.Outline
import WireCodec.Proofs.Registered
/-! # Definitions can be generated

The schema of a definition passes every check of the generator: its registry can be ordered, its
messages have members, and the fields of each block follow each other.  All that can keep its units
from being generated is a text that is no literal of its type, or that names no character encoding
(`units_of_schema`). -/

namespace WireCodec.Definition

variable {types : List NamedType}

/-! ### Units of types -/

theorem simpleRun_mem {opening closing : Signal} {p : Position} {length : Nat} {encoding : Encoding}
    {members : List Token} {u : Token} {signal : Signal}
    (h : u ∈ simpleRun opening closing p length encoding members) (hu : u.signal = signal)
    (hopening : opening ≠ signal) (hclosing : closing ≠ signal) : u ∈ members := by
  unfold simpleRun wrap at h
  rw [List.mem_cons, List.mem_append, List.mem_singleton] at h
  rcases h with rfl | h | rfl
  · exact absurd hu hopening
  · exact h
  · exact absurd hu hclosing

theorem Enumeration.onlyText_ofType {e : Enumeration} {p : Position} {first : Token}
    {inner : List Token} {n : Nat} (h : e.tokens p = .ok (first :: inner, n)) :
    OnlyText (Codec.Enumeration.ofType (Registry.defined .enumeration first (first :: inner)) first) := by
  obtain ⟨hvalues, _, hrun⟩ := Enumeration.tokens_eq_ok h
  have hp : first.primitive = .ok e.primitive := by
    obtain ⟨rfl, _⟩ := List.cons.inj hrun
    rfl
  refine Codec.Enumeration.onlyText_ofType hp ?_ ?_
  · intro u hu hsignal
    have hu' : u ∈ first :: inner := hu
    rw [hrun] at hu'
    have hmember := simpleRun_mem hu' hsignal (by decide) (by decide)
    obtain ⟨⟨_, _⟩, _, rfl⟩ := List.mem_map.mp hmember
    rfl
  · obtain ⟨⟨name, literal⟩, values, hcons⟩ := List.exists_cons_of_ne_nil hvalues
    refine ⟨memberToken .validValue p e.primitive name literal, ?_, rfl⟩
    change _ ∈ first :: inner
    rw [hrun, hcons]
    exact List.mem_cons_of_mem _ (List.mem_append_left _ List.mem_cons_self)

theorem BitSet.onlyText_ofType {s : BitSet} {p : Position} {first : Token}
    {inner : List Token} {n : Nat} (h : s.tokens p = (first :: inner, n)) :
    OnlyText (Codec.BitSet.ofType (Registry.defined .bitSet first (first :: inner)) first) := by
  obtain ⟨hrun, rfl⟩ := Prod.mk.inj h
  have hp : first.primitive = .ok s.primitive := by
    obtain ⟨rfl, _⟩ := List.cons.inj hrun
    rfl
  refine Codec.BitSet.onlyText_ofType hp ?_
  intro u hu hsignal
  have hu' : u ∈ first :: inner := hu
  rw [← hrun] at hu'
  have hmember := simpleRun_mem hu' hsignal (by decide) (by decide)
  obtain ⟨⟨_, _⟩, _, rfl⟩ := List.mem_map.mp hmember
  rfl

theorem Composite.onlyText_ofType (made : ∀ t ∈ types, ∀ e ∈ t.elements, e.Made) {c : Composite}
    {p : Position} {first : Token} {inner : List Token} {n : Nat}
    (hc : ∀ m ∈ c.members, ∀ e ∈ m.2.elements, e.Made)
    (run : Run types (.composite c) p (first :: inner) n) (hn : n < 2 ^ 31) :
    OnlyText (Codec.Composite.ofType (Registry.defined .composite first (first :: inner)) first) := by
  have hlength : first.encodedLength.toNat = n := by
    obtain ⟨_, _, hcons, _, hstarts⟩ := run.starts
    obtain ⟨rfl, rfl⟩ := List.cons.inj hcons
    rw [hstarts.encodedLength, wrap32_of_lt hn, Int.toNat_natCast]
  generalize htokens : first :: inner = tokens at run
  cases run with
  | leaf placed => cases placed
  | @composite _ _ inner' _ nested =>
      obtain ⟨fields, hreads, habut⟩ := nested.abut made hc (by omega)
      have hencloses : Body.Encloses .beginComposite (compositeRun p inner' n) _ (fields.map .field) :=
        encloses_wrap rfl hreads
      have hbody : Body.ofComposite (compositeRun p inner' n) = .ok (fields.map .field) :=
        Body.ofComposite_eq_ok_iff.mpr ⟨⟨_, hencloses⟩, Body.isVariable_map_field fields⟩
      refine OnlyText.bind ?_ fun _ _ => onlyText_ok _
      refine Codec.Composite.onlyText_membersOf hbody ?_
      rwa [hlength, Body.fields_map_field]

/-- The unit of a registered type can be made, up to its texts. -/
theorem Registrable.onlyText_typeUnit (made : ∀ t ∈ types, ∀ e ∈ t.elements, e.Made)
    {u : WireCodec.NamedType} (h : Registrable types u) : OnlyText (Generator.typeUnit u) := by
  obtain ⟨t, hfind, hdefines⟩ := h
  have helements := made t (List.mem_of_find?_eq_some hfind)
  cases hdefines with
  | @intro p first inner kind n kind_eq name_eq run short =>
      unfold Generator.typeUnit
      cases t with
      | element e => cases kind_eq
      | enumeration e =>
          cases kind_eq
          cases run with
          | leaf placed => exact (e.onlyText_ofType placed).bind fun _ _ => onlyText_ok _
      | bitSet s =>
          cases kind_eq
          cases run with
          | leaf placed => exact (s.onlyText_ofType (Except.ok.inj placed)).bind fun _ _ => onlyText_ok _
      | composite c =>
          cases kind_eq
          have hc : ∀ m ∈ c.members, ∀ e ∈ m.2.elements, e.Made :=
            fun m hm e he => helements e (List.mem_flatMap.mpr ⟨m, hm, he⟩)
          refine (Composite.onlyText_ofType made hc run short).bind fun composite _ => ?_
          exact composite.onlyText_render.bind fun _ _ => onlyText_ok _

/-! ### Units of messages -/

theorem Message.onlyText_render (made : ∀ t ∈ types, ∀ e ∈ t.elements, e.Made) {m : Message}
    {run : List Token} (sound : ∀ fields ∈ m.fieldLists, IsSound types fields)
    (h : m.tokens types = .ok run) :
    ∃ token body, Body.ofMessage run = .ok (token, body) ∧
      ∀ s r, OnlyText (Codec.Message.render ⟨token, body⟩ s r) := by
  obtain ⟨fieldTs, n, span, body, hfieldTs, hbody, hcontent⟩ := Message.content_of_tokens h
  have own := sound m.fields List.mem_cons_self
  have hn := own.short _ _ hfieldTs
  have habut := hcontent.abut made own.made (by omega)
  have hgenerates := hcontent.generates made fun fields hfields =>
    sound fields (List.mem_cons_of_mem _ hfields)
  have hlength : (m.opening n).encodedLength = n := by
    simp only [Message.opening, wrap32_of_lt hn]
  refine ⟨_, body, hbody, Codec.Message.onlyText_render ?_ ?_ hgenerates⟩
  · dsimp only
    omega
  · dsimp only
    rwa [hlength, Int.toNat_natCast]

theorem messages_isOk {d : Definition} {s : Schema} (h : d.schema = .ok s) (built : d.IsBuilt)
    (short : d.IsShort) :
    ∃ messages, (s.messages.mapM fun tokens => do
        let (token, body) ← Body.ofMessage tokens
        return ({ token, body } : Codec.Message)) = .ok messages ∧
      ∀ m ∈ messages, ∀ s r, OnlyText (Codec.Message.render m s r) := by
  obtain ⟨messages, hmessages, hcode⟩ := mapM_isOk_of_forall₂
    (f := fun tokens => do
      let (token, body) ← Body.ofMessage tokens
      return ({ token, body } : Codec.Message))
    (P := fun _ (m : Codec.Message) => ∀ s r, OnlyText (m.render s r))
    (mapM_eq_ok.mp (schema_eq_ok h).2) fun m hm run hrun => by
      obtain ⟨token, body, hbody, hcode⟩ :=
        Message.onlyText_render built.allTypes (built.isSound short hm) hrun
      refine ⟨⟨token, body⟩, ?_, hcode⟩
      dsimp only
      rw [hbody]
      rfl
  exact ⟨messages, hmessages, forall_of_forall₂ hcode⟩

/-- **Definitions can be generated.** A definition that can be laid out, within lengths that can be
stated, has a generator; and only for the sake of a text can its units fail, however they are
printed. -/
theorem units_of_schema {d : Definition} {s : Schema} (h : d.schema = .ok s) (built : d.IsBuilt)
    (short : d.IsShort) :
    ∃ g, Generator.ofSchema s = .ok g ∧
      ∀ c e, g.units c = .error e → e.isText ∧ e.isStructural = false := by
  obtain ⟨r, hr, hregistrable⟩ := registry_isOk h built short
  obtain ⟨messages, hmessages, hcode⟩ := messages_isOk h built short
  refine ⟨⟨s, r, messages⟩, ?_, fun c e he => ?_⟩
  · unfold Generator.ofSchema
    rw [hr]
    exact map_eq_ok.mpr ⟨messages, hmessages, rfl⟩
  · have hunits : OnlyText (Generator.units ⟨s, r, messages⟩ c) := by
      refine OnlyText.bind ?_ fun _ _ => onlyText_ok _
      refine (onlyText_mapM fun u hu => ?_).bind fun _ _ => ?_
      · exact (hregistrable u hu).onlyText_typeUnit built.allTypes
      refine (onlyText_mapM fun m hm => ?_).bind fun _ _ => onlyText_ok _
      exact (hcode m hm s r).bind fun _ _ => onlyText_ok _
    exact ⟨hunits e he, Fault.isStructural_of_isText (hunits e he)⟩

namespace Order

theorem isBuilt : definition.IsBuilt := by
  constructor
  · intro t ht e he
    simp only [definition, List.mem_cons, List.not_mem_nil, or_false] at ht
    rcases ht with rfl | rfl
    · simp only [price, NamedType.elements, List.flatMap_cons, Reference.elements, List.flatMap_nil,
        List.append_nil, List.mem_singleton] at he
      subst he
      exact .ofPrimitive _ _
    · cases he
  · intro m hm fields hfields f hf e he
    obtain rfl := List.mem_singleton.mp hm
    simp only [Message.fieldLists, groupFieldLists, Group.fieldLists, legs, List.append_nil,
      List.mem_cons, List.not_mem_nil, or_false] at hfields
    rcases hfields with rfl | rfl | rfl
    · simp only [List.mem_cons, List.not_mem_nil, or_false] at hf
      rcases hf with rfl | rfl
      · cases he
      · obtain rfl := List.mem_singleton.mp he
        exact .ofPrimitive _ _
    · obtain rfl := List.mem_singleton.mp hf
      cases he
    · obtain rfl := List.mem_singleton.mp hf
      cases he

theorem isShort : definition.IsShort := by
  constructor
  · intro t ht run n h
    have htypes : definition.allTypes = [.composite header, price, side] := by decide
    rw [htypes] at ht h
    simp only [List.mem_cons, List.not_mem_nil, or_false] at ht
    rcases ht with rfl | rfl | rfl <;> cases h <;> decide
  · intro m hm fields hfields run n h
    obtain rfl := List.mem_singleton.mp hm
    simp only [Message.fieldLists, groupFieldLists, Group.fieldLists, legs, List.append_nil,
      List.mem_cons, List.not_mem_nil, or_false] at hfields
    rcases hfields with rfl | rfl | rfl <;> cases h <;> decide

end Order

/-- The codecs of an order can be generated. -/
theorem units_of_schema_order :
    ∃ s g, Order.definition.schema = .ok s ∧ Generator.ofSchema s = .ok g ∧
      ∀ c e, g.units c = .error e → e.isText ∧ e.isStructural = false := by
  obtain ⟨s, hs⟩ : ∃ s, Order.definition.schema = .ok s := ⟨_, rfl⟩
  obtain ⟨g, hg, hunits⟩ := units_of_schema hs Order.isBuilt Order.isShort
  exact ⟨s, g, hs, hg, hunits⟩

end WireCodec.Definition

import WireCodec.Codec.Units
import WireCodec.Proofs.Trees.Message
import WireCodec.Proofs.Trees.Root
import WireCodec.Proofs.Trees.Table
import WireCodec.Proofs.Writer
/-! # The trees of units

The code of a unit is the tree that its calls can be read as: those of every unit of a schema can be
(`Generator.isRead_of_modules`), and those of the root (`Generator.ofCalls?_renderRoot`).  So the units
are printed trees (`CodeUnit.print_eq`, `Generator.written_renderRoot`). -/

namespace WireCodec

/-- The code of a unit, as it is written. -/
def CodeUnit.code (u : CodeUnit) : List Code := Code.ofCalls u.calls

/-- The calls of the unit can be read as a tree. -/
def CodeUnit.IsRead (u : CodeUnit) : Prop := Code.ofCalls? u.calls = some u.code

theorem Code.Reads.isRead {u : CodeUnit} {tree : List Code} (h : Code.Reads u.calls tree) : u.IsRead := by
  rw [CodeUnit.IsRead, h.ofCalls?, CodeUnit.code, h.ofCalls]

theorem CodeUnit.print_eq {u : CodeUnit} (h : u.IsRead) (style : Style) :
    u.print style = ⟨u.entry.module, u.entry.kind, Code.source style u.code⟩ := by
  rw [print, Code.written_of_ofCalls? h]

namespace Generator

theorem isRead_of_typeUnit {t : NamedType} {u : CodeUnit} (h : typeUnit t = .ok u) : u.IsRead := by
  unfold typeUnit at h
  dsimp only at h
  split at h
  · obtain ⟨e, _, h⟩ := bind_eq_ok.mp h
    cases h
    exact e.reads_render.isRead
  · obtain ⟨s, _, h⟩ := bind_eq_ok.mp h
    cases h
    exact s.reads_render.isRead
  · simp only [bind_eq_ok, pure_eq_ok] at h
    obtain ⟨c, _, calls, hcalls, rfl⟩ := h
    obtain ⟨tree, _, hreads⟩ := c.alike_tree.exists_of_ok hcalls
    exact hreads.isRead

theorem isRead_of_messageUnit {g : Generator} {m : Codec.Message} {u : CodeUnit}
    (h : g.messageUnit m = .ok u) : u.IsRead := by
  simp only [messageUnit, bind_eq_ok, pure_eq_ok] at h
  obtain ⟨calls, hcalls, rfl⟩ := h
  obtain ⟨tree, _, hreads⟩ := (m.alike_tree g.schema g.registry).exists_of_ok hcalls
  exact hreads.isRead

theorem code_of_messageUnit {g : Generator} {m : Codec.Message} {u : CodeUnit}
    (h : g.messageUnit m = .ok u) : m.code g.schema g.registry = .ok u.code := by
  simp only [messageUnit, bind_eq_ok, pure_eq_ok] at h
  obtain ⟨calls, hcalls, rfl⟩ := h
  exact Codec.Message.code_of_render hcalls

theorem isRead_of_modules {g : Generator} {us : List CodeUnit} (h : g.modules = .ok us) :
    ∀ u ∈ us, u.IsRead := by
  simp only [modules, bind_eq_ok, pure_eq_ok] at h
  obtain ⟨types, htypes, messages, hmessages, rfl⟩ := h
  rw [List.forall_mem_append]
  constructor
  · intro u hu
    obtain ⟨t, _, ht⟩ := exists_of_mapM_eq_ok htypes hu
    exact isRead_of_typeUnit ht
  · intro u hu
    obtain ⟨m, _, hm⟩ := exists_of_mapM_eq_ok hmessages hu
    exact isRead_of_messageUnit hm

/-- The root as a tree. -/
def rootTree (s : Schema) (c : Configuration) (units : List CodeUnit) : List Code :=
  match c.arrangement with
  | .moduleFiles => Codec.declaringRoot s (units.map (·.entry))
  | .singleFile =>
    Codec.containingRoot s (units.map fun u => (u.entry, (u.print c.style).source))

theorem ofCalls?_renderRoot (s : Schema) (c : Configuration) (units : List CodeUnit) :
    Code.ofCalls? (renderRoot s c units) = some (rootTree s c units) := by
  obtain ⟨style, arrangement⟩ := c
  cases arrangement with
  | moduleFiles => exact (Codec.reads_declaringRoot s _).ofCalls?
  | singleFile => exact (Codec.reads_containingRoot s _).ofCalls?

theorem written_renderRoot (s : Schema) (c : Configuration) (units : List CodeUnit) (style : Style) :
    Writer.written style (renderRoot s c units) = Code.source style (rootTree s c units) :=
  Code.written_of_ofCalls? (ofCalls?_renderRoot s c units)

end Generator
end WireCodec

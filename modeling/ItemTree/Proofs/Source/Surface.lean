import ItemTree.Proofs.Source.Layout

/-!
# What source text shows of an item

The surface of an item has what its syntax shows: of a leaf or a type the text of the literal and the parentheses, of
any other item only the kind, with its entries, slots and modifiers. A file is on the surface a block. Two items of one
surface have one layout (`Item.layout_surface`), so that their source is the same in every way to write it.
-/

namespace ItemTree

/-! ## surfaces -/

/-- the text of the literal and the parentheses; position, observers and variant of the literal are gone -/
def Header.surface (h : Header) : Header := { value := .string h.text, parenthesized := h.parenthesized }

def TypeRef.surface : TypeRef → TypeRef
  | bare h => bare h.surface
  | applied h e => applied h.surface e.surface

mutual
/-- what syntax shows of an item, at every depth -/
def Item.surface : Item → Item
  | .leaf h => .leaf h.surface
  | .complex _ es => .complex {} (entriesSurface es)
  | .file _ es _ => .complex {} (entriesSurface es)
  | .loop _ i c p b => .loop {} (slotSurface i) (slotSurface c) (slotSurface p) (slotSurface b)
  | .type t => .type t.surface
  | .property _ ms t n c => .property {} ms (t.map TypeRef.surface) (slotSurface n) (slotSurface c)
  | .parameter _ t n => .parameter {} (t.map TypeRef.surface) (slotSurface n)
def entriesSurface : List Item → List Item
  | [] => []
  | i :: is => i.surface :: entriesSurface is
def slotSurface : Option Item → Option Item
  | none => none
  | some i => some i.surface
end

@[simp] theorem isSome_slotSurface (o : Option Item) : (slotSurface o).isSome = o.isSome := by
  cases o <;> rfl

/-- a loop body has the same entries on the surface, be it a block, a file or one item -/
theorem bodyEntries_slotSurface (b : Option Item) : bodyEntries (slotSurface b) = entriesSurface (bodyEntries b) := by
  cases b with
  | none => rfl
  | some i => cases i <;> rfl

/-! ## layouts -/

theorem Header.layout_surface (h : Header) : h.surface.layout = h.layout := rfl

theorem TypeRef.layout_surface (t : TypeRef) : t.surface.layout = t.layout := by
  induction t with
  | bare h => exact h.layout_surface
  | applied h e ih => rw [surface, layout, layout, ih, h.layout_surface]

theorem typeLayout_surface (t : Option TypeRef) (spaced : Bool) :
    typeLayout (t.map TypeRef.surface) spaced = typeLayout t spaced := by
  cases t with
  | none => rfl
  | some t => simp only [Option.map_some, typeLayout, t.layout_surface]

section

variable {es : List Item} {o : Option Item}

theorem entriesLayout_surface (ih : ∀ e ∈ es, e.surface.layout = e.layout) :
    entriesLayout (entriesSurface es) = entriesLayout es := by
  induction es with
  | nil => rfl
  | cons e es hes =>
    have he := ih e List.mem_cons_self
    have hes := hes fun x hx => ih x (List.mem_cons_of_mem _ hx)
    rw [entriesSurface, entriesLayout, entriesLayout, he, hes]

theorem slotLayout_surface (ih : ∀ x ∈ o, x.surface.layout = x.layout) : slotLayout (slotSurface o) = slotLayout o := by
  cases o with
  | none => rfl
  | some i => rw [slotSurface, slotLayout, slotLayout, ih i rfl]

theorem contentLayout_surface (ih : ∀ x ∈ o, x.surface.layout = x.layout) :
    contentLayout (slotSurface o) = contentLayout o := by
  cases o with
  | none => rfl
  | some i => rw [slotSurface, contentLayout, contentLayout, ih i rfl]

end

/-- an item is laid out as its surface -/
theorem Item.layout_surface (i : Item) : i.surface.layout = i.layout := by
  induction i using Item.ind_body with
  | leaf h => exact h.layout_surface
  | complex h es ih => rw [surface, layout, layout, entriesLayout_surface ih]
  | file h es name ih => rw [surface, layout, layout, entriesLayout_surface ih]
  | loop h i c p b hi hc hp hb =>
    rw [surface, layout, layout, slotLayout_surface hi, slotLayout_surface hc, slotLayout_surface hp, bodyLayout_eq,
      bodyLayout_eq, bodyEntries_slotSurface, entriesLayout_surface hb]
  | bare h => exact h.layout_surface
  | applied h e ih => exact TypeRef.layout_surface _
  | property h ms t n c ht hn hc =>
    rw [surface, layout, layout, typeLayout_surface, slotLayout_surface hn, contentLayout_surface hc,
      isSome_slotSurface, Option.isSome_map]
  | parameter h t n ht hn =>
    rw [surface, layout, layout, typeLayout_surface, slotLayout_surface hn, isSome_slotSurface]

/-- **Source text depends only on what the syntax shows.** Two items of one surface have one source text under every
configuration, and they write the same at any level into any writer. The surface has no positions and observers, no
literals and parentheses of blocks, files, loops and declarations, no file names, and no difference between a file and
a block; of the literal of a leaf or a type it has the text alone. -/
theorem source_depends_on_surface {i j : Item} (h : i.surface = j.surface) (c : EmitConfig) :
    i.toSource c = j.toSource c ∧ ∀ level w, i.emit level w = j.emit level w := by
  have hlayout : i.layout = j.layout := by rw [← i.layout_surface, h, j.layout_surface]
  have hemit : ∀ level w, i.emit level w = j.emit level w := by
    intro level w
    rw [i.emits_layout, j.emits_layout, hlayout]
  refine ⟨?_, hemit⟩
  unfold Item.toSource
  rw [hemit]

/-- a loop over a file, and the same loop over a block -/
theorem source_depends_on_surface_loop :
    let name : Header := { value := .string "list", parenthesized := true }
    let entry : Item := .type (.applied name (.bare { value := .integer 1 }))
    let shown : Item := .type (.applied name (.bare { value := .string "1" }))
    let i : Item := .loop { position := ⟨7, 3⟩, value := .bool true, parenthesized := true, observers := ["a"] } none
      (some (.leaf { position := ⟨7, 8⟩, value := .bool true })) none
      (some (.file { value := .string "x", parenthesized := true } [entry] "main"))
    let j : Item := .loop {} none (some (.leaf { value := .string "true" })) none (some (.complex {} [shown]))
    let c : EmitConfig := { indent := "\t", trailingNewline := true }
    i.surface = j.surface ∧ i.toSource c = j.toSource c := by
  intro name entry shown i j c
  have h : i.surface = j.surface := rfl
  exact ⟨h, (source_depends_on_surface h c).1⟩

end ItemTree

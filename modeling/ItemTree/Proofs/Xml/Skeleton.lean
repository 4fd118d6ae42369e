import ItemTree.Error
import ItemTree.Proofs.Xml.Export

/-!
# What an export keeps

The skeleton of an item has the same kinds, entries, slots, file names and modifiers, and of every literal the text;
positions, parentheses, observers and the variants of literals are gone. An export keeps exactly the skeleton:

* `Item.toXml_skeleton`: the skeleton is exported as the item itself;
* `Node.decode?`: reads an item back from its node, by the names of kinds and modifiers;
* `Item.decode?_toXml`: what is read back is the skeleton.
-/

namespace ItemTree

/-! ## skeletons -/

/-- only the text of the literal is left -/
def Header.skeleton (h : Header) : Header := { value := .string h.text }

def TypeRef.skeleton : TypeRef → TypeRef
  | bare h => bare h.skeleton
  | applied h e => applied h.skeleton e.skeleton

mutual
/-- the item with skeletons of headers at every depth -/
def Item.skeleton : Item → Item
  | .leaf h => .leaf h.skeleton
  | .complex h es => .complex h.skeleton (entriesSkeleton es)
  | .file h es name => .file h.skeleton (entriesSkeleton es) name
  | .loop h i c p b =>
    .loop h.skeleton (slotSkeleton i) (slotSkeleton c) (slotSkeleton p) (slotSkeleton b)
  | .type t => .type t.skeleton
  | .property h ms t n c =>
    .property h.skeleton ms (t.map TypeRef.skeleton) (slotSkeleton n) (slotSkeleton c)
  | .parameter h t n => .parameter h.skeleton (t.map TypeRef.skeleton) (slotSkeleton n)
def entriesSkeleton : List Item → List Item
  | [] => []
  | i :: is => i.skeleton :: entriesSkeleton is
def slotSkeleton : Option Item → Option Item
  | none => none
  | some i => some i.skeleton
end

theorem entriesSkeleton_eq (es : List Item) : entriesSkeleton es = es.map Item.skeleton := by
  induction es with
  | nil => rfl
  | cons e es ih => rw [entriesSkeleton, ih, List.map_cons]

theorem slotSkeleton_type (t : Option TypeRef) :
    slotSkeleton (t.map .type) = (t.map TypeRef.skeleton).map .type := by
  cases t with
  | none => rfl
  | some t => rfl

@[simp] theorem Header.node_skeleton (h : Header) (k : Kind) : h.skeleton.node k = h.node k := rfl

theorem entries_toXml_skeleton {es : List Item} (ih : ∀ e ∈ es, e.skeleton.toXml = e.toXml) :
    (entriesSkeleton es).map Item.toXml = es.map Item.toXml := by
  rw [entriesSkeleton_eq, List.map_map]
  exact List.map_congr_left ih

theorem slotNode_skeleton {o : Option Item} (ih : ∀ x ∈ o, x.skeleton.toXml = x.toXml) (tag : String) :
    slotNode tag (slotSkeleton o) = slotNode tag o := by
  cases o with
  | none => rfl
  | some i => simp [slotSkeleton, slotNode, ih i rfl]

namespace Item

theorem toXml_skeleton (i : Item) : i.skeleton.toXml = i.toXml := by
  induction i using Item.ind with
  | leaf h => simp [skeleton]
  | complex h es ih => simp [skeleton, entries_toXml_skeleton ih]
  | file h es name ih => simp [skeleton, entries_toXml_skeleton ih]
  | loop h i c p b hi hc hp hb =>
    simp [skeleton, slotNode_skeleton hi, slotNode_skeleton hc, slotNode_skeleton hp, slotNode_skeleton hb]
  | bare h => simp [skeleton, TypeRef.skeleton]
  | applied h e ih =>
    rw [skeleton] at ih
    simp [skeleton, TypeRef.skeleton, ih]
  | property h ms t n c ht hn hc =>
    rw [skeleton, toXml_property, toXml_property, ← slotSkeleton_type, slotNode_skeleton ht, slotNode_skeleton hn,
      slotNode_skeleton hc, Header.node_skeleton]
  | parameter h t n ht hn =>
    rw [skeleton, toXml_parameter, toXml_parameter, ← slotSkeleton_type, slotNode_skeleton ht, slotNode_skeleton hn,
      Header.node_skeleton]

end Item

/-! ## reading an item back -/

/-- keywords with blanks between them -/
def decodeModifiers? (text : String) : Option (List Modifier) :=
  (text.toList.splitOn ' ').mapM fun word => (Modifier.ofName (String.ofList word)).toOption

/-- a slot for a type holds nothing else -/
def decodeType? : Option Item → Option (Option TypeRef)
  | none => some none
  | some (.type t) => some (some t)
  | some _ => none

/-- the modifiers of a declaration; without the attribute there are none -/
def modifiersOf? (as : Attributes) : Option (List Modifier) :=
  match as.lookup "Modifiers" with
  | none => some []
  | some text => decodeModifiers? text

def typeOf? (h : Header) : List Item → Option Item
  | [] => some (.type (.bare h))
  | [.type e] => some (.type (.applied h e))
  | _ => none

def loopOf? (h : Header) : List (Option Item) → Option Item
  | [i, c, p, b] => some (.loop h i c p b)
  | _ => none

def propertyOf? (h : Header) (ms : List Modifier) : List (Option Item) → Option Item
  | [t, n, c] => (decodeType? t).map fun t => .property h ms t n c
  | _ => none

/-- a parameter is a declaration with an empty slot for content -/
def parameterOf? (h : Header) : List (Option Item) → Option Item
  | [t, n, none] => (decodeType? t).map fun t => .parameter h t n
  | _ => none

/-- tags of the wrappers of a loop, in order -/
def loopSlots : List String := ["Initialization", "Condition", "Incrementation", "Content"]

/-- tags of the wrappers of a declaration, in order -/
def declarationSlots : List String := ["Type", "Name", "Content"]

mutual
/-- the skeleton of the item that was exported as a node -/
def Node.decode? : Node → Option Item
  | ⟨tag, as, children⟩ => do
    let k ← (Kind.ofName tag).toOption
    let text ← as.lookup "Value"
    let h : Header := { value := .string text }
    match k with
    | .item => if children.isEmpty then some (.leaf h) else none
    | .complexItem => return .complex h (← decodeEntries? children)
    | .file => return .file h (← decodeEntries? children) (← as.lookup "FileName")
    | .loop => loopOf? h (← decodeSlots? loopSlots children)
    | .type => typeOf? h (← decodeEntries? children)
    | .propertyDeclaration => propertyOf? h (← modifiersOf? as) (← decodeSlots? declarationSlots children)
    | .functionParameter => parameterOf? h (← decodeSlots? declarationSlots children)
/-- entries in order -/
def decodeEntries? : List Node → Option (List Item)
  | [] => some []
  | n :: ns => return (← n.decode?) :: (← decodeEntries? ns)
/-- wrappers with the given tags and without attributes, each with one item or nothing in it -/
def decodeSlots? : List String → List Node → Option (List (Option Item))
  | [], [] => some []
  | tag :: tags, ⟨t, [], []⟩ :: ns => if t = tag then return none :: (← decodeSlots? tags ns) else none
  | tag :: tags, ⟨t, [], [n]⟩ :: ns =>
    if t = tag then return some (← n.decode?) :: (← decodeSlots? tags ns) else none
  | _, _ => none
end

theorem Kind.ofName_name (k : Kind) : Kind.ofName k.name = .ok k := by
  cases k <;> rfl

theorem Modifier.ofName_name (m : Modifier) : Modifier.ofName m.name = .ok m := by
  cases m <;> rfl

theorem Modifier.blank_not_mem_name (m : Modifier) : ' ' ∉ m.name.toList := by
  cases m <;> decide

theorem decodeModifiers?_modifierText {ms : List Modifier} (h : ms ≠ []) :
    decodeModifiers? (modifierText ms) = some ms := by
  have hsplit : (modifierText ms).toList.splitOn ' ' = ms.map fun m => m.name.toList := by
    have hblank : " ".toList = [' '] := rfl
    rw [modifierText, String.toList_intercalate, hblank, List.map_map]
    apply List.splitOn_intercalate
    · intro l hl
      obtain ⟨m, _, rfl⟩ := List.mem_map.1 hl
      exact m.blank_not_mem_name
    · simpa using h
  rw [decodeModifiers?, hsplit, List.mapM_map]
  have hread : ((fun word => (Modifier.ofName (String.ofList word)).toOption) ∘ fun m : Modifier => m.name.toList) =
      pure := by
    funext m
    simp [Modifier.ofName_name, Except.toOption]
  rw [hread, List.mapM_pure, List.map_id']
  rfl

/-! ## what is read back -/

theorem decodeEntries?_map {es : List Item} (ih : ∀ e ∈ es, e.toXml.decode? = some e.skeleton) :
    decodeEntries? (es.map Item.toXml) = some (entriesSkeleton es) := by
  induction es with
  | nil => rfl
  | cons e es hes =>
    have he := ih e List.mem_cons_self
    have hes := hes fun x hx => ih x (List.mem_cons_of_mem _ hx)
    rw [List.map_cons, decodeEntries?, he, hes]
    rfl

theorem decodeSlots?_cons {o : Option Item} (ih : ∀ x ∈ o, x.toXml.decode? = some x.skeleton) (tag : String)
    (tags : List String) (ns : List Node) :
    decodeSlots? (tag :: tags) (slotNode tag o :: ns) = (decodeSlots? tags ns).map (slotSkeleton o :: ·) := by
  cases o with
  | none =>
    have hn : slotNode tag none = ⟨tag, [], []⟩ := rfl
    rw [hn, decodeSlots?, if_pos rfl]
    cases decodeSlots? tags ns <;> rfl
  | some i =>
    have hn : slotNode tag (some i) = ⟨tag, [], [i.toXml]⟩ := rfl
    rw [hn, decodeSlots?, if_pos rfl, ih i rfl]
    cases decodeSlots? tags ns <;> rfl

theorem decodeType?_slotSkeleton (t : Option TypeRef) :
    decodeType? (slotSkeleton (t.map .type)) = some (t.map TypeRef.skeleton) := by
  cases t with
  | none => rfl
  | some t => rfl

theorem modifiersOf?_withModifiers (ms : List Modifier) (h : Header) (k : Kind) :
    modifiersOf? (withModifiers ms (h.node k)).attributes = some ms := by
  cases ms with
  | nil => rfl
  | cons m ms =>
    have hl : (withModifiers (m :: ms) (h.node k)).attributes.lookup "Modifiers" = some (modifierText (m :: ms)) :=
      Attributes.lookup_insert _ _ _ _
    rw [modifiersOf?, hl]
    exact decodeModifiers?_modifierText (by simp)

theorem lookup_value_withModifiers (ms : List Modifier) (h : Header) (k : Kind) :
    (withModifiers ms (h.node k)).attributes.lookup "Value" = some h.text := by
  cases ms with
  | nil => rfl
  | cons m ms => exact Attributes.lookup_insert _ _ _ _

theorem tag_withModifiers (ms : List Modifier) (h : Header) (k : Kind) :
    (withModifiers ms (h.node k)).tag = k.name := by
  cases ms <;> rfl

theorem Header.node_eq (h : Header) (k : Kind) : h.node k = ⟨k.name, [("Value", h.text)], []⟩ := rfl

theorem Item.decode?_toXml (i : Item) : i.toXml.decode? = some i.skeleton := by
  have toOption : ∀ k : Kind, (Kind.ofName k.name).toOption = some k := by
    intro k
    rw [Kind.ofName_name]
    rfl
  induction i using Item.ind with
  | leaf h =>
    rw [toXml_leaf, Header.node_eq, Node.decode?, toOption]
    rfl
  | complex h es ih =>
    rw [toXml_complex, Header.node_eq, Node.decode?, toOption, decodeEntries?_map ih]
    rfl
  | file h es name ih =>
    rw [toXml_file, Header.node_eq, Node.set, Node.decode?, toOption, decodeEntries?_map ih]
    rw [Attributes.lookup_insert, Attributes.lookup_insert]
    rfl
  | loop h i c p b hi hc hp hb =>
    rw [toXml_loop, Header.node_eq, Node.decode?, toOption, loopSlots, decodeSlots?_cons hi, decodeSlots?_cons hc,
      decodeSlots?_cons hp, decodeSlots?_cons hb]
    rfl
  | bare h =>
    rw [toXml_bare, Header.node_eq, Node.decode?, toOption]
    rfl
  | applied h e ih =>
    have hc : decodeEntries? [(type e).toXml] = some [(type e).skeleton] := by
      rw [decodeEntries?, ih]
      rfl
    rw [toXml_applied, Header.node_eq, Node.push, Node.decode?, toOption, List.nil_append, hc]
    rfl
  | property h ms t n c ht hn hc =>
    have hs : decodeSlots? declarationSlots [slotNode "Type" (t.map type), slotNode "Name" n, slotNode "Content" c] =
        some [slotSkeleton (t.map type), slotSkeleton n, slotSkeleton c] := by
      rw [declarationSlots, decodeSlots?_cons ht, decodeSlots?_cons hn, decodeSlots?_cons hc]
      rfl
    rw [toXml_property, Node.decode?, tag_withModifiers, toOption, lookup_value_withModifiers,
      modifiersOf?_withModifiers, hs]
    show (decodeType? _).map _ = _
    rw [decodeType?_slotSkeleton]
    rfl
  | parameter h t n ht hn =>
    have hs : decodeSlots? declarationSlots
        [slotNode "Type" (t.map type), slotNode "Name" n, slotNode "Content" none] =
        some [slotSkeleton (t.map type), slotSkeleton n, none] := by
      rw [declarationSlots, decodeSlots?_cons ht, decodeSlots?_cons hn, decodeSlots?_cons (by simp)]
      rfl
    rw [toXml_parameter, Header.node_eq, Node.decode?, toOption, hs]
    show (decodeType? _).map _ = _
    rw [decodeType?_slotSkeleton]
    rfl

/-- **An export keeps exactly the skeleton.** The skeleton of an item is read back from its export, and two items
have the same export if and only if they have the same skeleton. -/
theorem export_keeps_skeleton :
    (∀ i : Item, i.toXml.decode? = some i.skeleton) ∧
    (∀ i j : Item, i.toXml = j.toXml ↔ i.skeleton = j.skeleton) := by
  refine ⟨Item.decode?_toXml, fun i j => ⟨fun h => ?_, fun h => ?_⟩⟩
  · have hi := i.decode?_toXml
    rw [h, j.decode?_toXml] at hi
    exact (Option.some.inj hi).symm
  · rw [← i.toXml_skeleton, h, j.toXml_skeleton]

end ItemTree

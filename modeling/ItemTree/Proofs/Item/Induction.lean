import ItemTree.Item.Basic

/-!
# Items below an item

An item nests other items in lists of entries and in slots. Types count as items here.

* `Item.ind`: induction with one hypothesis for every entry and for the item of every slot that is set;
* `Item.parts`: what stands directly below an item;
* `Item.ind_parts`: induction that does not look at the kinds of items;
* `Item.subitems`: an item and all that is below it, each item before its parts;
* `Item.Every`, `Item.Literals`: a condition on all of these, and on every text that is written literally.
-/

namespace ItemTree

variable {P : Item → Prop}

theorem TypeRef.ind (bare : ∀ h, P (.type (.bare h)))
    (applied : ∀ h e, P (.type e) → P (.type (.applied h e))) (t : TypeRef) : P (.type t) := by
  induction t with
  | bare h => exact bare h
  | applied h e ih => exact applied h e ih

/-- induction over an item with its entries, slots and types -/
@[elab_as_elim]
theorem Item.ind (leaf : ∀ h, P (.leaf h))
    (complex : ∀ h es, (∀ e ∈ es, P e) → P (.complex h es))
    (file : ∀ h es name, (∀ e ∈ es, P e) → P (.file h es name))
    (loop : ∀ h i c p b, (∀ x ∈ i, P x) → (∀ x ∈ c, P x) → (∀ x ∈ p, P x) → (∀ x ∈ b, P x) → P (.loop h i c p b))
    (bare : ∀ h, P (.type (.bare h)))
    (applied : ∀ h e, P (.type e) → P (.type (.applied h e)))
    (property : ∀ h ms t n c, (∀ x ∈ t.map Item.type, P x) → (∀ x ∈ n, P x) → (∀ x ∈ c, P x) →
      P (.property h ms t n c))
    (parameter : ∀ h t n, (∀ x ∈ t.map Item.type, P x) → (∀ x ∈ n, P x) → P (.parameter h t n))
    (i : Item) : P i := by
  have types := TypeRef.ind bare applied
  have typeSlot : ∀ t : Option TypeRef, ∀ x ∈ t.map Item.type, P x := by
    intro t x hx
    obtain ⟨y, _, rfl⟩ := Option.map_eq_some_iff.1 hx
    exact types y
  -- the recursor has one motive each for items, entries and slots
  refine @Item.rec P (fun es => ∀ e ∈ es, P e) (fun o => ∀ x ∈ o, P x) leaf complex file loop types
    (fun h ms t n c hn hc => property h ms t n c (typeSlot t) hn hc)
    (fun h t n hn => parameter h t n (typeSlot t) hn) ?_ ?_ ?_ ?_ i
  · intro e he
    cases he
  · intro x xs hx hxs e he
    rcases List.mem_cons.1 he with rfl | he
    · exact hx
    · exact hxs e he
  · intro x hx
    cases hx
  · intro y hy x hx
    cases hx
    exact hy

/-! ## parts and subitems -/

/-- entries, then what the members hold -/
def Item.parts (i : Item) : List Item := i.contents?.getD [] ++ i.members.filterMap (·.2)

def TypeRef.subitems : TypeRef → List Item
  | bare h => [.type (.bare h)]
  | applied h e => .type (.applied h e) :: e.subitems

mutual
/-- the item and all below it -/
def Item.subitems : Item → List Item
  | .leaf h => [.leaf h]
  | .complex h es => .complex h es :: entriesSubitems es
  | .file h es name => .file h es name :: entriesSubitems es
  | .loop h i c p b =>
    .loop h i c p b :: (slotSubitems c ++ slotSubitems b ++ slotSubitems p ++ slotSubitems i)
  | .type t => t.subitems
  | .property h ms t n c =>
    .property h ms t n c :: (slotSubitems c ++ slotSubitems n ++ t.toList.flatMap TypeRef.subitems)
  | .parameter h t n => .parameter h t n :: (slotSubitems n ++ t.toList.flatMap TypeRef.subitems)
def entriesSubitems : List Item → List Item
  | [] => []
  | i :: is => i.subitems ++ entriesSubitems is
def slotSubitems : Option Item → List Item
  | none => []
  | some i => i.subitems
end

theorem entriesSubitems_eq (es : List Item) : entriesSubitems es = es.flatMap Item.subitems := by
  induction es with
  | nil => rfl
  | cons e es ih => rw [entriesSubitems, ih, List.flatMap_cons]

theorem slotSubitems_eq (o : Option Item) : slotSubitems o = o.toList.flatMap Item.subitems := by
  cases o with
  | none => rfl
  | some i => rw [slotSubitems, Option.toList_some, List.flatMap_singleton]

theorem filterMap_member_cons (name : String) (o : Option Item) (ms : List (String × Option Item)) :
    ((name, o) :: ms).filterMap (·.2) = o.toList ++ ms.filterMap (·.2) := by
  cases o <;> rfl

theorem flatMap_toList_map_type (t : Option TypeRef) :
    (t.map Item.type).toList.flatMap Item.subitems = t.toList.flatMap TypeRef.subitems := by
  cases t with
  | none => rfl
  | some t => simp [Item.subitems]

theorem Item.subitems_eq (i : Item) : i.subitems = i :: i.parts.flatMap subitems := by
  unfold parts
  cases i with
  | leaf h => rfl
  | complex h es => simp [subitems, contents?, members, entriesSubitems_eq]
  | file h es name => simp [subitems, contents?, members, entriesSubitems_eq]
  | loop h i c p b => simp [subitems, contents?, members, slotSubitems_eq, filterMap_member_cons]
  | type t =>
    rw [subitems]
    cases t with
    | bare h => rfl
    | applied h e => simp [TypeRef.subitems, contents?, members, TypeRef.element?, subitems]
  | property h ms t n c =>
    simp [subitems, contents?, members, slotSubitems_eq, filterMap_member_cons, flatMap_toList_map_type]
  | parameter h t n =>
    simp [subitems, contents?, members, slotSubitems_eq, filterMap_member_cons, flatMap_toList_map_type]

theorem Item.forall_mem_parts {i : Item} :
    (∀ j ∈ i.parts, P j) ↔ (∀ j ∈ i.contents?.getD [], P j) ∧ ∀ m ∈ i.members, ∀ j ∈ m.2, P j := by
  constructor
  · intro h
    refine ⟨fun j hj => h j (List.mem_append_left _ hj), fun m hm j hj => ?_⟩
    exact h j (List.mem_append_right _ (List.mem_filterMap.2 ⟨m, hm, hj⟩))
  · rintro ⟨hentries, hmembers⟩ j hj
    rcases List.mem_append.1 hj with hj | hj
    · exact hentries j hj
    · obtain ⟨m, hm, hj⟩ := List.mem_filterMap.1 hj
      exact hmembers m hm j hj

/-- induction from the parts of an item to the item -/
@[elab_as_elim]
theorem Item.ind_parts (step : ∀ i, (∀ j ∈ i.parts, P j) → P i) (i : Item) : P i := by
  have step : ∀ i : Item, (∀ j ∈ i.contents?.getD [], P j) → (∀ m ∈ i.members, ∀ j ∈ m.2, P j) → P i :=
    fun i hentries hmembers => step i (forall_mem_parts.2 ⟨hentries, hmembers⟩)
  induction i using Item.ind with
  | leaf h => exact step _ (by simp [contents?]) (by simp [members])
  | complex h es ih => exact step _ ih (by simp [members])
  | file h es name ih => exact step _ ih (by simp [members])
  | loop h i c p b hi hc hp hb => exact step _ (by simp [contents?]) (by simpa [members] using ⟨hc, hb, hp, hi⟩)
  | bare h => exact step _ (by simp [contents?]) (by simp [members, TypeRef.element?])
  | applied h e ih => exact step _ (by simp [contents?]) (by simpa [members, TypeRef.element?] using ih)
  | property h ms t n c ht hn hc =>
    exact step _ (by simp [contents?]) (by simpa [members] using ⟨hc, hn, by simpa using ht⟩)
  | parameter h t n ht hn =>
    exact step _ (by simp [contents?]) (by simpa [members] using ⟨hn, by simpa using ht⟩)

theorem Item.subitems_subset {i j : Item} (hj : j ∈ i.parts) : j.subitems ⊆ i.subitems := by
  intro k hk
  rw [i.subitems_eq]
  exact List.mem_cons_of_mem _ (List.mem_flatMap.2 ⟨j, hj, hk⟩)

/-! ## conditions on all items below an item -/

/-- the item and all below it satisfy `Q` -/
def Item.Every (Q : Item → Prop) (i : Item) : Prop := ∀ j ∈ i.subitems, Q j

namespace Item.Every

variable {Q : Item → Prop} {i : Item} {o : Option Item}

theorem self (hi : i.Every Q) : Q i := by
  refine hi i ?_
  rw [i.subitems_eq]
  exact List.mem_cons_self

theorem part (hi : i.Every Q) : ∀ x ∈ i.parts, x.Every Q :=
  fun _ hx k hk => hi k (subitems_subset hx hk)

theorem entry {es : List Item} (hi : i.Every Q) (hes : i.contents? = some es) : ∀ x ∈ es, x.Every Q :=
  fun x hx => hi.part x (by simp [parts, hes, hx])

theorem member (hi : i.Every Q) (name : String) (ho : (name, o) ∈ i.members) : ∀ x ∈ o, x.Every Q :=
  fun x hx => hi.part x (List.mem_append_right _ (List.mem_filterMap.2 ⟨_, ho, hx⟩))

end Item.Every

/-! ## literals -/

/-- the texts of the leaves and types below an item satisfy `Q`; other items never write their text -/
def Item.Literals (Q : String → Prop) (i : Item) : Prop :=
  ∀ j ∈ i.subitems, j.kind = .item ∨ j.kind = .type → Q j.text

-- over the items below the item, not over all items
instance (Q : String → Prop) [DecidablePred Q] (i : Item) : Decidable (i.Literals Q) :=
  List.decidableBAll _ i.subitems

namespace Item.Literals

variable {Q : String → Prop} {i : Item} {o : Option Item}

theorem text (hi : i.Literals Q) (hk : i.kind = .item ∨ i.kind = .type) : Q i.text := Every.self hi hk

theorem part (hi : i.Literals Q) : ∀ x ∈ i.parts, x.Literals Q := Every.part hi

theorem entry {es : List Item} (hi : i.Literals Q) (hes : i.contents? = some es) : ∀ x ∈ es, x.Literals Q :=
  Every.entry hi hes

theorem member (hi : i.Literals Q) (name : String) (ho : (name, o) ∈ i.members) : ∀ x ∈ o, x.Literals Q :=
  Every.member hi name ho

end Item.Literals

end ItemTree

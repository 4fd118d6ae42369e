import ItemTree.Proofs.Item.Walk
import ItemTree.Proofs.Xml.Export
import Mathlib.Data.List.Perm.Basic
import Mathlib.Logic.Function.Iterate

/-!
# The nodes of an export

An export has one node for every item that a walk meets, and besides only the wrappers of slots. Walk and export look
at the parts of an item in different orders and through different slots:

* `Item.children_toXml`: an item exports some parts directly and some in wrappers;
* `Item.exported_perm_parts`: together these are its parts;
* `Item.postorder_toXml_perm`: so the nodes of an export are the nodes and wrappers of the item and all below it.
-/

namespace ItemTree

/-! ## children and parts -/

namespace Item

/-- the parts that are exported as children -/
def direct : Item → List Item
  | complex _ es => es
  | file _ es _ => es
  | type t => (t.element?.map type).toList
  | _ => []

/-- the slots that are exported in wrappers, with the tags of these, in the order of the export -/
def slots : Item → List (String × Option Item)
  | loop _ i c p b => [("Initialization", i), ("Condition", c), ("Incrementation", p), ("Content", b)]
  | property _ _ t n c => [("Type", t.map type), ("Name", n), ("Content", c)]
  | parameter _ t n => [("Type", t.map type), ("Name", n), ("Content", none)]
  | _ => []

/-- the wrappers of an item -/
def wrappers (i : Item) : List Node := i.slots.map fun s => slotNode s.1 s.2

theorem children_toXml (i : Item) : i.toXml.children = i.direct.map toXml ++ i.wrappers := by
  unfold wrappers
  cases i with
  | leaf h => simp [direct, slots, Header.node]
  | complex h es => simp [direct, slots]
  | file h es name => simp [direct, slots]
  | loop h i c p b => simp [direct, slots]
  | type t =>
    cases t with
    | bare h => simp [direct, slots, TypeRef.element?, Header.node]
    | applied h e => simp [direct, slots, TypeRef.element?, Header.node, Node.push]
  | property h ms t n c => simp [direct, slots]
  | parameter h t n => simp [direct, slots]

/-- an export leaves no part out and takes none twice -/
theorem exported_perm_parts (i : Item) : (i.direct ++ i.slots.filterMap (·.2)).Perm i.parts := by
  unfold parts
  cases i with
  | leaf h => exact .refl _
  | complex h es => simp [direct, slots, contents?, members]
  | file h es name => simp [direct, slots, contents?, members]
  | loop h i c p b =>
    -- members stand in the order of their names
    have hlast : ([i] ++ [c, p, b]).Perm ([c, p, b] ++ [i]) := List.perm_append_comm
    have hswap : [i, c, p, b].Perm [c, b, p, i] := hlast.trans (.cons c (.swap b p [i]))
    exact hswap.filterMap id
  | type t => simp [direct, slots, contents?, members, filterMap_member_cons]
  | property h ms t n c =>
    have hswap : [t.map type, n, c].Perm [c, n, t.map type] := (List.reverse_perm _).symm
    exact hswap.filterMap id
  | parameter h t n =>
    have hswap : [t.map type, n, none].Perm [none, n, t.map type] := (List.reverse_perm _).symm
    exact hswap.filterMap id

end Item

/-! ## the node of an item -/

/-- a node with the tag of a kind and a literal, and with attributes that exports set only -/
structure Node.Heads (n : Node) (k : Kind) (text : String) : Prop where
  tag : n.tag = k.name
  value : n.get? "Value" = some text
  other : ∀ name ∉ ["Value", "FileName", "Modifiers"], n.get? name = none

namespace Node.Heads

variable {n : Node} {k : Kind} {text : String}

theorem children (hn : n.Heads k text) (children : List Node) : { n with children := children }.Heads k text :=
  ⟨hn.tag, hn.value, hn.other⟩

theorem set (hn : n.Heads k text) {name : String} (hname : name ∈ ["FileName", "Modifiers"]) (value : String) :
    (n.set name value).Heads k text := by
  refine ⟨hn.tag, ?_, fun other ho => ?_⟩
  · have hne : "Value" ≠ name := by
      rintro rfl
      revert hname
      decide
    rw [get?_set, if_neg hne]
    exact hn.value
  · have hne : other ≠ name := by
      rintro rfl
      exact ho (List.mem_cons_of_mem _ hname)
    rw [get?_set, if_neg hne]
    exact hn.other other ho

end Node.Heads

theorem Header.heads_node (h : Header) (k : Kind) : (h.node k).Heads k h.text := by
  refine ⟨rfl, ?_, fun name hname => ?_⟩
  · rw [Header.node, Node.get?_set, if_pos rfl]
  · have hne : name ≠ "Value" := by
      rintro rfl
      exact hname List.mem_cons_self
    rw [Header.node, Node.get?_set, if_neg hne]
    rfl

theorem heads_withModifiers (ms : List Modifier) (h : Header) (k : Kind) :
    (withModifiers ms (h.node k)).Heads k h.text := by
  unfold withModifiers
  split
  · exact h.heads_node k
  · exact (h.heads_node k).set (by decide) _

namespace Item

theorem heads_toXml (i : Item) : i.toXml.Heads i.kind i.text := by
  cases i with
  | leaf h =>
    rw [toXml_leaf]
    exact h.heads_node .item
  | complex h es =>
    rw [toXml_complex]
    exact (h.heads_node .complexItem).children _
  | file h es name =>
    rw [toXml_file]
    exact ((h.heads_node .file).children _).set (by decide) _
  | loop h i c p b =>
    rw [toXml_loop]
    exact (h.heads_node .loop).children _
  | type t =>
    cases t with
    | bare h =>
      rw [toXml_bare]
      exact h.heads_node .type
    | applied h e =>
      rw [toXml_applied]
      exact (h.heads_node .type).children _
  | property h ms t n c =>
    rw [toXml_property]
    exact (heads_withModifiers ms h .propertyDeclaration).children _
  | parameter h t n =>
    rw [toXml_parameter]
    exact (h.heads_node .functionParameter).children _

@[simp] theorem hasLiteral_toXml (i : Item) : i.toXml.hasLiteral = true := by
  unfold Node.hasLiteral
  rw [i.heads_toXml.value]
  rfl

theorem hasLiteral_of_mem_wrappers {i : Item} : ∀ n ∈ i.wrappers, n.hasLiteral = false := by
  intro n hn
  obtain ⟨s, -, rfl⟩ := List.mem_map.1 hn
  rfl

/-! ## all nodes -/

theorem postorder_slotNode (tag : String) (o : Option Item) :
    (slotNode tag o).postorder = o.toList.flatMap (fun j => j.toXml.postorder) ++ [slotNode tag o] := by
  have hc : (slotNode tag o).children = o.toList.map toXml := rfl
  rw [Node.postorder_eq, hc, List.flatMap_map]

/-- the nodes below the wrappers, and the wrappers themselves -/
theorem postorder_wrappers_perm (i : Item) :
    (i.wrappers.flatMap Node.postorder).Perm
      (i.wrappers ++ (i.slots.filterMap (·.2)).flatMap fun j => j.toXml.postorder) := by
  have hfront : ∀ s : String × Option Item, (slotNode s.1 s.2).postorder.Perm
      (slotNode s.1 s.2 :: s.2.toList.flatMap fun j => j.toXml.postorder) := by
    intro s
    rw [postorder_slotNode]
    exact List.perm_append_singleton _ _
  unfold wrappers
  rw [List.flatMap_map, List.filterMap_eq_flatMap_toList, List.flatMap_assoc]
  exact (List.Perm.flatMap_left _ fun s _ => hfront s).trans (List.map_append_flatMap_perm _ _ _).symm

/-- one step: the node of the item, its wrappers, and the nodes of the parts -/
theorem postorder_toXml_perm_parts (i : Item) :
    i.toXml.postorder.Perm (i.toXml :: (i.wrappers ++ i.parts.flatMap fun j => j.toXml.postorder)) := by
  have hparts := i.exported_perm_parts.flatMap_right fun j => j.toXml.postorder
  rw [List.flatMap_append] at hparts
  rw [Node.postorder_eq, children_toXml, List.flatMap_append, List.flatMap_map]
  refine (List.perm_append_singleton _ _).trans (.cons _ ?_)
  refine (i.postorder_wrappers_perm.append_left _).trans ?_
  exact (List.perm_append_comm_assoc _ _ _).trans (hparts.append_left _)

/-- **The nodes of an export** are the nodes of the item and all items below it, with their wrappers. -/
theorem postorder_toXml_perm (i : Item) :
    i.toXml.postorder.Perm (i.subitems.flatMap fun j => j.toXml :: j.wrappers) := by
  induction i using Item.ind_parts with
  | step i ih =>
    have hparts := List.Perm.flatMap_left i.parts ih
    rw [← List.flatMap_assoc] at hparts
    rw [subitems_eq, List.flatMap_cons, List.cons_append]
    exact i.postorder_toXml_perm_parts.trans (.cons _ (hparts.append_left _))

/-- a node without a literal wraps a slot -/
theorem mem_wrappers_of_mem_postorder (i : Item) {n : Node} (hn : n ∈ i.toXml.postorder) (hl : n.hasLiteral = false) :
    ∃ j ∈ i.subitems, n ∈ j.wrappers := by
  obtain ⟨j, hj, hn⟩ := List.mem_flatMap.1 (i.postorder_toXml_perm.mem_iff.1 hn)
  rcases List.mem_cons.1 hn with rfl | hn
  · rw [hasLiteral_toXml] at hl
    cases hl
  · exact ⟨j, hj, hn⟩

/-! ## counting nodes -/

/-- the wrappers of an item have nothing to do with what is in them -/
theorem length_wrappers (i : Item) : i.wrappers.length =
    4 * [i.kind].count .loop + 3 * ([i.kind].count .propertyDeclaration + [i.kind].count .functionParameter) := by
  cases i <;> rfl

theorem length_flatMap_wrappers (is : List Item) :
    (is.flatMap fun j => j.toXml :: j.wrappers).length = is.length + 4 * (is.map kind).count .loop +
      3 * ((is.map kind).count .propertyDeclaration + (is.map kind).count .functionParameter) := by
  induction is with
  | nil => rfl
  | cons i is ih =>
    have hi := i.length_wrappers
    have hcons := count_kind_cons i is
    rw [List.flatMap_cons, List.length_append, List.length_cons, ih, hcons, hcons, hcons, List.length_cons]
    omega

end Item

namespace Node

theorem countAll_eq {ns : List Node} (h : ∀ n ∈ ns, n.count = n.postorder.length) :
    countAll ns = (ns.flatMap postorder).length := by
  induction ns with
  | nil => rfl
  | cons n ns ih =>
    have hn := h n List.mem_cons_self
    have hns := ih fun m hm => h m (List.mem_cons_of_mem _ hm)
    rw [countAll, hn, hns, List.flatMap_cons, List.length_append]

theorem count_eq (n : Node) : n.count = n.postorder.length := by
  induction n using Node.ind with
  | node tag as children ih =>
    rw [count, countAll_eq ih, postorder_eq, List.length_append, List.length_singleton, Nat.add_comm]

/-- tag and literal of the node of an item -/
def literal? (n : Node) : Option (String × String) := (n.get? "Value").map fun text => (n.tag, text)

/-- only finished nodes have literals -/
theorem filterMap_literal? (n : Node) : n.postorder.filterMap literal? = n.finished.filterMap literal? := by
  have h : ∀ m : Node, m.literal? = if m.hasLiteral then m.literal? else none := by
    intro m
    unfold literal? hasLiteral
    cases m.get? "Value" <;> rfl
  unfold finished
  rw [List.filterMap_filter, ← funext h]

end Node

namespace Item

/-! ## nodes with literals -/

/-- the nodes that go through a hook: those of the item and all items below it -/
theorem finished_toXml_perm (i : Item) : i.toXml.finished.Perm (i.subitems.map toXml) := by
  have hown : ∀ j : Item, (j.toXml :: j.wrappers).filter Node.hasLiteral = [j.toXml] := by
    intro j
    have hwrappers : j.wrappers.filter Node.hasLiteral = [] :=
      List.filter_eq_nil_iff.2 fun n hn => by simp [hasLiteral_of_mem_wrappers n hn]
    rw [List.filter_cons_of_pos j.hasLiteral_toXml, hwrappers]
  have h := i.postorder_toXml_perm.filter Node.hasLiteral
  rw [List.filter_flatMap, List.flatMap_congr fun j _ => hown j, ← List.map_eq_flatMap] at h
  exact h

theorem length_finished (i : Item) : i.toXml.finished.length = i.count := by
  rw [i.finished_toXml_perm.length_eq, List.length_map, count_eq]

/-- tags and literals of an export are kinds and texts of the items -/
theorem literals_toXml_perm (i : Item) :
    (i.toXml.postorder.filterMap Node.literal?).Perm (i.subitems.map fun j => (j.kind.name, j.text)) := by
  have hown : Node.literal? ∘ toXml = some ∘ fun j => (j.kind.name, j.text) := by
    funext j
    simp [Node.literal?, j.heads_toXml.value, j.heads_toXml.tag]
  have h := i.finished_toXml_perm.filterMap Node.literal?
  rw [List.filterMap_map, hown, List.filterMap_eq_map] at h
  rw [Node.filterMap_literal?]
  exact h

end Item

/-! ## hooks that count -/

namespace Node

variable {σ : Type} {hook : Hook σ} {next : σ → σ}

/-- the pass over one node, from state to state -/
theorem run_finish (hook : Hook σ) (n : Node) (s : σ) :
    (n.finish hook).run s =
      let r := (n.children.mapM (finish hook)).run s
      if n.hasLiteral then (hook { n with children := r.1 }).run r.2 else ({ n with children := r.1 }, r.2) := by
  obtain ⟨tag, as, children⟩ := n
  have hl : ∀ cs, hasLiteral ⟨tag, as, cs⟩ = hasLiteral ⟨tag, as, children⟩ := fun _ => rfl
  rw [finish, finishAll_eq]
  simp only [hl]
  split <;> rfl

theorem run_mapM_cons (hook : Hook σ) (n : Node) (ns : List Node) (s : σ) :
    ((n :: ns).mapM (finish hook)).run s =
      let r := (n.finish hook).run s
      let rs := (ns.mapM (finish hook)).run r.2
      (r.1 :: rs.1, rs.2) := by
  rw [List.mapM_cons]
  rfl

theorem state_mapM {ns : List Node}
    (ih : ∀ n ∈ ns, ∀ s, ((n.finish hook).run s).2 = next^[n.finished.length] s) (s : σ) :
    ((ns.mapM (finish hook)).run s).2 = next^[(ns.flatMap finished).length] s := by
  induction ns generalizing s with
  | nil => rfl
  | cons n ns hns =>
    have hn := ih n List.mem_cons_self s
    have hns := hns fun m hm => ih m (List.mem_cons_of_mem _ hm)
    rw [run_mapM_cons, hns, hn, ← Function.iterate_add_apply, List.flatMap_cons, List.length_append, Nat.add_comm]

/-- a hook that advances the state whatever the node is, advances it once for every finished node -/
theorem state_finish (hnext : ∀ n s, ((hook n).run s).2 = next s) (n : Node) (s : σ) :
    ((n.finish hook).run s).2 = next^[n.finished.length] s := by
  induction n using Node.ind generalizing s with
  | node tag as children ih =>
    have hc := state_mapM ih s
    rw [run_finish, finished_eq, List.length_append]
    split
    · rw [hnext, hc, List.length_singleton, Nat.add_comm, Function.iterate_add_apply, Function.iterate_one]
    · rw [List.length_nil, Nat.add_zero]
      exact hc

end Node

/-! ## walk and export -/

/-- kind and text of an item that was entered -/
def Event.label? : Event → Option (String × String)
  | item k text => some (k.name, text)
  | member _ _ => none

namespace Item

theorem labels_events (i : Item) : i.events.filterMap Event.label? = i.subitems.map fun j => (j.kind.name, j.text) := by
  have hlabel : Event.label? ∘ Visit.event = fun x => x.item?.map fun j => (j.kind.name, j.text) := by
    funext x
    cases x <;> rfl
  rw [events_eq, List.filterMap_map, hlabel, ← List.map_filterMap, items_visits]

/-- whatever a hook does, the tags it is given are the names of the kinds -/
theorem tags_traced_perm {σ : Type} (hook : Hook σ) (i : Item) (s : σ) :
    (((i.exportWith hook.traced).run (s, [])).2.2.map Node.tag).Perm (i.kinds.map Kind.name) := by
  obtain ⟨calls, hrun, hcalls⟩ := Node.adds_finish hook i.toXml s []
  have htags : calls.map Node.tag = i.toXml.finished.map Node.tag := by
    have h := congrArg (List.map Prod.fst) hcalls
    rwa [List.map_map, List.map_map] at h
  have hkinds : Node.tag ∘ toXml = Kind.name ∘ kind := by
    funext j
    exact j.heads_toXml.tag
  have hperm := i.finished_toXml_perm.map Node.tag
  rw [List.map_map, hkinds, ← List.map_map, ← kinds_eq] at hperm
  rw [i.exportWith_eq_finish, hrun]
  show ([] ++ calls).map Node.tag |>.Perm _
  rw [List.nil_append, htags]
  exact hperm

theorem state_counting (i : Item) (n : Nat) : ((i.exportWith Hook.counting).run n).2 = n + i.count := by
  have hnext : ∀ (m : Node) (k : Nat), ((Hook.counting m).run k).2 = k + 1 := fun _ _ => rfl
  have hiterate : ∀ k, (· + 1)^[k] n = n + k := by
    intro k
    induction k with
    | zero => rfl
    | succ k ih => rw [Function.iterate_succ_apply', ih, Nat.add_assoc]
  rw [i.exportWith_eq_finish, Node.state_finish hnext, hiterate, i.length_finished]

end Item

/-- **Walk and export meet the same items.** Kinds and texts of the items that a walk enters are, in some order, the
tags and literals of the nodes of the export. So the tags given to a hook are the names of the kinds collected, a
counting hook counts the items, all other nodes are wrappers without attributes, and there are four of these for
every loop and three for every declaration and parameter. -/
theorem walk_meets_exported_items (i : Item) :
    (i.events.filterMap Event.label?).Perm (i.toXml.postorder.filterMap Node.literal?) ∧
    (∀ (σ : Type) (hook : Hook σ) (s : σ),
      (((i.exportWith hook.traced).run (s, [])).2.2.map Node.tag).Perm (i.kinds.map Kind.name)) ∧
    (∀ n, ((i.exportWith Hook.counting).run n).2 = n + i.count) ∧
    i.count = i.kinds.length ∧
    (∀ n ∈ i.toXml.postorder, n.hasLiteral = false → n.attributes = [] ∧ ∃ j ∈ i.subitems, n ∈ j.wrappers) ∧
    i.toXml.count = i.count + 4 * i.kinds.count .loop +
      3 * (i.kinds.count .propertyDeclaration + i.kinds.count .functionParameter) := by
  refine ⟨?_, fun σ hook s => i.tags_traced_perm hook s, i.state_counting, ?_, fun n hn hl => ?_, ?_⟩
  · rw [i.labels_events]
    exact i.literals_toXml_perm.symm
  · rw [i.kinds_eq, List.length_map, i.count_eq]
  · exact ⟨i.wrapsBare_toXml n hn hl, i.mem_wrappers_of_mem_postorder hn hl⟩
  · rw [Node.count_eq, i.postorder_toXml_perm.length_eq, Item.length_flatMap_wrappers, i.kinds_eq, i.count_eq]

end ItemTree

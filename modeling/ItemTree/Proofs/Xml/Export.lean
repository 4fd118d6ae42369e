import ItemTree.Proofs.Item.Induction
import ItemTree.Proofs.Xml.Node
import ItemTree.Xml.Export

/-!
# Exports through a hook

An export through a hook is a plain export followed by one pass over its nodes:

* `Item.toXml_complex` and its siblings: the plain export of every kind of item;
* `Node.finish`: the pass, which calls the hook on the nodes that have a literal, each after its children;
* `Hook.traced`: any hook, with a record of the nodes it is called on.
-/

namespace ItemTree

variable {σ : Type}

/-! ## plain exports -/

namespace Item

theorem exportWith_plain (i : Item) : i.exportWith Hook.plain = pure i.toXml := rfl

end Item

/-- the wrapper of a slot in a plain export -/
def slotNode (tag : String) (o : Option Item) : Node := wrapper tag (o.toList.map Item.toXml)

theorem exportEntries_eq (hook : Hook σ) (es : List Item) :
    exportEntries hook es = es.mapM (Item.exportWith hook) := by
  induction es with
  | nil => simp [exportEntries]
  | cons e es ih => simp [exportEntries, ih]

theorem exportType_eq (hook : Hook σ) (tag : String) (t : Option TypeRef) :
    exportType hook tag t = exportSlot hook tag (t.map .type) := by
  cases t with
  | none => simp [exportType, exportSlot]
  | some t => simp [exportType, exportSlot, Item.exportWith]

theorem exportEntries_plain (es : List Item) : exportEntries Hook.plain es = pure (es.map Item.toXml) := by
  have plain : Item.exportWith Hook.plain = fun i => pure i.toXml := rfl
  simp [exportEntries_eq, plain]

theorem exportSlot_plain (tag : String) (o : Option Item) : exportSlot Hook.plain tag o = pure (slotNode tag o) := by
  cases o with
  | none => simp [exportSlot, slotNode]
  | some i => simp [exportSlot, slotNode, Item.exportWith_plain]

namespace Item

theorem eq_toXml_of_exportWith {i : Item} {n : Node} (h : i.exportWith Hook.plain = pure n) : i.toXml = n :=
  congrArg (fun x : StateM Unit Node => (x.run ()).1) h

@[simp] theorem toXml_leaf (h : Header) : (leaf h).toXml = h.node .item := by
  apply eq_toXml_of_exportWith
  simp [exportWith, Hook.plain]

@[simp] theorem toXml_complex (h : Header) (es : List Item) :
    (complex h es).toXml = { h.node .complexItem with children := es.map toXml } := by
  apply eq_toXml_of_exportWith
  simp [exportWith, exportEntries_plain, Hook.plain]

@[simp] theorem toXml_file (h : Header) (es : List Item) (name : String) :
    (file h es name).toXml = { h.node .file with children := es.map toXml }.set "FileName" name := by
  apply eq_toXml_of_exportWith
  simp [exportWith, exportEntries_plain, Hook.plain]

@[simp] theorem toXml_loop (h : Header) (i c p b : Option Item) :
    (loop h i c p b).toXml =
      { h.node .loop with
        children := [slotNode "Initialization" i, slotNode "Condition" c, slotNode "Incrementation" p,
          slotNode "Content" b] } := by
  apply eq_toXml_of_exportWith
  simp [exportWith, exportSlot_plain, Hook.plain]

@[simp] theorem toXml_bare (h : Header) : (type (.bare h)).toXml = h.node .type := by
  apply eq_toXml_of_exportWith
  simp [exportWith, TypeRef.exportWith, Hook.plain]

@[simp] theorem toXml_applied (h : Header) (e : TypeRef) :
    (type (.applied h e)).toXml = (h.node .type).push (type e).toXml := by
  have he : e.exportWith Hook.plain = pure (type e).toXml := by
    rw [← exportWith_plain, exportWith]
  apply eq_toXml_of_exportWith
  simp [exportWith, TypeRef.exportWith, he, Hook.plain]

@[simp] theorem toXml_property (h : Header) (ms : List Modifier) (t : Option TypeRef) (n c : Option Item) :
    (property h ms t n c).toXml =
      { withModifiers ms (h.node .propertyDeclaration) with
        children := [slotNode "Type" (t.map type), slotNode "Name" n, slotNode "Content" c] } := by
  apply eq_toXml_of_exportWith
  simp [exportWith, exportType_eq, exportSlot_plain, Hook.plain]

@[simp] theorem toXml_parameter (h : Header) (t : Option TypeRef) (n : Option Item) :
    (parameter h t n).toXml =
      { h.node .functionParameter with
        children := [slotNode "Type" (t.map type), slotNode "Name" n, slotNode "Content" none] } := by
  apply eq_toXml_of_exportWith
  simp [exportWith, exportType_eq, exportSlot_plain, Hook.plain, slotNode]

end Item

/-! ## the pass -/

namespace Node

/-- the node of an item, told by its attribute -/
def hasLiteral (n : Node) : Bool := (n.get? "Value").isSome

@[simp] theorem hasLiteral_children (n : Node) (children : List Node) :
    { n with children := children }.hasLiteral = n.hasLiteral := rfl

@[simp] theorem hasLiteral_push (n child : Node) : (n.push child).hasLiteral = n.hasLiteral := rfl

/-- no attribute hides the literal -/
theorem hasLiteral_set {n : Node} (h : n.hasLiteral = true) (name value : String) :
    (n.set name value).hasLiteral = true := by
  unfold hasLiteral at *
  rw [get?_set]
  split
  · rfl
  · exact h

mutual
/-- the hook on every node that has a literal, once its children went through the pass -/
def finish (hook : Hook σ) : Node → StateM σ Node
  | ⟨tag, as, children⟩ => do
    let children ← finishAll hook children
    if hasLiteral ⟨tag, as, children⟩ then hook ⟨tag, as, children⟩ else return ⟨tag, as, children⟩
/-- the pass over nodes from left to right -/
def finishAll (hook : Hook σ) : List Node → StateM σ (List Node)
  | [] => return []
  | n :: ns => do
    let n ← n.finish hook
    let ns ← finishAll hook ns
    return n :: ns
end

theorem finishAll_eq (hook : Hook σ) (ns : List Node) : finishAll hook ns = ns.mapM (finish hook) := by
  induction ns with
  | nil => simp [finishAll]
  | cons n ns ih => simp [finishAll, ih]

theorem finish_of_hasLiteral (hook : Hook σ) {n : Node} (h : n.hasLiteral = true) :
    n.finish hook = n.children.mapM (finish hook) >>= fun children => hook { n with children := children } := by
  obtain ⟨tag, as, children⟩ := n
  have hl : ∀ cs, hasLiteral ⟨tag, as, cs⟩ = true := fun _ => h
  simp [finish, finishAll_eq, hl]

theorem finish_wrapper (hook : Hook σ) (tag : String) (content : List Node) :
    (wrapper tag content).finish hook = wrapper tag <$> content.mapM (finish hook) := by
  have hl : ∀ cs, hasLiteral ⟨tag, [], cs⟩ = false := fun _ => rfl
  have hw : wrapper tag = Node.mk tag [] := rfl
  simp [hw, finish, finishAll_eq, hl]

end Node

@[simp] theorem Header.hasLiteral_node (h : Header) (k : Kind) : (h.node k).hasLiteral = true := by
  unfold Header.node Node.hasLiteral
  rw [Node.get?_set, if_pos rfl]
  rfl

@[simp] theorem hasLiteral_withModifiers (ms : List Modifier) (h : Header) (k : Kind) :
    (withModifiers ms (h.node k)).hasLiteral = true := by
  unfold withModifiers
  split
  · exact h.hasLiteral_node k
  · exact Node.hasLiteral_set (h.hasLiteral_node k) _ _

/-! ## export as a pass -/

theorem exportEntries_eq_finish {hook : Hook σ} {es : List Item}
    (ih : ∀ e ∈ es, e.exportWith hook = e.toXml.finish hook) :
    exportEntries hook es = (es.map Item.toXml).mapM (Node.finish hook) := by
  induction es with
  | nil => simp [exportEntries]
  | cons e es hes =>
    have he := ih e List.mem_cons_self
    have hes := hes fun x hx => ih x (List.mem_cons_of_mem _ hx)
    rw [exportEntries, he, hes, List.map_cons, List.mapM_cons]

theorem exportSlot_eq_finish {hook : Hook σ} {o : Option Item}
    (ih : ∀ x ∈ o, x.exportWith hook = x.toXml.finish hook) (tag : String) :
    exportSlot hook tag o = (slotNode tag o).finish hook := by
  unfold slotNode
  rw [Node.finish_wrapper]
  cases o with
  | none => simp [exportSlot]
  | some i => simp [exportSlot, ih i rfl]

theorem Item.exportWith_eq_finish (hook : Hook σ) (i : Item) : i.exportWith hook = i.toXml.finish hook := by
  induction i using Item.ind with
  | leaf h =>
    rw [toXml_leaf, Node.finish_of_hasLiteral hook (h.hasLiteral_node .item)]
    rfl
  | complex h es ih =>
    rw [toXml_complex, Node.finish_of_hasLiteral hook (by simp), exportWith, exportEntries_eq_finish ih]
  | file h es name ih =>
    rw [toXml_file, Node.finish_of_hasLiteral hook (Node.hasLiteral_set (by simp) _ _), exportWith,
      exportEntries_eq_finish ih]
    rfl
  | loop h i c p b hi hc hp hb =>
    rw [toXml_loop, Node.finish_of_hasLiteral hook (by simp), exportWith]
    simp [exportSlot_eq_finish hi, exportSlot_eq_finish hc, exportSlot_eq_finish hp, exportSlot_eq_finish hb]
  | bare h =>
    rw [toXml_bare, Node.finish_of_hasLiteral hook (by simp), exportWith, TypeRef.exportWith]
    rfl
  | applied h e ih =>
    rw [toXml_applied, Node.finish_of_hasLiteral hook (by simp), exportWith, TypeRef.exportWith]
    rw [exportWith] at ih
    simp [ih, Node.push, Header.node]
  | property h ms t n c ht hn hc =>
    rw [toXml_property, Node.finish_of_hasLiteral hook (by simp), exportWith, exportType_eq]
    simp [exportSlot_eq_finish ht, exportSlot_eq_finish hn, exportSlot_eq_finish hc]
  | parameter h t n ht hn =>
    rw [toXml_parameter, Node.finish_of_hasLiteral hook (by simp), exportWith, exportType_eq]
    simp [exportSlot_eq_finish ht, exportSlot_eq_finish hn, slotNode, Node.finish_wrapper]

/-! ## nodes without a literal -/

namespace Node

/-- nodes without a literal are bare: at every depth they have no attributes at all -/
def WrapsBare (n : Node) : Prop := ∀ m ∈ n.postorder, m.hasLiteral = false → m.attributes = []

theorem wrapsBare_of_children {n : Node} (hn : n.hasLiteral = false → n.attributes = [])
    (hc : ∀ c ∈ n.children, c.WrapsBare) : n.WrapsBare :=
  forall_mem_postorder.2 ⟨hc, hn⟩

theorem wrapsBare_of_hasLiteral {n : Node} (hn : n.hasLiteral = true) (hc : ∀ c ∈ n.children, c.WrapsBare) :
    n.WrapsBare := by
  apply wrapsBare_of_children _ hc
  intro hl
  rw [hn] at hl
  cases hl

end Node

theorem wrapsBare_slotNode {o : Option Item} (h : ∀ x ∈ o, x.toXml.WrapsBare) (tag : String) :
    (slotNode tag o).WrapsBare := by
  apply Node.wrapsBare_of_children
  · intro _
    rfl
  · intro c hc
    obtain ⟨x, hx, rfl⟩ := List.mem_map.1 hc
    exact h x (Option.mem_toList.1 hx)

theorem Item.wrapsBare_toXml (i : Item) : i.toXml.WrapsBare := by
  induction i using Item.ind with
  | leaf h =>
    rw [toXml_leaf]
    exact Node.wrapsBare_of_hasLiteral (by simp) (by simp [Header.node])
  | complex h es ih =>
    rw [toXml_complex]
    exact Node.wrapsBare_of_hasLiteral (by simp) (by simpa using ih)
  | file h es name ih =>
    rw [toXml_file]
    exact Node.wrapsBare_of_hasLiteral (Node.hasLiteral_set (by simp) _ _) (by simpa using ih)
  | loop h i c p b hi hc hp hb =>
    rw [toXml_loop]
    apply Node.wrapsBare_of_hasLiteral (by simp)
    simp [wrapsBare_slotNode hi, wrapsBare_slotNode hc, wrapsBare_slotNode hp, wrapsBare_slotNode hb]
  | bare h =>
    rw [toXml_bare]
    exact Node.wrapsBare_of_hasLiteral (by simp) (by simp [Header.node])
  | applied h e ih =>
    rw [toXml_applied]
    exact Node.wrapsBare_of_hasLiteral (by simp) (by simpa [Node.push, Header.node] using ih)
  | property h ms t n c ht hn hc =>
    rw [toXml_property]
    apply Node.wrapsBare_of_hasLiteral (by simp)
    simp [wrapsBare_slotNode ht, wrapsBare_slotNode hn, wrapsBare_slotNode hc]
  | parameter h t n ht hn =>
    have hc : (slotNode "Content" none).WrapsBare := wrapsBare_slotNode (by simp) _
    rw [toXml_parameter]
    apply Node.wrapsBare_of_hasLiteral (by simp)
    simp [wrapsBare_slotNode ht, wrapsBare_slotNode hn, hc]

/-! ## the calls of a hook -/

/-- a hook together with a record of the nodes it was called on -/
def Hook.traced (hook : Hook σ) : Hook (σ × List Node) := fun n =>
  modifyGet fun (s, calls) =>
    let (m, s) := (hook n).run s
    (m, s, calls ++ [n])

namespace Node

/-- what a node has of its own: its tag and its attributes -/
def label (n : Node) : String × Attributes := (n.tag, n.attributes)

/-- nodes on which the pass calls the hook, in order -/
def finished (n : Node) : List Node := n.postorder.filter hasLiteral

theorem finished_eq (n : Node) :
    n.finished = n.children.flatMap finished ++ if n.hasLiteral then [n] else [] := by
  unfold finished
  rw [postorder_eq, List.filter_append, List.filter_flatMap, List.filter_cons, List.filter_nil]

/-- from a state and a record, a computation goes as one without records does, and adds calls on nodes of the
given labels -/
def Adds {α : Type} (x : StateM σ α) (y : StateM (σ × List Node) α) (labels : List (String × Attributes)) : Prop :=
  ∀ s calls, ∃ new, y.run (s, calls) = ((x.run s).1, (x.run s).2, calls ++ new) ∧ new.map label = labels

theorem adds_pure {α : Type} (a : α) : Adds (σ := σ) (pure a) (pure a) [] := by
  intro s calls
  exact ⟨[], by rw [List.append_nil]; rfl, rfl⟩

theorem adds_bind {α β : Type} {x : StateM σ α} {y : StateM (σ × List Node) α} {f : α → StateM σ β}
    {g : α → StateM (σ × List Node) β} {ls ms : List (String × Attributes)} (hx : Adds x y ls)
    (hf : ∀ a, Adds (f a) (g a) ms) : Adds (x >>= f) (y >>= g) (ls ++ ms) := by
  intro s calls
  obtain ⟨new, hy, hnew⟩ := hx s calls
  obtain ⟨more, hg, hmore⟩ := hf (x.run s).1 (x.run s).2 (calls ++ new)
  refine ⟨new ++ more, ?_, by rw [List.map_append, hnew, hmore]⟩
  rw [StateT.run_bind, hy]
  refine Eq.trans hg ?_
  rw [List.append_assoc]
  rfl

theorem adds_hook (hook : Hook σ) (n : Node) : Adds (hook n) (hook.traced n) [n.label] :=
  fun _ _ => ⟨[n], rfl, rfl⟩

theorem adds_mapM {hook : Hook σ} {ns : List Node}
    (ih : ∀ n ∈ ns, Adds (n.finish hook) (n.finish hook.traced) (n.finished.map label)) :
    Adds (ns.mapM (finish hook)) (ns.mapM (finish hook.traced)) ((ns.flatMap finished).map label) := by
  induction ns with
  | nil => simpa using adds_pure []
  | cons n ns hns =>
    have hn := ih n List.mem_cons_self
    have hns := hns fun m hm => ih m (List.mem_cons_of_mem _ hm)
    rw [List.mapM_cons, List.mapM_cons, List.flatMap_cons, List.map_append]
    refine adds_bind hn fun m => ?_
    have := adds_bind hns fun ms => adds_pure (m :: ms)
    rwa [List.append_nil] at this

theorem adds_finish (hook : Hook σ) (n : Node) :
    Adds (n.finish hook) (n.finish hook.traced) (n.finished.map label) := by
  induction n using Node.ind with
  | node tag as children ih =>
    have hc := adds_mapM ih
    rw [finished_eq, List.map_append, finish, finish, finishAll_eq, finishAll_eq]
    refine adds_bind hc fun cs => ?_
    have hl : hasLiteral ⟨tag, as, cs⟩ = hasLiteral ⟨tag, as, children⟩ := rfl
    rw [hl]
    split
    · exact adds_hook hook ⟨tag, as, cs⟩
    · exact adds_pure (Node.mk tag as cs)

end Node

/-- **An export through a hook is a plain export followed by one pass.** Result and final state are those of the
pass, also for items exported one after the other. Whatever the hook does to nodes and state, it is called once on
every node of the plain export that has a literal, in post-order and with the attributes of that node; the nodes it
is not called on have no attributes. -/
theorem export_through_hook (hook : Hook σ) :
    (∀ (i : Item) (s : σ), (i.exportWith hook).run s = (i.toXml.finish hook).run s) ∧
    (∀ (is : List Item) (s : σ),
      (is.mapM (Item.exportWith hook)).run s = ((is.map Item.toXml).mapM (Node.finish hook)).run s) ∧
    (∀ (i : Item) (s : σ),
      ((i.exportWith hook.traced).run (s, [])).2.2.map Node.label =
        (i.toXml.postorder.filter Node.hasLiteral).map Node.label) ∧
    (∀ i : Item, ∀ n ∈ i.toXml.postorder, n.hasLiteral = false → n.attributes = []) := by
  refine ⟨fun i s => ?_, fun is s => ?_, fun i s => ?_, fun i => i.wrapsBare_toXml⟩
  · rw [i.exportWith_eq_finish hook]
  · rw [← exportEntries_eq, exportEntries_eq_finish fun i _ => i.exportWith_eq_finish hook]
  · obtain ⟨new, hrun, hnew⟩ := Node.adds_finish hook i.toXml s []
    rw [i.exportWith_eq_finish hook.traced, hrun]
    exact hnew

end ItemTree

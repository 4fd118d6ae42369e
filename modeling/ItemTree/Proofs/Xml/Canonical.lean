import ItemTree.Xml.Json
import ItemTree.Xml.Text
import ItemTree.Ident.Generator
import ItemTree.Proofs.Json.Yields
import ItemTree.Proofs.Xml.Census
import Mathlib.Data.List.Nodup

/-!
# Attributes are canonical

Names of attributes ascend strictly in every node there can be, so that the attributes of a node are determined by the
value of every name.

* `Attributes.Canonical.ext`: ascending attributes with the same values are the same;
* `Node.setAll`, `lastValue?`: settings in a row, and the one that counts for a name;
* `Node.Obtainable`: nodes that are built, exported or read;
* `Node.Obtainable.canonical`: names ascend in all of them.
-/

namespace ItemTree

namespace Attributes

/-! ## ascending names -/

theorem eq_or_mem_of_mem_insert {name value : String} {a : String × String} {as : Attributes}
    (h : a ∈ as.insert name value) : a = (name, value) ∨ a ∈ as := by
  induction as with
  | nil => exact .inl (List.mem_singleton.1 h)
  | cons b rest ih =>
    obtain ⟨n, v⟩ := b
    unfold insert at h
    split at h
    · exact List.mem_cons.1 h
    · split at h
      · exact (List.mem_cons.1 h).imp_right (List.mem_cons_of_mem _)
      · rcases List.mem_cons.1 h with rfl | h
        · exact .inr List.mem_cons_self
        · exact (ih h).imp_right (List.mem_cons_of_mem _)

theorem canonical_insert {as : Attributes} (h : as.Canonical) (name value : String) :
    (as.insert name value).Canonical := by
  induction as with
  | nil => exact List.pairwise_singleton _ _
  | cons a rest ih =>
    obtain ⟨n, v⟩ := a
    obtain ⟨hn, hrest⟩ := List.pairwise_cons.1 h
    unfold insert
    split
    · rename_i hlt
      refine List.pairwise_cons.2 ⟨fun b hb => ?_, h⟩
      rcases List.mem_cons.1 hb with rfl | hb
      · exact hlt
      · exact String.lt_trans hlt (hn b hb)
    · split
      · rename_i heq
        subst heq
        exact List.pairwise_cons.2 ⟨hn, hrest⟩
      · -- the new name goes further on, past `n`
        rename_i hlt hne
        refine List.pairwise_cons.2 ⟨fun b hb => ?_, ih hrest⟩
        rcases eq_or_mem_of_mem_insert hb with rfl | hb
        · exact Std.lt_of_le_of_ne (String.not_lt.1 hlt) (Ne.symm hne)
        · exact hn b hb

namespace Canonical

variable {as bs : Attributes}

theorem mem_iff (h : as.Canonical) {name value : String} : (name, value) ∈ as ↔ as.lookup name = some value := by
  induction as with
  | nil => simp
  | cons a rest ih =>
    obtain ⟨n, v⟩ := a
    obtain ⟨hn, hrest⟩ := List.pairwise_cons.1 h
    rw [List.mem_cons, lookup_cons, ih hrest]
    by_cases heq : name = n
    · -- a second value of the name would stand behind it
      subst heq
      have hnot : rest.lookup name ≠ some value := by
        rw [Ne, ← ih hrest]
        exact fun hmem => String.lt_irrefl name (hn _ hmem)
      simp [hnot, eq_comm]
    · simp [heq]

theorem nodup (h : as.Canonical) : (as.map Prod.fst).Nodup := by
  refine List.pairwise_map.2 (h.imp fun {a b} hlt heq => ?_)
  rw [heq] at hlt
  exact String.lt_irrefl _ hlt

/-- ascending attributes are determined by the values of names -/
theorem ext (ha : as.Canonical) (hb : bs.Canonical) (h : ∀ name, as.lookup name = bs.lookup name) : as = bs := by
  have hperm : as.Perm bs := by
    refine (List.perm_ext_iff_of_nodup ha.nodup.of_map hb.nodup.of_map).2 fun a => ?_
    rw [ha.mem_iff, hb.mem_iff, h]
  refine hperm.eq_of_pairwise (fun a b _ _ hab hba => ?_) ha hb
  exact absurd (String.lt_trans hab hba) (String.lt_irrefl _)

end Canonical

end Attributes

/-! ## settings in a row -/

/-- the value of a name in the last of some settings that have it -/
def lastValue? (settings : List (String × String)) (name : String) : Option String := settings.reverse.lookup name

theorem lastValue?_cons (name value other : String) (settings : List (String × String)) :
    lastValue? ((name, value) :: settings) other =
      (lastValue? settings other).or (if other = name then some value else none) := by
  unfold lastValue?
  rw [List.reverse_cons, List.lookup_append, Attributes.lookup_cons, List.lookup_nil]

namespace Node

/-- attributes set one after the other -/
def setAll (n : Node) (settings : List (String × String)) : Node := settings.foldl (fun n a => n.set a.1 a.2) n

theorem tag_setAll (n : Node) (settings : List (String × String)) : (n.setAll settings).tag = n.tag := by
  induction settings generalizing n with
  | nil => rfl
  | cons a settings ih => exact ih _

theorem children_setAll (n : Node) (settings : List (String × String)) : (n.setAll settings).children = n.children := by
  induction settings generalizing n with
  | nil => rfl
  | cons a settings ih => exact ih _

/-- the last value counts, and what is not set stays -/
theorem get?_setAll (n : Node) (settings : List (String × String)) (name : String) :
    (n.setAll settings).get? name = (lastValue? settings name).or (n.get? name) := by
  induction settings generalizing n with
  | nil => rfl
  | cons a settings ih =>
    rw [lastValue?_cons, Option.or_assoc]
    refine (ih _).trans ?_
    rw [get?_set]
    split <;> rfl

/-! ## canonical nodes -/

theorem canonical_iff (n : Node) : n.Canonical ↔ n.attributes.Canonical ∧ ∀ c ∈ n.children, c.Canonical := by
  cases n
  rw [Canonical, canonicalAll_iff]

theorem canonical_iff_postorder (n : Node) : n.Canonical ↔ ∀ m ∈ n.postorder, m.attributes.Canonical := by
  induction n using Node.ind with
  | node tag as children ih =>
    rw [canonical_iff, forall_mem_postorder, and_comm]
    refine and_congr_left fun _ => ?_
    exact forall₂_congr fun c hc => ih c hc

namespace Canonical

variable {n : Node}

theorem set (h : n.Canonical) (name value : String) : (n.set name value).Canonical := by
  obtain ⟨ha, hc⟩ := n.canonical_iff.1 h
  exact (canonical_iff _).2 ⟨Attributes.canonical_insert ha name value, hc⟩

theorem push (h : n.Canonical) {child : Node} (hchild : child.Canonical) : (n.push child).Canonical := by
  obtain ⟨ha, hc⟩ := n.canonical_iff.1 h
  refine (canonical_iff _).2 ⟨ha, fun c hmem => ?_⟩
  rcases List.mem_append.1 hmem with hmem | hmem
  · exact hc c hmem
  · exact List.mem_singleton.1 hmem ▸ hchild

theorem setAll (h : n.Canonical) (settings : List (String × String)) : (n.setAll settings).Canonical := by
  induction settings generalizing n with
  | nil => exact h
  | cons a settings ih => exact ih (h.set a.1 a.2)

/-- settings come out the same if their last values are the same -/
theorem setAll_eq (h : n.Canonical) {s t : List (String × String)}
    (hst : ∀ name, lastValue? s name = lastValue? t name) : n.setAll s = n.setAll t := by
  have hattributes : (n.setAll s).attributes = (n.setAll t).attributes := by
    refine ((canonical_iff _).1 (h.setAll s)).1.ext ((canonical_iff _).1 (h.setAll t)).1 fun name => ?_
    show (n.setAll s).get? name = (n.setAll t).get? name
    rw [get?_setAll, get?_setAll, hst]
  have htag : (n.setAll s).tag = (n.setAll t).tag := by rw [tag_setAll, tag_setAll]
  have hchildren : (n.setAll s).children = (n.setAll t).children := by rw [children_setAll, children_setAll]
  revert hattributes htag hchildren
  cases n.setAll s
  cases n.setAll t
  rintro rfl rfl rfl
  rfl

end Canonical

end Node

/-! ## exports -/

/-- a hook that does nothing to nodes but set attributes -/
def Hook.OnlySets {σ : Type} (hook : Hook σ) : Prop :=
  ∀ n s, ∃ settings, ((hook n).run s).1 = n.setAll settings

theorem Hook.onlySets_assigningIds : Hook.assigningIds.OnlySets := fun _ g => ⟨[("Id", g.next.1)], rfl⟩

theorem Header.canonical_node (h : Header) (k : Kind) : (h.node k).attributes.Canonical :=
  Attributes.canonical_insert .nil _ _

theorem canonical_withModifiers (ms : List Modifier) (h : Header) (k : Kind) :
    (withModifiers ms (h.node k)).attributes.Canonical := by
  unfold withModifiers
  split
  · exact h.canonical_node k
  · exact Attributes.canonical_insert (h.canonical_node k) "Modifiers" (modifierText ms)

namespace Item

theorem canonical_attributes_toXml (i : Item) : i.toXml.attributes.Canonical := by
  cases i with
  | leaf h =>
    rw [toXml_leaf]
    exact h.canonical_node .item
  | complex h es =>
    rw [toXml_complex]
    exact h.canonical_node .complexItem
  | file h es name =>
    -- set after the literal, and sorted in before it
    rw [toXml_file]
    exact Attributes.canonical_insert (h.canonical_node .file) "FileName" name
  | loop h i c p b =>
    rw [toXml_loop]
    exact h.canonical_node .loop
  | type t =>
    cases t with
    | bare h =>
      rw [toXml_bare]
      exact h.canonical_node .type
    | applied h e =>
      rw [toXml_applied]
      exact h.canonical_node .type
  | property h ms t n c =>
    rw [toXml_property]
    exact canonical_withModifiers ms h .propertyDeclaration
  | parameter h t n =>
    rw [toXml_parameter]
    exact h.canonical_node .functionParameter

theorem canonical_toXml (i : Item) : i.toXml.Canonical := by
  rw [Node.canonical_iff_postorder]
  intro m hm
  obtain ⟨j, -, hm⟩ := List.mem_flatMap.1 (i.postorder_toXml_perm.mem_iff.1 hm)
  rcases List.mem_cons.1 hm with rfl | hm
  · exact j.canonical_attributes_toXml
  · obtain ⟨s, -, rfl⟩ := List.mem_map.1 hm
    exact .nil

end Item

namespace Node

variable {σ : Type} {hook : Hook σ}

theorem canonical_mapM {ns : List Node} (ih : ∀ n ∈ ns, ∀ s, ((n.finish hook).run s).1.Canonical) (s : σ) :
    ∀ m ∈ ((ns.mapM (finish hook)).run s).1, m.Canonical := by
  induction ns generalizing s with
  | nil => exact fun m hm => nomatch hm
  | cons n ns hns =>
    have hrest := hns (fun m hm => ih m (List.mem_cons_of_mem _ hm)) ((n.finish hook).run s).2
    rw [run_mapM_cons]
    exact List.forall_mem_cons.2 ⟨ih n List.mem_cons_self s, hrest⟩

/-- a pass that only sets attributes leaves them canonical -/
theorem Canonical.finish (hhook : hook.OnlySets) {n : Node} (hn : n.Canonical) (s : σ) :
    ((n.finish hook).run s).1.Canonical := by
  induction n using Node.ind generalizing s with
  | node tag as children ih =>
    obtain ⟨ha, hc⟩ := (canonical_iff _).1 hn
    have hall := canonical_mapM (fun c hmem => ih c hmem (hc c hmem)) s
    have hnode : Canonical ⟨tag, as, ((children.mapM (Node.finish hook)).run s).1⟩ := (canonical_iff _).2 ⟨ha, hall⟩
    rw [run_finish]
    split
    · obtain ⟨settings, hset⟩ := hhook _ ((children.mapM (Node.finish hook)).run s).2
      rw [hset]
      exact hnode.setAll settings
    · exact hnode

/-! ## nodes that are read -/

theorem yields_readAttributes (depth : Nat) : Json.Yields (readAttributes depth) Attributes.Canonical := by
  intro cs as rest h
  unfold readAttributes at h
  split at h
  · split at h
    · cases h
    · -- a repeated name is set again
      refine Json.yields_members (fun as name value has hvalue => ?_) .nil h
      cases hvalue
      exact Json.yields_bind _ fun _ => Json.yields_pure (Attributes.canonical_insert has _ _)
  · exact Json.yields_refuse _ h

theorem yields_readChildren {child : Json.Reader Node} {P : Node → Prop} (hchild : Json.Yields child P) (depth : Nat) :
    Json.Yields (readChildren depth child) fun ns => ∀ n ∈ ns, P n := by
  intro cs ns rest h
  unfold readChildren at h
  split at h
  · split at h
    · cases h
    · exact Json.yields_elements hchild h
  · exact Json.yields_refuse (P := fun ns => ∀ n ∈ ns, P n) _ h

/-- the fields that are there already are canonical -/
structure Draft.Canonical (d : Draft) : Prop where
  attributes : ∀ as ∈ d.attributes, as.Canonical
  children : ∀ ns ∈ d.children, ∀ n ∈ ns, n.Canonical

theorem Draft.Canonical.ofDraft {d : Draft} (h : d.Canonical) : (ofDraft d).Canonical := by
  refine (canonical_iff _).2 ⟨?_, ?_⟩
  · show (d.attributes.getD []).Canonical
    cases hd : d.attributes with
    | none => exact .nil
    | some as => exact h.attributes as hd
  · show ∀ n ∈ d.children.getD [], n.Canonical
    cases hd : d.children with
    | none => exact fun n hn => nomatch hn
    | some ns => exact h.children ns hd

theorem yields_record {child : Json.Reader Node} (hchild : Json.Yields child Canonical) (depth limit : Nat) :
    Json.Yields (do return ofDraft (← (record depth child).read limit)) Canonical := by
  have hstart : Draft.Canonical {} := ⟨fun _ h => (nomatch h), fun _ h => (nomatch h)⟩
  have hfields : ∀ f ∈ (record depth child).fields, ∀ d, Draft.Canonical d →
      Json.Yields (f.read d) Draft.Canonical := by
    simp only [record, List.forall_mem_cons]
    refine ⟨fun d hd => ?_, fun d hd => ?_, fun d hd => ?_, List.forall_mem_nil _⟩
    · exact Json.yields_bind _ fun _ => Json.yields_pure ⟨hd.attributes, hd.children⟩
    · refine (yields_readAttributes depth).bind fun as has => Json.yields_pure ⟨fun bs hbs => ?_, hd.children⟩
      exact Option.some.inj hbs ▸ has
    · refine (yields_readChildren hchild depth).bind fun ns hns => Json.yields_pure ⟨hd.attributes, fun ms hms => ?_⟩
      exact Option.some.inj hms ▸ hns
  exact (Json.Record.yields_read hfields hstart limit).bind fun d hd => Json.yields_pure hd.ofDraft

theorem yields_read : ∀ depth, Json.Yields (read depth) Canonical
  | 0 => yields_record (Json.yields_fail _) 0 0
  | 1 => yields_record (Json.yields_fail _) 0 1
  | depth + 2 => yields_record (yields_read depth) (depth + 1) (depth + 2)

/-! ## all nodes -/

/-- nodes that are built step by step, exported through a hook that sets attributes, or read from JSON text -/
inductive Obtainable : Node → Prop
  | new (tag : String) : Obtainable { tag := tag }
  | set {n : Node} (name value : String) : Obtainable n → Obtainable (n.set name value)
  | push {n child : Node} : Obtainable n → Obtainable child → Obtainable (n.push child)
  | exported {σ : Type} {hook : Hook σ} (i : Item) (s : σ) :
      hook.OnlySets → Obtainable ((i.exportWith hook).run s).1
  | read {text : String} {n : Node} : Node.parse text = .ok n → Obtainable n

theorem Obtainable.canonical {n : Node} (h : n.Obtainable) : n.Canonical := by
  induction h with
  | new tag => exact (canonical_iff _).2 ⟨.nil, fun c hc => nomatch hc⟩
  | set name value _ ih => exact ih.set name value
  | push _ _ ih ihchild => exact ih.push ihchild
  | exported i s hhook =>
    rw [i.exportWith_eq_finish]
    exact i.canonical_toXml.finish hhook s
  | read hparse => exact (yields_read _).readAll hparse

end Node

/-- **Attributes are canonical.** However a node was built, exported or read, the names of its attributes ascend
strictly and stand once, at every depth. After settings in a row the last value of a name counts, and if two rows of
settings agree in the last value of every name, then the nodes, their XML texts and their JSON texts are the same. -/
theorem attributes_are_canonical (n : Node) (hn : n.Obtainable) :
    (∀ m ∈ n.postorder, (m.attributes.map Prod.fst).Pairwise (· < ·) ∧ (m.attributes.map Prod.fst).Nodup) ∧
    (∀ s name, (n.setAll s).get? name = (lastValue? s name).or (n.get? name)) ∧
    ∀ s t : List (String × String), (∀ name, lastValue? s name = lastValue? t name) →
      n.setAll s = n.setAll t ∧ (n.setAll s).text = (n.setAll t).text ∧
        (n.setAll s).toJson.text = (n.setAll t).toJson.text := by
  refine ⟨fun m hm => ?_, n.get?_setAll, fun s t hst => ?_⟩
  · have hm := n.canonical_iff_postorder.1 hn.canonical m hm
    exact ⟨List.pairwise_map.2 hm, hm.nodup⟩
  · have heq := hn.canonical.setAll_eq hst
    rw [heq]
    exact ⟨rfl, rfl, rfl⟩

/-- a node read from a text that has a name twice, with another attribute and a child that was exported with ids; then
settings in two orders, one of which sets a name twice -/
theorem attributes_are_canonical_repeated :
    let text := "\x7b\"tag\":\"Block\",\"attributes\":\x7b\"b\":\"1\",\"a\":\"2\",\"b\":\"3\"\x7d\x7d"
    let read : Node := ⟨"Block", [("a", "2"), ("b", "3")], []⟩
    let child := (((Item.file {} [] "f").exportWith Hook.assigningIds).run (Generator.ofDocument "f")).1
    let n := (read.set "B" "4").push child
    let s := [("z", "1"), ("a", "5"), ("z", "6")]
    let t := [("z", "6"), ("a", "5")]
    Node.parse text = .ok read ∧ n.Obtainable ∧
      (∀ m ∈ n.postorder, (m.attributes.map Prod.fst).Pairwise (· < ·)) ∧
      n.attributes.map Prod.fst = ["B", "a", "b"] ∧ child.attributes.map Prod.fst = ["FileName", "Id", "Value"] ∧
      (n.setAll s).text = (n.setAll t).text := by
  intro text read child n s t
  have hread : Node.parse text = .ok read := by decide +kernel
  have hn : n.Obtainable := ((Node.Obtainable.read hread).set "B" "4").push (.exported _ _ Hook.onlySets_assigningIds)
  have hlast : ∀ name, lastValue? s name = lastValue? t name := by
    intro name
    rw [lastValue?_cons, lastValue?_cons, lastValue?_cons, lastValue?_cons, lastValue?_cons]
    split <;> simp_all
  obtain ⟨hnames, -, hset⟩ := attributes_are_canonical n hn
  exact ⟨hread, hn, fun m hm => (hnames m hm).1, by decide +kernel, by decide +kernel, (hset s t hlast).2.1⟩

end ItemTree

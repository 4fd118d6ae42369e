import ItemTree.Ident.Generator
import ItemTree.Proofs.Xml.Census
import Mathlib.Algebra.GroupWithZero.Nat
import Mathlib.Data.List.Nodup

/-!
# Ids are handed out in sequence

* `Generator.ids`: the ids that a generator hands out one after the other;
* `Node.Stamped`: a node with these ids on its finished nodes and nothing else changed;
* `Node.stamped_finish`: what an export that assigns ids makes of the plain one.
-/

namespace ItemTree

/-! ## sequences of ids -/

namespace Generator

/-- the generator after some more ids -/
def after (g : Generator) (n : Nat) : Generator := (fun g => g.next.2)^[n] g

/-- the next ids, in order -/
def ids (g : Generator) (n : Nat) : List String := (List.range n).map fun k => (g.after k).next.1

variable (g : Generator)

theorem after_succ (n : Nat) : g.after (n + 1) = (g.after n).next.2 := Function.iterate_succ_apply' _ n g

theorem after_add (m n : Nat) : g.after (m + n) = (g.after m).after n := by
  unfold after
  rw [Nat.add_comm, Function.iterate_add_apply]

theorem ids_succ (n : Nat) : g.ids (n + 1) = g.ids n ++ [(g.after n).next.1] := by
  unfold ids
  rw [List.range_succ, List.map_append, List.map_singleton]

theorem ids_add (m n : Nat) : g.ids (m + n) = g.ids m ++ (g.after m).ids n := by
  induction n with
  | zero => simp [ids]
  | succ n ih => rw [← Nat.add_assoc, ids_succ, ih, ids_succ, after_add, List.append_assoc]

theorem seed_after (n : Nat) : (g.after n).seed = g.seed := by
  induction n with
  | zero => rfl
  | succ n ih =>
    rw [after_succ]
    exact ih

/-- the count does not wrap below its limit -/
theorem toNat_count_after {n : Nat} (h : g.count.toNat + n < 2 ^ 32) :
    (g.after n).count.toNat = g.count.toNat + n := by
  induction n with
  | zero => rfl
  | succ n ih =>
    have hn := ih (by omega)
    have hnext : (g.after (n + 1)).count = (g.after n).count + 1 := by
      rw [after_succ]
      rfl
    have hone : (1 : UInt32).toNat = 1 := rfl
    rw [hnext, UInt32.toNat_add, hn, hone, Nat.mod_eq_of_lt (by omega)]
    omega

theorem next_after (n : Nat) : (g.after n).next.1 = idText g.seed (g.after (n + 1)).count.toNat := by
  rw [← g.seed_after n, after_succ]
  rfl

/-- seed and running numbers -/
theorem ids_eq {n : Nat} (h : g.count.toNat + n < 2 ^ 32) :
    g.ids n = (List.range' (g.count.toNat + 1) n).map (idText g.seed) := by
  induction n with
  | zero => rfl
  | succ n ih =>
    have hid : (g.after n).next.1 = idText g.seed (g.count.toNat + 1 + n) := by
      rw [next_after, g.toNat_count_after h, Nat.add_comm n 1, Nat.add_assoc]
    rw [ids_succ, ih (by omega), hid, List.range'_1_concat, List.map_append, List.map_singleton]

theorem idText_injective (seed : String) : Function.Injective (idText seed) := by
  intro m n h
  have hdigits : Nat.toDigits 10 m = Nat.toDigits 10 n := by
    unfold idText at h
    rw [String.append_right_inj] at h
    exact String.ofList_injective h
  calc m = Nat.ofDigitChars 10 (Nat.toDigits 10 m) 0 := Nat.ofDigitChars_ten_toDigits.symm
    _ = Nat.ofDigitChars 10 (Nat.toDigits 10 n) 0 := by rw [hdigits]
    _ = n := Nat.ofDigitChars_ten_toDigits

end Generator

/-! ## attributes taken away -/

namespace Attributes

/-- all attributes but one -/
def erase (name : String) (as : Attributes) : Attributes := as.filter fun a => a.1 ≠ name

theorem erase_cons (name : String) (a : String × String) (as : Attributes) :
    erase name (a :: as) = if a.1 = name then as.erase name else a :: as.erase name := by
  unfold erase
  by_cases h : a.1 = name
  · simp [h]
  · simp [h]

theorem erase_of_lookup {name : String} {as : Attributes} (h : as.lookup name = none) : as.erase name = as := by
  apply List.filter_eq_self.2
  intro a ha
  have hne : name ≠ a.1 := by simpa using List.lookup_eq_none_iff.1 h a ha
  simpa using Ne.symm hne

theorem erase_insert {name : String} {as : Attributes} (h : as.lookup name = none) (value : String) :
    (as.insert name value).erase name = as := by
  induction as with
  | nil => simp [insert, erase]
  | cons a rest ih =>
    obtain ⟨n, v⟩ := a
    have hall := erase_of_lookup h
    rw [lookup_cons] at h
    unfold insert
    by_cases hlt : name < n
    · rw [if_pos hlt, erase_cons, if_pos rfl, hall]
    · by_cases hn : name = n
      · rw [if_pos hn] at h
        cases h
      · rw [if_neg hn] at h
        rw [if_neg hlt, if_neg hn, erase_cons, if_neg (Ne.symm hn), ih h]

end Attributes

namespace Node

mutual
/-- the node without an attribute, at every depth -/
def without (name : String) : Node → Node
  | ⟨tag, as, children⟩ => ⟨tag, as.erase name, withoutAll name children⟩
def withoutAll (name : String) : List Node → List Node
  | [] => []
  | n :: ns => n.without name :: withoutAll name ns
end

theorem withoutAll_eq (name : String) (ns : List Node) : withoutAll name ns = ns.map (without name) := by
  induction ns with
  | nil => rfl
  | cons n ns ih => rw [withoutAll, ih, List.map_cons]

theorem without_eq (name : String) (n : Node) :
    n.without name = ⟨n.tag, n.attributes.erase name, n.children.map (without name)⟩ := by
  cases n
  rw [without, withoutAll_eq]

/-! ## stamped nodes -/

/-- the ids of a node and all below it, in post-order -/
def ids (n : Node) : List String := n.postorder.filterMap fun m => m.get? "Id"

theorem ids_eq (n : Node) : n.ids = n.children.flatMap ids ++ (n.get? "Id").toList := by
  unfold ids
  rw [postorder_eq, List.filterMap_append, List.filterMap_flatMap]
  cases h : n.get? "Id" <;> simp [h]

/-- no node has an id yet -/
def Unstamped (n : Node) : Prop := ∀ m ∈ n.postorder, m.get? "Id" = none

/-- the nodes with an id are those with a literal -/
def Marked (n : Node) : Prop := ∀ m ∈ n.postorder, (m.get? "Id").isSome = m.hasLiteral

/-- what the next ids of a generator make of a node -/
structure Stamped (g : Generator) (n m : Node) : Prop where
  ids : m.ids = g.ids n.finished.length
  plain : m.without "Id" = n
  marked : m.Marked
  hasLiteral_eq : m.hasLiteral = n.hasLiteral

/-- nodes stamped one after the other -/
inductive StampedAll : Generator → List Node → List Node → Prop
  | nil (g : Generator) : StampedAll g [] []
  | cons {g : Generator} {n m : Node} {ns ms : List Node} :
      Stamped g n m → StampedAll (g.after n.finished.length) ns ms → StampedAll g (n :: ns) (m :: ms)

namespace StampedAll

variable {g : Generator} {ns ms : List Node}

theorem ids (h : StampedAll g ns ms) : ms.flatMap Node.ids = g.ids (ns.flatMap finished).length := by
  induction h with
  | nil g => rfl
  | cons hn _ ih => rw [List.flatMap_cons, List.flatMap_cons, List.length_append, hn.ids, ih, Generator.ids_add]

theorem plain (h : StampedAll g ns ms) : ms.map (without "Id") = ns := by
  induction h with
  | nil g => rfl
  | cons hn _ ih => rw [List.map_cons, hn.plain, ih]

theorem marked (h : StampedAll g ns ms) : ∀ m ∈ ms, m.Marked := by
  induction h with
  | nil g => exact fun m hm => nomatch hm
  | cons hn _ ih =>
    intro m hm
    rcases List.mem_cons.1 hm with rfl | hm
    · exact hn.marked
    · exact ih m hm

/-- a node is stamped from where the nodes before it have left the generator -/
theorem get (h : StampedAll g ns ms) {k : Nat} {n m : Node} (hn : ns[k]? = some n) (hm : ms[k]? = some m) :
    Stamped (g.after ((ns.take k).flatMap finished).length) n m := by
  induction h generalizing k with
  | nil g => cases hn
  | cons hfirst _ ih =>
    cases k with
    | zero =>
      cases hn
      cases hm
      exact hfirst
    | succ k =>
      have hrest := ih hn hm
      rw [List.take_succ_cons, List.flatMap_cons, List.length_append, Generator.after_add]
      exact hrest

end StampedAll

/-- one step for the node of an item: it takes the id after those of its children -/
theorem stamped_set {g : Generator} {n : Node} {ms : List Node} (h : StampedAll g n.children ms)
    (hl : n.hasLiteral = true) (hid : n.get? "Id" = none) :
    Stamped g n ({ n with children := ms }.set "Id" (g.after (n.children.flatMap finished).length).next.1) := by
  have hlit : ({ n with children := ms }.set "Id" (g.after (n.children.flatMap finished).length).next.1).hasLiteral =
      true := hasLiteral_set (by simpa using hl) _ _
  refine ⟨?_, ?_, ?_, by rw [hlit, hl]⟩
  · rw [ids_eq, get?_set, if_pos rfl, children_set, h.ids, finished_eq, if_pos hl, List.length_append,
      List.length_singleton, Generator.ids_succ]
    rfl
  · have herase := Attributes.erase_insert hid (g.after (n.children.flatMap finished).length).next.1
    rw [without_eq, children_set, h.plain]
    obtain ⟨tag, as, children⟩ := n
    exact congrArg (Node.mk tag · children) herase
  · refine forall_mem_postorder.2 ⟨h.marked, ?_⟩
    rw [get?_set, if_pos rfl, hlit]
    rfl

/-- one step for a wrapper: nothing happens to it -/
theorem stamped_of_wrapper {g : Generator} {n : Node} {ms : List Node} (h : StampedAll g n.children ms)
    (hl : n.hasLiteral = false) (hid : n.get? "Id" = none) : Stamped g n { n with children := ms } := by
  have hid' : { n with children := ms }.get? "Id" = none := hid
  refine ⟨?_, ?_, ?_, rfl⟩
  · rw [ids_eq, hid', h.ids, finished_eq, hl]
    simp
  · rw [without_eq, h.plain]
    obtain ⟨tag, as, children⟩ := n
    exact congrArg (Node.mk tag · children) (Attributes.erase_of_lookup hid)
  · refine forall_mem_postorder.2 ⟨h.marked, ?_⟩
    rw [hid', hasLiteral_children, hl]
    rfl

theorem state_assigningIds (n : Node) (g : Generator) : ((Hook.assigningIds n).run g).2 = g.next.2 := rfl

theorem stampedAll_mapM {ns : List Node} (ih : ∀ n ∈ ns, ∀ g, Stamped g n ((n.finish Hook.assigningIds).run g).1)
    (g : Generator) : StampedAll g ns ((ns.mapM (finish Hook.assigningIds)).run g).1 := by
  induction ns generalizing g with
  | nil => exact .nil g
  | cons n ns hns =>
    have hn := ih n List.mem_cons_self g
    have hrest : StampedAll (g.after n.finished.length) ns
        ((ns.mapM (finish Hook.assigningIds)).run ((n.finish Hook.assigningIds).run g).2).1 := by
      rw [state_finish state_assigningIds]
      exact hns (fun m hm => ih m (List.mem_cons_of_mem _ hm)) _
    rw [run_mapM_cons]
    exact .cons hn hrest

/-- **The pass stamps**: a node without ids gets the next ids of the generator, and nothing else changes. -/
theorem stamped_finish {n : Node} (hn : n.Unstamped) (g : Generator) :
    Stamped g n ((n.finish Hook.assigningIds).run g).1 := by
  induction n using Node.ind generalizing g with
  | node tag as children ih =>
    obtain ⟨hchildren, hid⟩ := forall_mem_postorder.1 hn
    have hall := stampedAll_mapM (fun c hc => ih c hc (hchildren c hc)) g
    have hstate : ((children.mapM (finish Hook.assigningIds)).run g).2 = _ :=
      state_mapM (fun c _ s => state_finish state_assigningIds c s) g
    rw [run_finish]
    split
    · rename_i hl
      have hset := stamped_set hall hl hid
      rw [Generator.after, ← hstate] at hset
      exact hset
    · rename_i hl
      exact stamped_of_wrapper hall (by simpa using hl) hid

/-- the node of an item is finished last -/
theorem Stamped.get?_eq {g : Generator} {n m : Node} (h : Stamped g n m) (hn : n.hasLiteral = true) :
    m.get? "Id" = m.ids.getLast? := by
  have hid : (m.get? "Id").isSome = true := by
    rw [(forall_mem_postorder.1 h.marked).2, h.hasLiteral_eq, hn]
  obtain ⟨id, hid⟩ := Option.isSome_iff_exists.1 hid
  rw [ids_eq, hid, Option.toList_some, List.getLast?_concat]

end Node

/-! ## exports -/

namespace Item

theorem unstamped_toXml (i : Item) : i.toXml.Unstamped := by
  intro m hm
  obtain ⟨j, -, hm⟩ := List.mem_flatMap.1 (i.postorder_toXml_perm.mem_iff.1 hm)
  rcases List.mem_cons.1 hm with rfl | hm
  · exact j.heads_toXml.other "Id" (by decide)
  · obtain ⟨s, -, rfl⟩ := List.mem_map.1 hm
    rfl

theorem mapM_exportWith_eq_finish {σ : Type} (hook : Hook σ) (is : List Item) :
    is.mapM (exportWith hook) = (is.map toXml).mapM (Node.finish hook) := by
  rw [← exportEntries_eq, exportEntries_eq_finish fun i _ => i.exportWith_eq_finish hook]

theorem length_finished_all (is : List Item) :
    ((is.map toXml).flatMap Node.finished).length = (is.map count).sum := by
  induction is with
  | nil => rfl
  | cons i is ih =>
    rw [List.map_cons, List.flatMap_cons, List.length_append, ih, length_finished, List.map_cons, List.sum_cons]

theorem count_pos (i : Item) : 0 < i.count := by
  rw [count_eq, subitems_eq, List.length_cons]
  omega

theorem sum_count_take {is : List Item} {k : Nat} {i : Item} (hi : is[k]? = some i) :
    ((is.take k).map count).sum + i.count ≤ (is.map count).sum := by
  obtain ⟨hk, rfl⟩ := List.getElem?_eq_some_iff.1 hi
  have hsplit : (is.map count).sum = ((is.take k).map count).sum + ((is.drop k).map count).sum := by
    rw [← List.sum_append, ← List.map_append, List.take_append_drop]
  rw [hsplit, List.drop_eq_getElem_cons hk, List.map_cons, List.sum_cons]
  omega

/-- a stamped export has the next ids of the generator, and its root the last of them -/
theorem ids_of_stamped {i : Item} {g : Generator} {n : Node} (h : Node.Stamped g i.toXml n)
    (hlt : g.count.toNat + i.count < 2 ^ 32) :
    n.ids = (List.range' (g.count.toNat + 1) i.count).map (Generator.idText g.seed) ∧
      n.get? "Id" = some (Generator.idText g.seed (g.count.toNat + i.count)) := by
  have hids : n.ids = (List.range' (g.count.toNat + 1) i.count).map (Generator.idText g.seed) := by
    rw [h.ids, i.length_finished, g.ids_eq hlt]
  refine ⟨hids, ?_⟩
  obtain ⟨c, hc⟩ : ∃ c, i.count = c + 1 := ⟨i.count - 1, by have := i.count_pos; omega⟩
  rw [h.get?_eq i.hasLiteral_toXml, hids, hc, List.range'_1_concat, List.map_append, List.map_singleton,
    List.getLast?_concat]
  congr 2
  omega

end Item

/-- **Ids are sequential.** Items exported one after the other, with one generator for a document, take the ids
`seed-1`, `seed-2` and so on in post-order, as many as there are items; no id stands twice, and wrappers have none. The
root of every export has the last id of its own. Without the ids the exports are the plain ones. -/
theorem ids_are_sequential (document : String) (is : List Item) (hlt : (is.map Item.count).sum < 2 ^ 32) :
    let seed := documentId document
    let total := (is.map Item.count).sum
    let r := (is.mapM (Item.exportWith Hook.assigningIds)).run (Generator.ofDocument document)
    r.1.flatMap Node.ids = (List.range' 1 total).map (Generator.idText seed) ∧
    (r.1.flatMap Node.ids).Nodup ∧
    (∀ n ∈ r.1, ∀ m ∈ n.postorder, (m.get? "Id").isSome = m.hasLiteral) ∧
    r.2.count.toNat = total ∧ r.2.seed = seed ∧
    (∀ k i n, is[k]? = some i → r.1[k]? = some n →
      let before := ((is.take k).map Item.count).sum
      n.ids = (List.range' (before + 1) i.count).map (Generator.idText seed) ∧
        n.get? "Id" = some (Generator.idText seed (before + i.count))) ∧
    r.1.map (Node.without "Id") = is.map Item.toXml := by
  intro seed total r
  let g := Generator.ofDocument document
  have hzero : g.count.toNat = 0 := rfl
  have hr : r = ((is.map Item.toXml).mapM (Node.finish Hook.assigningIds)).run g :=
    congrArg (StateT.run · g) (Item.mapM_exportWith_eq_finish _ is)
  have hstamped : ∀ n ∈ is.map Item.toXml, ∀ g, Node.Stamped g n ((n.finish Hook.assigningIds).run g).1 := by
    intro n hn g
    obtain ⟨i, -, rfl⟩ := List.mem_map.1 hn
    exact Node.stamped_finish i.unstamped_toXml g
  have hall : Node.StampedAll g (is.map Item.toXml) r.1 := by
    rw [hr]
    exact Node.stampedAll_mapM hstamped g
  have hstate : r.2 = g.after total := by
    rw [hr, Node.state_mapM (fun n _ s => Node.state_finish Node.state_assigningIds n s), Item.length_finished_all]
    rfl
  have hids : r.1.flatMap Node.ids = (List.range' 1 total).map (Generator.idText seed) := by
    rw [hall.ids, Item.length_finished_all, g.ids_eq (by omega), hzero]
    rfl
  refine ⟨hids, ?_, hall.marked, ?_, ?_, fun k i n hi hn => ?_, hall.plain⟩
  · rw [hids]
    exact List.Nodup.map (Generator.idText_injective seed) List.nodup_range'
  · rw [hstate, g.toNat_count_after (by omega), hzero, Nat.zero_add]
  · rw [hstate, g.seed_after]
    rfl
  · intro before
    have hle := Item.sum_count_take hi
    have hk : Node.Stamped (g.after before) i.toXml n := by
      have h := hall.get (by rw [List.getElem?_map, hi]; rfl) hn
      rwa [← List.map_take, Item.length_finished_all] at h
    have hbefore : (g.after before).count.toNat = before := by
      rw [g.toNat_count_after (by omega), hzero, Nat.zero_add]
    have hroot := Item.ids_of_stamped hk (by omega)
    rw [hbefore, g.seed_after] at hroot
    exact hroot

/-- a file with a leaf and a loop, then a parameter with a type: the second export goes on at the fifth id -/
theorem ids_are_sequential_two_exports :
    let is : List Item :=
      [.file {} [.leaf {}, .loop {} none (some (.leaf {})) none none] "a", .parameter {} (some (.bare {})) none]
    let r := (is.mapM (Item.exportWith Hook.assigningIds)).run (Generator.ofDocument "main.qml")
    (is.map Item.count).sum < 2 ^ 32 ∧
      r.1.flatMap Node.ids = (List.range' 1 6).map (Generator.idText (documentId "main.qml")) ∧
      r.2.count.toNat = 6 ∧
      ∀ n, r.1[1]? = some n → n.get? "Id" = some (Generator.idText (documentId "main.qml") 6) := by
  intro is r
  have hsum : (is.map Item.count).sum = 6 := by decide
  have hlt : (is.map Item.count).sum < 2 ^ 32 := by omega
  obtain ⟨hids, -, -, hcount, -, hroots, -⟩ := ids_are_sequential "main.qml" is hlt
  rw [hsum] at hids hcount
  exact ⟨hlt, hids, hcount, fun n hn => (hroots 1 _ n rfl hn).2⟩

end ItemTree

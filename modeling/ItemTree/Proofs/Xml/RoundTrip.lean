import ItemTree.Xml.Json
import ItemTree.Proofs.Json.Reads
import ItemTree.Proofs.Xml.Node

/-!
# Nodes are read back from their JSON text

A level of a tree costs two brackets, one for the node and one for its list of children, and the reader allows only so
many. `Node.brackets` counts them, and decides alone whether a node is read back:

* `Json.depth`: nested brackets of a JSON value, which `depth_toJson` relates to `Node.brackets`;
* `Attributes.foldl_insert`: ascending attributes are the same after they were inserted one by one;
* `Node.reads_read`: what `Node.read` makes of a written node, at any depth.
-/

namespace ItemTree

/-! ## nested brackets -/

namespace Json

mutual
/-- brackets open at once in the text of a value, at most -/
def depth : Json → Nat
  | null => 0
  | bool _ => 0
  | number _ => 0
  | string _ => 0
  | array vs => 1 + depthAll vs
  | object ms => 1 + depthMembers ms
def depthAll : List Json → Nat
  | [] => 0
  | v :: vs => max (depth v) (depthAll vs)
def depthMembers : List (String × Json) → Nat
  | [] => 0
  | (_, v) :: ms => max (depth v) (depthMembers ms)
end

theorem depthMembers_append (ms ns : List (String × Json)) :
    depthMembers (ms ++ ns) = max (depthMembers ms) (depthMembers ns) := by
  induction ms with
  | nil => simp [depthMembers]
  | cons m ms ih => rw [List.cons_append, depthMembers, depthMembers, ih, Nat.max_assoc]

theorem depthMembers_strings (as : List (String × String)) :
    depthMembers (as.map fun a => (a.1, .string a.2)) = 0 := by
  induction as with
  | nil => rfl
  | cons a as ih => rw [List.map_cons, depthMembers, ih, depth, Nat.max_self]

end Json

namespace Node

mutual
/-- brackets of the JSON form: those of the object, its attributes and its children, if it has any -/
def brackets : Node → Nat
  | ⟨_, as, children⟩ => max (if as.isEmpty then 1 else 2) (if children.isEmpty then 1 else 2 + bracketsAll children)
/-- the most brackets of a node in the list -/
def bracketsAll : List Node → Nat
  | [] => 0
  | n :: ns => max n.brackets (bracketsAll ns)
end

/-- a node below `k` others, each the only child of the one before -/
def nested (leaf : Node) : Nat → Node
  | 0 => leaf
  | k + 1 => ⟨"Block", [], [leaf.nested k]⟩

theorem brackets_nested (leaf : Node) (k : Nat) : (leaf.nested k).brackets = leaf.brackets + 2 * k := by
  induction k with
  | zero => rfl
  | succ k ih =>
    rw [nested, brackets, bracketsAll, bracketsAll, ih, Nat.max_zero]
    show max 1 (2 + (leaf.brackets + 2 * k)) = _
    omega

theorem canonical_nested (leaf : Node) (h : leaf.Canonical) (k : Nat) : (leaf.nested k).Canonical := by
  induction k with
  | zero => exact h
  | succ k ih => exact ⟨.nil, ih, trivial⟩

theorem brackets_eq (n : Node) : n.brackets =
    max (if n.attributes.isEmpty then 1 else 2) (if n.children.isEmpty then 1 else 2 + bracketsAll n.children) := by
  cases n
  rw [brackets]

theorem brackets_pos (n : Node) : 0 < n.brackets := by
  rw [brackets_eq]
  split <;> omega

theorem bracketsAll_lt {ns : List Node} {d : Nat} (hd : 0 < d) : bracketsAll ns < d ↔ ∀ n ∈ ns, n.brackets < d := by
  induction ns with
  | nil => simpa [bracketsAll] using hd
  | cons n ns ih => rw [bracketsAll, Nat.max_lt, ih, List.forall_mem_cons]

theorem toJsonAll_eq (ns : List Node) : toJsonAll ns = ns.map toJson := by
  induction ns with
  | nil => rfl
  | cons n ns ih => rw [toJsonAll, ih, List.map_cons]

theorem toJson_eq (n : Node) : n.toJson =
    .object (("tag", .string n.tag) :: (attributesMember n.attributes ++ childrenMember (n.children.map toJson))) := by
  cases n
  rw [toJson, toJsonAll_eq]

theorem depth_attributesMember (as : Attributes) :
    Json.depthMembers (attributesMember as) = if as.isEmpty then 0 else 1 := by
  unfold attributesMember
  split
  · rfl
  · rw [Json.depthMembers, Json.depth, Json.depthMembers_strings]
    rfl

theorem depth_childrenMember (vs : List Json) :
    Json.depthMembers (childrenMember vs) = if vs.isEmpty then 0 else 1 + Json.depthAll vs := by
  unfold childrenMember
  split
  · rfl
  · rw [Json.depthMembers, Json.depth, Json.depthMembers, Nat.max_zero]

theorem depthAll_toJson {ns : List Node} (h : ∀ n ∈ ns, n.toJson.depth = n.brackets) :
    Json.depthAll (ns.map toJson) = bracketsAll ns := by
  induction ns with
  | nil => rfl
  | cons n ns ih =>
    rw [List.map_cons, Json.depthAll, bracketsAll, h n List.mem_cons_self,
      ih fun m hm => h m (List.mem_cons_of_mem _ hm)]

theorem depth_toJson (n : Node) : n.toJson.depth = n.brackets := by
  induction n using Node.ind with
  | node tag as children ih =>
    rw [toJson_eq, Json.depth, Json.depthMembers, Json.depthMembers_append, depth_attributesMember,
      depth_childrenMember, depthAll_toJson ih, brackets, Json.depth, List.isEmpty_map]
    split <;> split <;> omega

end Node

/-! ## attributes -/

namespace Attributes

theorem insert_of_forall_lt {as : Attributes} {name : String} (h : ∀ a ∈ as, a.1 < name) (value : String) :
    as.insert name value = as ++ [(name, value)] := by
  induction as with
  | nil => rfl
  | cons a as ih =>
    obtain ⟨n, v⟩ := a
    have hn : n < name := h (n, v) List.mem_cons_self
    have hlt : ¬ name < n := String.lt_asymm hn
    have hne : name ≠ n := fun he => String.lt_irrefl n (he ▸ hn)
    rw [insert, if_neg hlt, if_neg hne, ih fun b hb => h b (List.mem_cons_of_mem _ hb), List.cons_append]

theorem foldl_insert {as bs : Attributes} (h : Canonical (as ++ bs)) :
    bs.foldl (fun cs a => cs.insert a.1 a.2) as = as ++ bs := by
  induction bs generalizing as with
  | nil => rw [List.foldl_nil, List.append_nil]
  | cons b bs ih =>
    have hlt : ∀ a ∈ as, a.1 < b.1 := fun a ha => (List.pairwise_append.1 h).2.2 a ha b List.mem_cons_self
    rw [List.foldl_cons, insert_of_forall_lt hlt, ih (by simpa using h), List.append_assoc, List.singleton_append]

end Attributes

/-! ## reading -/

namespace Node

open Json (Reads ReadsMembers)

theorem readsMembers_insert (as bs : Attributes) :
    ReadsMembers id (fun cs name => .ok (do return Attributes.insert name (← Json.readString) cs)) bs
      (as.map fun a => (a.1, .string a.2)) (.ok (as.foldl (fun cs a => cs.insert a.1 a.2) bs)) := by
  induction as generalizing bs with
  | nil => exact .nil bs
  | cons a as ih => exact .cons (.of_ok rfl ((Json.reads_readString a.2).map _)) (ih _)

/-- attributes take one bracket -/
theorem reads_attributes {as : Attributes} (ha : as.Canonical) (depth : Nat) :
    Reads (readAttributes depth) (Json.object (as.map fun a => (a.1, .string a.2))).chars
      (if 0 < depth then .ok as else .error .malformed) := by
  intro rest hrest
  rw [Json.chars_object]
  cases depth with
  | zero => rfl
  | succ depth =>
    have hread := (readsMembers_insert as []).reads_members Json.stringTail_append rest hrest
    rw [Attributes.foldl_insert (by simpa using ha)] at hread
    exact hread

theorem mapM_ite {α ε : Type} (p : α → Prop) [DecidablePred p] (e : ε) (xs : List α) :
    xs.mapM (fun x => if p x then Except.ok x else .error e) = if ∀ x ∈ xs, p x then .ok xs else .error e := by
  induction xs with
  | nil => rfl
  | cons x xs ih =>
    rw [List.mapM_cons, ih]
    by_cases hx : p x
    · by_cases hxs : ∀ y ∈ xs, p y
      · rw [if_pos hx, if_pos hxs, if_pos (List.forall_mem_cons.2 ⟨hx, hxs⟩)]
        rfl
      · rw [if_pos hx, if_neg hxs, if_neg fun h => hxs (List.forall_mem_cons.1 h).2]
        rfl
    · rw [if_neg hx, if_neg fun h => hx (List.forall_mem_cons.1 h).1]
      rfl

/-- a list as a field that is left out when empty -/
def listed? {α : Type} (xs : List α) : Option (List α) := if xs.isEmpty then none else some xs

theorem getD_listed? {α : Type} (xs : List α) : (listed? xs).getD [] = xs := by
  cases xs <;> rfl

theorem ofDraft_listed? (n : Node) : ofDraft ⟨some n.tag, listed? n.attributes, listed? n.children⟩ = n := by
  cases n
  simp only [ofDraft, getD_listed?, Option.getD_some]

theorem readsMembers_attributesMember {as : Attributes} (ha : as.Canonical) (depth : Nat) (child : Json.Reader Node)
    (tag : Option String) :
    ReadsMembers id (record depth child).member ⟨tag, none, none⟩ (attributesMember as)
      (if (if as.isEmpty then 1 else 2) ≤ depth + 1 then .ok ⟨tag, listed? as, none⟩ else .error .malformed) := by
  unfold attributesMember listed?
  split
  · rw [if_pos (Nat.le_add_left 1 depth)]
    exact .nil _
  · have hfield : (record depth child).member ⟨tag, none, none⟩ "attributes" =
        .ok (do return ⟨tag, some (← readAttributes depth), none⟩) := by
      simp [record, Json.Record.member]
    have hread := (reads_attributes ha depth).map fun as => (⟨tag, some as, none⟩ : Draft)
    have hfits : 0 < depth ↔ 2 ≤ depth + 1 := by omega
    rw [apply_ite (Except.map _)] at hread
    simp only [hfits] at hread
    exact .single (.of_ok hfield hread)

section

-- one level of the reader: `child` stands for the levels below, which have one bracket less for the list around them
variable {n : Node} {depth : Nat} {child : Json.Reader Node}
  (hchild : ∀ c ∈ n.children, Reads child c.toJson.chars (if c.brackets < depth then .ok c else .error .malformed))

include hchild

/-- children take one bracket, and theirs -/
theorem reads_children :
    Reads (readChildren depth child) (Json.array (n.children.map toJson)).chars
      (if bracketsAll n.children < depth then .ok n.children else .error .malformed) := by
  intro rest hrest
  rw [Json.chars_array]
  cases depth with
  | zero => rfl
  | succ depth =>
    have hread := Json.reads_elements hchild rest hrest
    rw [mapM_ite] at hread
    simp only [← bracketsAll_lt (Nat.succ_pos depth)] at hread
    exact hread

theorem readsMembers_childrenMember (tag : Option String) (as : Option Attributes) :
    ReadsMembers id (record depth child).member ⟨tag, as, none⟩ (childrenMember (n.children.map toJson))
      (if (if n.children.isEmpty then 1 else 2 + bracketsAll n.children) ≤ depth + 1 then
          .ok ⟨tag, as, listed? n.children⟩
        else .error .malformed) := by
  unfold childrenMember listed?
  rw [List.isEmpty_map]
  split
  · rw [if_pos (Nat.le_add_left 1 depth)]
    exact .nil _
  · have hfield : (record depth child).member ⟨tag, as, none⟩ "children" =
        .ok (do return ⟨tag, as, some (← readChildren depth child)⟩) := by
      simp [record, Json.Record.member]
    have hread := (reads_children hchild).map fun cs => (⟨tag, as, some cs⟩ : Draft)
    have hfits : bracketsAll n.children < depth ↔ 2 + bracketsAll n.children ≤ depth + 1 := by omega
    rw [apply_ite (Except.map _)] at hread
    simp only [hfits] at hread
    exact .single (.of_ok hfield hread)

theorem readsMembers_members (hn : n.attributes.Canonical) :
    ReadsMembers id (record depth child).member {}
      (("tag", .string n.tag) :: (attributesMember n.attributes ++ childrenMember (n.children.map toJson)))
      (if n.brackets ≤ depth + 1 then .ok ⟨some n.tag, listed? n.attributes, listed? n.children⟩
        else .error .malformed) := by
  have hfield : (record depth child).member {} "tag" = .ok (do return ⟨some (← Json.readString), none, none⟩) := by
    simp [record, Json.Record.member]
  have hattributes := readsMembers_attributesMember hn depth child (some n.tag)
  have hchildren := readsMembers_childrenMember hchild (some n.tag) (listed? n.attributes)
  refine .cons (.of_ok hfield ((Json.reads_readString n.tag).map _)) ?_
  rw [brackets_eq]
  by_cases ha : (if n.attributes.isEmpty then 1 else 2) ≤ depth + 1
  · rw [if_pos ha] at hattributes
    simp only [Nat.max_le, ha, true_and]
    refine hattributes.append (f := fun _ => _) ?_
    rintro _ ⟨⟩
    exact hchildren
  · -- the attributes are refused, the children never seen
    rw [if_neg ha] at hattributes
    rw [if_neg fun h => ha (Nat.max_le.1 h).1]
    exact hattributes.append (f := .ok) fun _ h => nomatch h

theorem reads_record (hn : n.attributes.Canonical) :
    Reads (do return ofDraft (← (record depth child).read (depth + 1))) n.toJson.chars
      (if n.brackets ≤ depth + 1 then .ok n else .error .malformed) := by
  have hmembers := readsMembers_members hchild hn
  rw [toJson_eq]
  by_cases hb : n.brackets ≤ depth + 1
  · rw [if_pos hb] at hmembers ⊢
    have hset : (record depth child).missing? ⟨some n.tag, listed? n.attributes, listed? n.children⟩ = none := rfl
    have hread := (hmembers.reads_record (fun _ h => Except.ok.inj h ▸ hset) depth).map ofDraft
    rw [Except.map, ofDraft_listed?] at hread
    exact hread
  · rw [if_neg hb] at hmembers ⊢
    exact (hmembers.reads_record (fun _ h => nomatch h) depth).map ofDraft

end

/-- a node is read back within as many brackets as it has -/
theorem reads_read {n : Node} (hn : n.Canonical) (depth : Nat) :
    Reads (read depth) n.toJson.chars (if n.brackets ≤ depth then .ok n else .error .malformed) := by
  induction n using Node.ind generalizing depth with
  | node tag as children ih =>
    obtain ⟨ha, hc⟩ := hn
    rw [canonicalAll_iff] at hc
    match depth with
    | 0 =>
      -- not even the opening brace
      rw [if_neg (by have := brackets_pos ⟨tag, as, children⟩; omega), toJson_eq, Json.chars_object]
      intro rest _
      rfl
    | 1 =>
      refine reads_record (fun c _ => ?_) ha
      rw [if_neg (Nat.not_lt_zero _)]
      exact Json.reads_fail _ _
    | depth + 2 =>
      refine reads_record (fun c hcs => ?_) ha
      simp only [Nat.lt_succ_iff]
      exact ih c hcs (hc c hcs) depth

end Node

/-- **The JSON text of a node is read back up to 127 nested brackets.** The brackets are those of its JSON value: one
for a node, two if it has attributes, and two more than its children if it has any. From 128 brackets on the text is
malformed for the reader, and no node comes back. -/
theorem json_text_read_back (n : Node) (hn : n.Canonical) :
    n.toJson.depth = n.brackets ∧
      (n.brackets ≤ 127 → Node.parse n.toJson.text = .ok n) ∧
      (128 ≤ n.brackets → Node.parse n.toJson.text = .error .malformed) := by
  have hparse : Node.parse n.toJson.text = if n.brackets ≤ 127 then .ok n else .error .malformed :=
    (Node.reads_read hn Json.nestingLimit).readAll
  refine ⟨n.depth_toJson, fun h => ?_, fun h => ?_⟩
  · rw [hparse, if_pos h]
  · rw [hparse, if_neg (by omega)]

/-- 64 nodes are read back, but not if the last of them has an attribute -/
theorem json_text_read_back_chain :
    let leaf : Node := ⟨"Item", [], []⟩
    let marked : Node := ⟨"Item", [("Value", "\"\n\\")], []⟩
    (leaf.nested 63).Canonical ∧ (leaf.nested 63).brackets = 127 ∧
      Node.parse (leaf.nested 63).toJson.text = .ok (leaf.nested 63) ∧
      (marked.nested 63).Canonical ∧ (marked.nested 63).brackets = 128 ∧
      Node.parse (marked.nested 63).toJson.text = .error .malformed := by
  intro leaf marked
  have hleaf : (leaf.nested 63).Canonical := leaf.canonical_nested ⟨.nil, trivial⟩ 63
  have hmarked : (marked.nested 63).Canonical := marked.canonical_nested ⟨List.pairwise_singleton _ _, trivial⟩ 63
  have hfits : (leaf.nested 63).brackets = 127 := leaf.brackets_nested 63
  have hexceeds : (marked.nested 63).brackets = 128 := marked.brackets_nested 63
  exact ⟨hleaf, hfits, (json_text_read_back _ hleaf).2.1 (by omega), hmarked, hexceeds,
    (json_text_read_back _ hmarked).2.2 (by omega)⟩

end ItemTree

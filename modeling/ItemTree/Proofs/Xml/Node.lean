import ItemTree.Xml.Node

/-!
# Nodes: induction, attributes and the order of finishing

* `Node.ind`: one induction hypothesis for every child;
* `Node.get?_set`: an attribute that is set is found, and no other one changes;
* `Node.postorder`: all nodes, children before their parent and from left to right.
-/

namespace ItemTree

namespace Node

/-- induction over a node and its children -/
@[elab_as_elim]
theorem ind {P : Node → Prop} (node : ∀ tag as children, (∀ c ∈ children, P c) → P ⟨tag, as, children⟩) (n : Node) :
    P n := by
  refine @Node.rec P (fun ns => ∀ c ∈ ns, P c) node ?_ ?_ n
  · intro c hc
    cases hc
  · intro n ns hn hns c hc
    rcases List.mem_cons.1 hc with rfl | hc
    · exact hn
    · exact hns c hc

end Node

/-! ## attributes -/

namespace Attributes

theorem lookup_cons (name value other : String) (as : Attributes) :
    List.lookup other ((name, value) :: as) = if other = name then some value else as.lookup other := by
  by_cases h : other = name
  · simp [h]
  · have hb : (other == name) = false := by simpa using h
    simp [List.lookup_cons, h, hb]

theorem lookup_insert (name value other : String) (as : Attributes) :
    (as.insert name value).lookup other = if other = name then some value else as.lookup other := by
  induction as with
  | nil => simp [insert]
  | cons a rest ih =>
    obtain ⟨n, v⟩ := a
    unfold insert
    split
    · rw [lookup_cons]
    · split
      · -- the old value goes
        rename_i hn
        subst hn
        simp only [lookup_cons]
        split <;> rfl
      · rename_i hn
        rw [lookup_cons, lookup_cons, ih]
        by_cases h : other = n
        · subst h
          rw [if_pos rfl, if_neg (Ne.symm hn), if_pos rfl]
        · rw [if_neg h, if_neg h]

end Attributes

namespace Node

theorem get?_set (n : Node) (name value other : String) :
    (n.set name value).get? other = if other = name then some value else n.get? other :=
  Attributes.lookup_insert name value other n.attributes

@[simp] theorem children_set (n : Node) (name value : String) : (n.set name value).children = n.children := rfl

theorem canonicalAll_iff (ns : List Node) : CanonicalAll ns ↔ ∀ n ∈ ns, n.Canonical := by
  induction ns with
  | nil => simp [CanonicalAll]
  | cons n ns ih => rw [CanonicalAll, ih, List.forall_mem_cons]

/-! ## the order of finishing -/

mutual
/-- all nodes, each after its children -/
def postorder : Node → List Node
  | ⟨tag, as, children⟩ => postorderAll children ++ [⟨tag, as, children⟩]
def postorderAll : List Node → List Node
  | [] => []
  | n :: ns => n.postorder ++ postorderAll ns
end

theorem postorderAll_eq (ns : List Node) : postorderAll ns = ns.flatMap postorder := by
  induction ns with
  | nil => rfl
  | cons n ns ih => rw [postorderAll, ih, List.flatMap_cons]

theorem postorder_eq (n : Node) : n.postorder = n.children.flatMap postorder ++ [n] := by
  cases n
  rw [postorder, postorderAll_eq]

theorem forall_mem_postorder {P : Node → Prop} {n : Node} :
    (∀ m ∈ n.postorder, P m) ↔ (∀ c ∈ n.children, ∀ m ∈ c.postorder, P m) ∧ P n := by
  rw [postorder_eq]
  simp only [List.mem_append, List.mem_flatMap, List.mem_singleton]
  constructor
  · intro h
    exact ⟨fun c hc m hm => h m (.inl ⟨c, hc, hm⟩), h n (.inr rfl)⟩
  · rintro ⟨hc, hn⟩ m (⟨c, hcn, hm⟩ | rfl)
    · exact hc c hcn m hm
    · exact hn

end Node

end ItemTree

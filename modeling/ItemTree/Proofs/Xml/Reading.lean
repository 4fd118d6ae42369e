import ItemTree.Proofs.Xml.Escape
import ItemTree.Proofs.Xml.Node

/-!
# Reading XML text

A reader of the text of nodes by recursive descent. Tags and names of attributes have to be names, values may be any
text.

* `Node.Named`: tags and names of attributes are names at every depth;
* `Xml.read`: one node at the front of a text, and the rest of the text;
* `Xml.readNode_chars`: the reader takes exactly the text of a node, whatever follows.
-/

namespace ItemTree

namespace Xml

/-! ## names -/

/-- a character that cannot end a name -/
def isNameChar (c : Char) : Bool := !([' ', '<', '>', '/', '=', '"'].contains c)

/-- not empty, and nothing in it could end it -/
def IsName (s : String) : Prop := s ≠ "" ∧ ∀ c ∈ s.toList, isNameChar c = true

-- over the characters of the text, not over all characters
instance (s : String) : Decidable (IsName s) := @instDecidableAnd _ _ _ (List.decidableBAll _ s.toList)

end Xml

/-- tags and names of attributes are names at every depth -/
def Node.Named (n : Node) : Prop :=
  ∀ m ∈ n.postorder, Xml.IsName m.tag ∧ ∀ a ∈ m.attributes, Xml.IsName a.1

instance (n : Node) : Decidable n.Named := List.decidableBAll _ n.postorder

theorem Node.named_iff (n : Node) :
    n.Named ↔ Xml.IsName n.tag ∧ (∀ a ∈ n.attributes, Xml.IsName a.1) ∧ ∀ c ∈ n.children, c.Named := by
  unfold Node.Named
  rw [Node.forall_mem_postorder]
  constructor
  · rintro ⟨hc, ht, ha⟩
    exact ⟨ht, ha, hc⟩
  · rintro ⟨ht, ha, hc⟩
    exact ⟨hc, ht, ha⟩

namespace Xml

/-! ## the reader -/

/-- the longest name at the front -/
def readName (cs : List Char) : Option (String × List Char) :=
  if (cs.takeWhile isNameChar).isEmpty then none
  else some (String.ofList (cs.takeWhile isNameChar), cs.dropWhile isNameChar)

/-- a value after its opening quote, and past the closing one -/
def readValue (cs : List Char) : Option (String × List Char) :=
  match cs.dropWhile (· != '"') with
  | '"' :: rest => (unescape? (cs.takeWhile (· != '"'))).map fun value => (String.ofList value, rest)
  | _ => none

/-- a name with its quoted value -/
def readAttribute (cs : List Char) : Option ((String × String) × List Char) :=
  match readName cs with
  | some (name, '=' :: '"' :: cs) => (readValue cs).map fun (value, rest) => ((name, value), rest)
  | _ => none

/-- attributes as long as there are blanks in front of them -/
def readAttributes : Nat → List Char → Option (Attributes × List Char)
  | fuel + 1, ' ' :: cs => do
    let (a, cs) ← readAttribute cs
    let (as, cs) ← readAttributes fuel cs
    return (a :: as, cs)
  | _, cs => some ([], cs)

/-- a closing tag after its slash -/
def readClosing (tag : String) (cs : List Char) : Option (List Char) :=
  match readName cs with
  | some (name, '>' :: cs) => if name = tag then some cs else none
  | _ => none

mutual
/-- a node; the fuel bounds the number of characters it may have -/
def readNode : Nat → List Char → Option (Node × List Char)
  | fuel + 1, '<' :: cs => do
    let (tag, cs) ← readName cs
    let (as, cs) ← readAttributes fuel cs
    match cs with
    | '/' :: '>' :: cs => return (⟨tag, as, []⟩, cs)
    | '>' :: cs =>
      let (c, cs) ← readNode fuel cs
      let (children, cs) ← readChildren fuel cs
      let cs ← readClosing tag cs
      return (⟨tag, as, c :: children⟩, cs)
    | _ => none
  | _, _ => none
/-- further children, up to the slash of the closing tag -/
def readChildren : Nat → List Char → Option (List Node × List Char)
  | _ + 1, '<' :: '/' :: cs => some ([], cs)
  | fuel + 1, cs => do
    let (n, cs) ← readNode fuel cs
    let (ns, cs) ← readChildren fuel cs
    return (n :: ns, cs)
  | 0, _ => none
end

/-- one node at the front of a text, and the rest of the text -/
def read (text : String) : Option (Node × String) :=
  (readNode text.toList.length text.toList).map fun (n, rest) => (n, String.ofList rest)

/-! ## names, values and attributes are read back -/

/-- the text does not go on with a name -/
def Stops (cs : List Char) : Prop := ∀ c ∈ cs.head?, isNameChar c = false

theorem stops_cons {c : Char} (h : isNameChar c = false) (cs : List Char) : Stops (c :: cs) := by
  intro d hd
  obtain rfl : c = d := Option.some.inj hd
  exact h

/-- what is taken while `p` holds ends where `p` fails -/
theorem span_append {p : Char → Bool} {cs rest : List Char} (hcs : ∀ c ∈ cs, p c = true)
    (hrest : ∀ c ∈ rest.head?, p c = false) : (cs ++ rest).takeWhile p = cs ∧ (cs ++ rest).dropWhile p = rest := by
  rw [List.takeWhile_append_of_pos hcs, List.dropWhile_append_of_pos hcs]
  cases rest with
  | nil => exact ⟨List.append_nil cs, rfl⟩
  | cons c rest =>
    have hc := hrest c rfl
    rw [List.takeWhile_cons_of_neg (by simp [hc]), List.dropWhile_cons_of_neg (by simp [hc]), List.append_nil]
    exact ⟨rfl, rfl⟩

theorem readName_append {name : String} (hn : IsName name) {rest : List Char} (hr : Stops rest) :
    readName (name.toList ++ rest) = some (name, rest) := by
  obtain ⟨hne, hall⟩ := hn
  obtain ⟨htake, hdrop⟩ := span_append hall hr
  have hname : name.toList.isEmpty = false := by
    simpa using hne
  unfold readName
  rw [htake, hdrop, hname, String.ofList_toList]
  rfl

theorem readValue_escape (value : String) (rest : List Char) :
    readValue (escape value.toList ++ '"' :: rest) = some (value, rest) := by
  have hall : ∀ c ∈ escape value.toList, (c != '"') = true := by
    intro c hc
    simp only [bne_iff_ne]
    rintro rfl
    exact quote_not_mem_escape _ hc
  unfold readValue
  rw [List.dropWhile_append_of_pos hall, List.takeWhile_append_of_pos hall]
  simp [unescape?_escape]

theorem readAttribute_append {name : String} (hn : IsName name) (value : String) (rest : List Char) :
    readAttribute (name.toList ++ '=' :: '"' :: (escape value.toList ++ '"' :: rest)) =
      some ((name, value), rest) := by
  unfold readAttribute
  rw [readName_append hn (stops_cons (by decide) _)]
  simp [readValue_escape]

theorem stops_attributeChars (as : Attributes) {c : Char} (h : isNameChar c = false) (rest : List Char) :
    Stops (attributeChars as ++ c :: rest) := by
  cases as with
  | nil => exact stops_cons h rest
  | cons a as => exact stops_cons (by decide) _

theorem readAttributes_append {as : Attributes} (ha : ∀ a ∈ as, IsName a.1) {fuel : Nat} (hf : as.length ≤ fuel)
    {c : Char} (hc : c ≠ ' ') (rest : List Char) :
    readAttributes fuel (attributeChars as ++ c :: rest) = some (as, c :: rest) := by
  induction as generalizing fuel with
  | nil =>
    rw [attributeChars, List.nil_append, readAttributes.eq_def]
    split
    · simp_all
    · rfl
  | cons a as ih =>
    obtain ⟨name, value⟩ := a
    obtain ⟨f, rfl⟩ : ∃ f, fuel = f + 1 := ⟨fuel - 1, by simp at hf; omega⟩
    have hname := ha (name, value) List.mem_cons_self
    have has := ih (fun a h => ha a (List.mem_cons_of_mem _ h)) (by simpa using hf)
    simp only [attributeChars, List.cons_append, List.append_assoc, readAttributes]
    rw [readAttribute_append hname]
    simp [has]

theorem length_le_attributeChars (as : Attributes) : as.length ≤ (attributeChars as).length := by
  induction as with
  | nil => exact Nat.le_refl _
  | cons a as ih =>
    simp only [attributeChars, List.length_cons, List.length_append]
    omega

theorem readClosing_append {tag : String} (ht : IsName tag) (rest : List Char) :
    readClosing tag (tag.toList ++ '>' :: rest) = some rest := by
  unfold readClosing
  rw [readName_append ht (stops_cons (by decide) rest)]
  simp

/-! ## nodes are read back -/

/-- a node begins with a bracket and its tag, so that it is no closing tag -/
theorem chars_eq_cons {n : Node} (hn : n.Named) : ∃ c cs, chars n = '<' :: c :: cs ∧ c ≠ '/' := by
  obtain ⟨⟨hne, hall⟩, -, -⟩ := n.named_iff.1 hn
  obtain ⟨tag, as, children⟩ := n
  obtain ⟨c, cs, htag⟩ : ∃ c cs, tag.toList = c :: cs := by
    apply List.exists_cons_of_ne_nil
    simpa using hne
  have hc : c ≠ '/' := by
    rintro rfl
    have := hall '/' (by simp [htag])
    revert this
    decide
  cases children with
  | nil => exact ⟨c, _, by rw [chars, htag]; rfl, hc⟩
  | cons d ds => exact ⟨c, _, by rw [chars, htag]; rfl, hc⟩

theorem readChildren_of_ne {c : Char} (h : c ≠ '/') (fuel : Nat) (cs : List Char) :
    readChildren (fuel + 1) ('<' :: c :: cs) = (do
      let (n, cs) ← readNode fuel ('<' :: c :: cs)
      let (ns, cs) ← readChildren fuel cs
      return (n :: ns, cs)) := by
  rw [readChildren.eq_def]
  split
  · simp_all
  · simp_all
  · simp_all

theorem readChildren_append {ns : List Node} (hn : ∀ n ∈ ns, n.Named)
    (ih : ∀ n ∈ ns, ∀ fuel rest, (chars n).length ≤ fuel → readNode fuel (chars n ++ rest) = some (n, rest))
    {fuel : Nat} (hf : (allChars ns).length < fuel) (rest : List Char) :
    readChildren fuel (allChars ns ++ '<' :: '/' :: rest) = some (ns, rest) := by
  induction ns generalizing fuel with
  | nil =>
    obtain ⟨f, rfl⟩ : ∃ f, fuel = f + 1 := ⟨fuel - 1, by omega⟩
    rw [allChars, List.nil_append, readChildren]
  | cons n ns hns =>
    obtain ⟨f, rfl⟩ : ∃ f, fuel = f + 1 := ⟨fuel - 1, by omega⟩
    rw [allChars, List.length_append] at hf
    obtain ⟨c, cs, heq, hc⟩ := chars_eq_cons (hn n List.mem_cons_self)
    have hlen : 0 < (chars n).length := by simp [heq]
    have hnode := ih n List.mem_cons_self f (allChars ns ++ '<' :: '/' :: rest) (by omega)
    have hrest := hns (fun m hm => hn m (List.mem_cons_of_mem _ hm)) (fun m hm => ih m (List.mem_cons_of_mem _ hm))
      (show (allChars ns).length < f by omega)
    rw [heq] at hnode
    rw [allChars, List.append_assoc, heq]
    simp only [List.cons_append] at hnode ⊢
    rw [readChildren_of_ne hc, hnode]
    simp [hrest]

theorem readNode_chars {n : Node} (hn : n.Named) (fuel : Nat) (rest : List Char) (hf : (chars n).length ≤ fuel) :
    readNode fuel (chars n ++ rest) = some (n, rest) := by
  induction n using Node.ind generalizing fuel rest with
  | node tag as children ih =>
    obtain ⟨ht, ha, hc⟩ := (Node.named_iff _).1 hn
    have hlen := length_le_attributeChars as
    cases children with
    | nil =>
      rw [chars] at hf ⊢
      simp only [List.length_cons, List.length_append] at hf
      obtain ⟨f, rfl⟩ : ∃ f, fuel = f + 1 := ⟨fuel - 1, by omega⟩
      have hattr := readAttributes_append ha (show as.length ≤ f by omega) (c := '/') (by decide) ('>' :: rest)
      simp only [List.cons_append, List.append_assoc, List.nil_append, readNode]
      rw [readName_append ht (stops_attributeChars as (by decide) _)]
      simp [hattr]
    | cons c cs =>
      rw [chars] at hf ⊢
      simp only [List.length_cons, List.length_append] at hf
      obtain ⟨f, rfl⟩ : ∃ f, fuel = f + 1 := ⟨fuel - 1, by omega⟩
      have hattr := readAttributes_append ha (show as.length ≤ f by omega) (c := '>') (by decide)
        (chars c ++ (allChars cs ++ '<' :: '/' :: (tag.toList ++ '>' :: rest)))
      have hfirst := ih c List.mem_cons_self (hc c List.mem_cons_self) f
        (allChars cs ++ '<' :: '/' :: (tag.toList ++ '>' :: rest)) (by omega)
      have hmore := readChildren_append (fun d hd => hc d (List.mem_cons_of_mem _ hd))
        (fun d hd => ih d (List.mem_cons_of_mem _ hd) (hc d (List.mem_cons_of_mem _ hd)))
        (show (allChars cs).length < f by omega) (tag.toList ++ '>' :: rest)
      simp only [List.cons_append, List.append_assoc, List.nil_append, readNode]
      rw [readName_append ht (stops_attributeChars as (by decide) _)]
      simp [hattr, hfirst, hmore, readClosing_append ht]

theorem read_text_append {n : Node} (hn : n.Named) (rest : String) : read (n.text ++ rest) = some (n, rest) := by
  unfold read Node.text
  rw [String.toList_append, String.toList_ofList, readNode_chars hn _ rest.toList (by simp)]
  simp

end Xml

/-- **The XML text determines the node.** If tags and names of attributes are names, then a node is read back from
its text whatever follows it, with exactly that rest; so nodes of the same text are the same node. -/
theorem text_determines_node (a b : Node) (ha : a.Named) (hb : b.Named) (rest : String) :
    Xml.read (a.text ++ rest) = some (a, rest) ∧ (a.text = b.text ↔ a = b) := by
  refine ⟨Xml.read_text_append ha rest, fun h => ?_, fun h => by rw [h]⟩
  have hra := Xml.read_text_append ha ""
  rw [h, Xml.read_text_append hb] at hra
  exact (Prod.mk.inj (Option.some.inj hra)).1.symm

/-- a value that looks like an entity, and the value of that entity -/
theorem text_determines_node_entity :
    let a : Node := ⟨"For", [], [⟨"Item", [("Value", "&lt;\"/>")], []⟩]⟩
    let b : Node := ⟨"For", [], [⟨"Item", [("Value", "<\"/>")], []⟩]⟩
    a.Named ∧ b.Named ∧ Xml.read (a.text ++ "</For>") = some (a, "</For>") ∧ (a.text = b.text ↔ a = b) :=
  ⟨by decide, by decide, text_determines_node _ _ (by decide) (by decide) _⟩

end ItemTree

import ItemTree.Proofs.Xml.Canonical
import ItemTree.Proofs.Xml.Conforming
import ItemTree.Proofs.Xml.Reading

/-!
# Values as a conforming reader returns them

The text of a node has its tabs and line ends as they are, so that they do not outlive the first two steps of a
conforming reader. Everything else comes back.

* `lineEnds_chars`: the first step acts on values alone;
* `readElement_chars`: the other two steps, also on values alone;
* `normalized`: what is left of a value, and `normalized_eq_self_iff`: when this is all of it;
* `readDocument_text`: the node with normalized values is read from the text of a node.
-/

namespace ItemTree

/-! ## values changed at every depth -/

/-- every value changed by `f` -/
def Attributes.mapValues (f : List Char → List Char) (as : Attributes) : Attributes :=
  as.map fun a => (a.1, String.ofList (f a.2.toList))

theorem Attributes.map_fst_mapValues (f : List Char → List Char) (as : Attributes) :
    (as.mapValues f).map Prod.fst = as.map Prod.fst := by
  unfold Attributes.mapValues
  rw [List.map_map]
  rfl

theorem map_eq_self_iff {α : Type} {f : α → α} {xs : List α} : xs.map f = xs ↔ ∀ x ∈ xs, f x = x := by
  simpa using List.map_inj_left (f := f) (g := id) (l := xs)

namespace Node

mutual
/-- every value changed by `f`, at every depth -/
def mapValues (f : List Char → List Char) : Node → Node
  | ⟨tag, as, children⟩ => ⟨tag, as.mapValues f, mapValuesAll f children⟩
def mapValuesAll (f : List Char → List Char) : List Node → List Node
  | [] => []
  | n :: ns => n.mapValues f :: mapValuesAll f ns
end

theorem mapValuesAll_eq (f : List Char → List Char) (ns : List Node) : mapValuesAll f ns = ns.map (mapValues f) := by
  induction ns with
  | nil => rfl
  | cons n ns ih => rw [mapValuesAll, ih, List.map_cons]

theorem mapValues_mk (f : List Char → List Char) (tag : String) (as : Attributes) (children : List Node) :
    mapValues f ⟨tag, as, children⟩ = ⟨tag, as.mapValues f, children.map (mapValues f)⟩ := by
  rw [mapValues, mapValuesAll_eq]

theorem mapValues_mapValues (f g : List Char → List Char) (n : Node) :
    (n.mapValues f).mapValues g = n.mapValues (g ∘ f) := by
  induction n using Node.ind with
  | node tag as children ih =>
    have has : (as.mapValues f).mapValues g = as.mapValues (g ∘ f) := by
      simp [Attributes.mapValues]
    rw [mapValues_mk, mapValues_mk, mapValues_mk, has, List.map_map]
    congr 1
    exact List.map_congr_left ih

theorem mapValues_eq_self_iff (f : List Char → List Char) (n : Node) :
    n.mapValues f = n ↔ ∀ m ∈ n.postorder, ∀ a ∈ m.attributes, f a.2.toList = a.2.toList := by
  induction n using Node.ind with
  | node tag as children ih =>
    have has : as.mapValues f = as ↔ ∀ a ∈ as, f a.2.toList = a.2.toList := by
      unfold Attributes.mapValues
      rw [map_eq_self_iff]
      refine forall₂_congr fun a _ => ?_
      simp only [Prod.ext_iff, true_and, ← String.toList_inj, String.toList_ofList]
    rw [mapValues_mk, mk.injEq, has, map_eq_self_iff, forall_mem_postorder, forall₂_congr ih]
    tauto

/-- tags and names of attributes are names of XML, and no element has an attribute twice -/
def WellNamed (n : Node) : Prop :=
  ∀ m ∈ n.postorder, Xml.Conforming.isName m.tag = true ∧ (∀ a ∈ m.attributes, Xml.Conforming.isName a.1 = true) ∧
    (m.attributes.map Prod.fst).Nodup

theorem wellNamed_iff (n : Node) :
    n.WellNamed ↔ Xml.Conforming.isName n.tag = true ∧ (∀ a ∈ n.attributes, Xml.Conforming.isName a.1 = true) ∧
      (n.attributes.map Prod.fst).Nodup ∧ ∀ c ∈ n.children, c.WellNamed := by
  unfold WellNamed
  rw [forall_mem_postorder]
  tauto

theorem WellNamed.mapValues {n : Node} (h : n.WellNamed) (f : List Char → List Char) : (n.mapValues f).WellNamed := by
  induction n using Node.ind with
  | node tag as children ih =>
    obtain ⟨ht, ha, hd, hc⟩ := (wellNamed_iff _).1 h
    rw [mapValues_mk, wellNamed_iff]
    refine ⟨ht, fun a hmem => ?_, ?_, fun c hmem => ?_⟩
    · obtain ⟨b, hb, rfl⟩ := List.mem_map.1 hmem
      exact ha b hb
    · rw [Attributes.map_fst_mapValues]
      exact hd
    · obtain ⟨d, hd, rfl⟩ := List.mem_map.1 hmem
      exact ih d hd (hc d hd)

end Node

namespace Xml.Conforming

/-! ## the first step on the text of a node -/

theorem return_not_mem {s : String} (h : isName s = true) : '\r' ∉ s.toList :=
  fun hmem => ne_of_isNameChar (isNameChar_of_mem h hmem) (by decide) rfl

theorem lineEnds_attributeChars {as : Attributes} (ha : ∀ a ∈ as, isName a.1 = true) (t : List Char) :
    lineEnds (attributeChars as ++ t) = attributeChars (as.mapValues lineEnds) ++ lineEnds t := by
  induction as with
  | nil => rfl
  | cons a as ih =>
    obtain ⟨name, value⟩ := a
    obtain ⟨hname, has⟩ := List.forall_mem_cons.1 ha
    have hfront : '\r' ∉ ' ' :: name.toList ++ ['=', '"'] := by simpa using return_not_mem hname
    have hquote : '\r' ∉ ['"'] := by decide
    calc lineEnds (attributeChars ((name, value) :: as) ++ t)
      _ = lineEnds ((' ' :: name.toList ++ ['=', '"']) ++
            (escape value.toList ++ (['"'] ++ (attributeChars as ++ t)))) := by
        simp [attributeChars]
      _ = (' ' :: name.toList ++ ['=', '"']) ++ (escape (lineEnds value.toList) ++
            (['"'] ++ (attributeChars (Attributes.mapValues lineEnds as) ++ lineEnds t))) := by
        rw [lineEnds_append_of_not_mem hfront, lineEnds_append _ (by simp), lineEnds_escape,
          lineEnds_append_of_not_mem hquote, ih has]
      _ = attributeChars (Attributes.mapValues lineEnds ((name, value) :: as)) ++ lineEnds t := by
        simp [attributeChars, Attributes.mapValues]

theorem lineEnds_allChars {ns : List Node}
    (ih : ∀ n ∈ ns, ∀ t, lineEnds (chars n ++ t) = chars (n.mapValues lineEnds) ++ lineEnds t) (t : List Char) :
    lineEnds (allChars ns ++ t) = allChars (ns.map (Node.mapValues lineEnds)) ++ lineEnds t := by
  induction ns with
  | nil => rfl
  | cons n ns hns =>
    have hrest := hns fun m hm => ih m (List.mem_cons_of_mem _ hm)
    rw [allChars, List.append_assoc, ih n List.mem_cons_self, hrest, List.map_cons, allChars, List.append_assoc]

/-- a node with children, with all of them in one list -/
theorem chars_of_ne_nil (tag : String) (as : Attributes) {children : List Node} (h : children ≠ []) :
    chars ⟨tag, as, children⟩ = ('<' :: tag.toList) ++ (attributeChars as ++ (['>'] ++ (allChars children ++
      ('<' :: '/' :: tag.toList ++ ['>'])))) := by
  cases children with
  | nil => exact absurd rfl h
  | cons c cs => simp [chars, allChars]

theorem chars_nil (tag : String) (as : Attributes) :
    chars ⟨tag, as, []⟩ = ('<' :: tag.toList) ++ (attributeChars as ++ ['/', '>']) := by
  simp [chars]

/-- lines end in values only -/
theorem lineEnds_chars {n : Node} (hn : n.WellNamed) (t : List Char) :
    lineEnds (chars n ++ t) = chars (n.mapValues lineEnds) ++ lineEnds t := by
  induction n using Node.ind generalizing t with
  | node tag as children ih =>
    obtain ⟨ht, ha, -, hc⟩ := (Node.wellNamed_iff _).1 hn
    have hopen : '\r' ∉ '<' :: tag.toList := by simpa using return_not_mem ht
    rw [Node.mapValues_mk]
    by_cases hnil : children = []
    · subst hnil
      have hclose : '\r' ∉ ['/', '>'] := by decide
      rw [List.map_nil, chars_nil, chars_nil, List.append_assoc, List.append_assoc, lineEnds_append_of_not_mem hopen,
        lineEnds_attributeChars ha, lineEnds_append_of_not_mem hclose, List.append_assoc, List.append_assoc]
    · have hend : '\r' ∉ ['>'] := by decide
      have hclose : '\r' ∉ '<' :: '/' :: tag.toList := by simpa using return_not_mem ht
      have hmap : children.map (Node.mapValues lineEnds) ≠ [] := by simpa using hnil
      have hall := lineEnds_allChars fun c hmem => ih c hmem (hc c hmem)
      rw [chars_of_ne_nil tag as hnil, chars_of_ne_nil tag _ hmap]
      simp only [List.append_assoc]
      rw [lineEnds_append_of_not_mem hopen, lineEnds_attributeChars ha, lineEnds_append_of_not_mem hend, hall,
        lineEnds_append_of_not_mem hclose, lineEnds_append_of_not_mem hend]

/-! ## the other steps on the text of a node -/

/-- no name goes on here -/
def Stops (cs : List Char) : Prop := ∀ c ∈ cs.head?, isNameChar c = false

theorem stops_cons {c : Char} (h : isNameChar c = false) (cs : List Char) : Stops (c :: cs) := by
  intro d hd
  obtain rfl : c = d := Option.some.inj hd
  exact h

theorem skipBlanks_cons {c : Char} (h : isBlank c = false) (cs : List Char) : skipBlanks (c :: cs) = c :: cs :=
  List.dropWhile_cons_of_neg (by simp [h])

theorem readName_append {name : String} (hn : isName name = true) {rest : List Char} (hr : Stops rest) :
    readName (name.toList ++ rest) = some (name, rest) := by
  obtain ⟨c, cs, hname, hc, hcs⟩ := exists_cons_of_isName hn
  obtain ⟨htake, hdrop⟩ := span_append hcs hr
  rw [hname, List.cons_append, readName, if_pos hc, htake, hdrop, ← hname, String.ofList_toList]

/-- a value comes back with spaces for its blanks -/
theorem readValue_escape (value : String) (rest : List Char) :
    readValue ('"' :: (escape value.toList ++ '"' :: rest)) = some (String.ofList (value.toList.map spaced), rest) := by
  have hall : ∀ c ∈ escape value.toList, (c != '"') = true := by
    intro c hc
    simpa using (ne_of_mem_escape hc).2.2
  have hless : '<' ∉ escape value.toList := fun h => (ne_of_mem_escape h).1 rfl
  rw [readValue, if_pos (.inl rfl), List.dropWhile_append_of_pos hall, List.takeWhile_append_of_pos hall]
  simp [hless, map_spaced_escape, decode_escape]

theorem readAttribute_append {name : String} (hn : isName name = true) (value : String) (rest : List Char) :
    readAttribute (name.toList ++ '=' :: '"' :: (escape value.toList ++ '"' :: rest)) =
      some ((name, String.ofList (value.toList.map spaced)), rest) := by
  unfold readAttribute
  rw [readName_append hn (stops_cons (by decide) _)]
  simp [skipBlanks_cons (c := '=') (by decide), skipBlanks_cons (c := '"') (by decide), readValue_escape]

theorem readAttributes_cons {c : Char} (hc : isNameStart c = true) (fuel : Nat) (cs : List Char) :
    readAttributes (fuel + 1) (' ' :: c :: cs) = (do
      let (a, cs) ← readAttribute (c :: cs)
      let (as, cs) ← readAttributes fuel cs
      return (a :: as, cs)) := by
  have hname := isNameChar_of_isNameStart hc
  have hgreater := ne_of_isNameChar hname (d := '>') (by decide)
  have hslash := ne_of_isNameChar hname (d := '/') (by decide)
  rw [readAttributes, if_pos (by decide), skipBlanks_cons (isBlank_of_isNameChar hname)]
  split
  · simp_all
  · simp_all
  · rfl

theorem stops_attributeChars (as : Attributes) {c : Char} (h : isNameChar c = false) (rest : List Char) :
    Stops (attributeChars as ++ c :: rest) := by
  cases as with
  | nil => exact stops_cons h rest
  | cons a as => exact stops_cons (by decide) _

theorem readAttributes_append {as : Attributes} (ha : ∀ a ∈ as, isName a.1 = true) {fuel : Nat} (hf : as.length < fuel)
    {c : Char} (hc : isBlank c = false) (rest : List Char) :
    readAttributes fuel (attributeChars as ++ c :: rest) = some (as.mapValues (List.map spaced), c :: rest) := by
  induction as generalizing fuel with
  | nil =>
    obtain ⟨f, rfl⟩ : ∃ f, fuel = f + 1 := ⟨fuel - 1, by omega⟩
    rw [attributeChars, List.nil_append, readAttributes, if_neg (by simp [hc])]
    rfl
  | cons a as ih =>
    obtain ⟨name, value⟩ := a
    obtain ⟨hname, has⟩ := List.forall_mem_cons.1 ha
    obtain ⟨f, rfl⟩ : ∃ f, fuel = f + 1 := ⟨fuel - 1, by omega⟩
    have hrest := ih has (show as.length < f by simpa using hf)
    have hattr := readAttribute_append hname value (attributeChars as ++ c :: rest)
    obtain ⟨d, ds, hcons, hd, -⟩ := exists_cons_of_isName hname
    simp only [attributeChars, List.cons_append, List.append_assoc]
    rw [hcons, List.cons_append] at hattr ⊢
    rw [readAttributes_cons hd, hattr]
    simp [hrest, Attributes.mapValues]

theorem readClosing_append {tag : String} (ht : isName tag = true) (rest : List Char) :
    readClosing tag (tag.toList ++ '>' :: rest) = some rest := by
  unfold readClosing
  rw [readName_append ht (stops_cons (by decide) rest)]
  simp [skipBlanks_cons (c := '>') (by decide)]

/-- an element is no closing tag -/
theorem chars_eq_cons {n : Node} (hn : n.WellNamed) : ∃ c cs, chars n = '<' :: c :: cs ∧ c ≠ '/' := by
  obtain ⟨tag, as, children⟩ := n
  obtain ⟨ht, -⟩ := (Node.wellNamed_iff _).1 hn
  obtain ⟨c, cs, htag, hc, -⟩ := exists_cons_of_isName ht
  have hslash := ne_of_isNameChar (isNameChar_of_isNameStart hc) (d := '/') (by decide)
  cases children with
  | nil => exact ⟨c, _, by rw [chars, htag]; rfl, hslash⟩
  | cons d ds => exact ⟨c, _, by rw [chars, htag]; rfl, hslash⟩

theorem readContent_of_ne {c : Char} (h : c ≠ '/') (fuel : Nat) (cs : List Char) :
    readContent (fuel + 1) ('<' :: c :: cs) = (do
      let (n, cs) ← readElement fuel ('<' :: c :: cs)
      let (ns, cs) ← readContent fuel cs
      return (n :: ns, cs)) := by
  rw [readContent.eq_def]
  split <;> simp_all

theorem readContent_append {ns : List Node} (hn : ∀ n ∈ ns, n.WellNamed)
    (ih : ∀ n ∈ ns, ∀ fuel rest, (chars n).length ≤ fuel →
      readElement fuel (chars n ++ rest) = some (n.mapValues (List.map spaced), rest))
    {fuel : Nat} (hf : (allChars ns).length < fuel) (rest : List Char) :
    readContent fuel (allChars ns ++ '<' :: '/' :: rest) = some (ns.map (Node.mapValues (List.map spaced)), rest) := by
  induction ns generalizing fuel with
  | nil =>
    obtain ⟨f, rfl⟩ : ∃ f, fuel = f + 1 := ⟨fuel - 1, by omega⟩
    rw [allChars, List.nil_append, readContent]
    rfl
  | cons n ns hns =>
    obtain ⟨f, rfl⟩ : ∃ f, fuel = f + 1 := ⟨fuel - 1, by omega⟩
    obtain ⟨hfirst, hothers⟩ := List.forall_mem_cons.1 hn
    obtain ⟨ihfirst, ihothers⟩ := List.forall_mem_cons.1 ih
    obtain ⟨c, cs, heq, hc⟩ := chars_eq_cons hfirst
    have hlen : 0 < (chars n).length := by simp [heq]
    rw [allChars, List.length_append] at hf
    have hnode := ihfirst f (allChars ns ++ '<' :: '/' :: rest) (by omega)
    have hrest := hns hothers ihothers (show (allChars ns).length < f by omega)
    rw [heq] at hnode
    rw [allChars, List.append_assoc, heq]
    simp only [List.cons_append] at hnode ⊢
    rw [readContent_of_ne hc, hnode]
    simp [hrest]

/-- an element comes back with spaces for the blanks of its values -/
theorem readElement_chars {n : Node} (hn : n.WellNamed) (fuel : Nat) (rest : List Char) (hf : (chars n).length ≤ fuel) :
    readElement fuel (chars n ++ rest) = some (n.mapValues (List.map spaced), rest) := by
  induction n using Node.ind generalizing fuel rest with
  | node tag as children ih =>
    obtain ⟨ht, ha, hd, hc⟩ := (Node.wellNamed_iff _).1 hn
    have hlen := length_le_attributeChars as
    have hunique : ((as.mapValues (List.map spaced)).map Prod.fst).Nodup := by
      rw [Attributes.map_fst_mapValues]
      exact hd
    rw [Node.mapValues_mk]
    by_cases hnil : children = []
    · subst hnil
      rw [chars_nil] at hf ⊢
      simp only [List.length_cons, List.length_append, List.length_nil] at hf
      obtain ⟨f, rfl⟩ : ∃ f, fuel = f + 1 := ⟨fuel - 1, by omega⟩
      have hattr := readAttributes_append ha (show as.length < f by omega) (c := '/') (by decide) ('>' :: rest)
      simp only [List.cons_append, List.append_assoc, List.nil_append, readElement]
      rw [readName_append ht (stops_attributeChars as (by decide) _)]
      simp [hattr, hunique]
    · rw [chars_of_ne_nil tag as hnil] at hf ⊢
      simp only [List.length_cons, List.length_append, List.length_nil] at hf
      obtain ⟨f, rfl⟩ : ∃ f, fuel = f + 1 := ⟨fuel - 1, by omega⟩
      have hattr := readAttributes_append ha (show as.length < f by omega) (c := '>') (by decide)
        (allChars children ++ '<' :: '/' :: (tag.toList ++ '>' :: rest))
      have hcontent := readContent_append hc (fun c hmem => ih c hmem (hc c hmem))
        (show (allChars children).length < f by omega) (tag.toList ++ '>' :: rest)
      simp only [List.cons_append, List.append_assoc, List.nil_append, readElement]
      rw [readName_append ht (stops_attributeChars as (by decide) _)]
      simp [hattr, hunique, hcontent, readClosing_append ht]

/-! ## legal characters -/

theorem all_isChar_escape {s : List Char} (hs : s.all isChar = true) : (escape s).all isChar = true := by
  rw [List.all_eq_true] at hs ⊢
  intro x hx
  rw [escape_eq_flatMap] at hx
  obtain ⟨c, hc, hx⟩ := List.mem_flatMap.1 hx
  exact forall_mem_escapeChar (by decide) (fun _ => hs c hc) x hx

theorem all_isChar_of_isName {s : String} (h : isName s = true) : s.toList.all isChar = true :=
  List.all_eq_true.2 fun _ hc => isChar_of_isNameChar (isNameChar_of_mem h hc)

theorem all_isChar_attributeChars {as : Attributes} (ha : ∀ a ∈ as, isName a.1 = true ∧ a.2.toList.all isChar = true) :
    (attributeChars as).all isChar = true := by
  induction as with
  | nil => rfl
  | cons a as ih =>
    obtain ⟨⟨hname, hvalue⟩, has⟩ := List.forall_mem_cons.1 ha
    have hmarks : [' ', '=', '"'].all isChar = true := by decide
    simp only [List.all_cons, List.all_nil, Bool.and_true, Bool.and_eq_true] at hmarks
    simp only [attributeChars, List.all_cons, List.all_append, hmarks, all_isChar_of_isName hname,
      all_isChar_escape hvalue, ih has, Bool.and_true]

theorem all_isChar_allChars {ns : List Node} (h : ∀ n ∈ ns, (chars n).all isChar = true) :
    (allChars ns).all isChar = true := by
  induction ns with
  | nil => rfl
  | cons n ns ih =>
    obtain ⟨hn, hns⟩ := List.forall_mem_cons.1 h
    rw [allChars, List.all_append, hn, ih hns, Bool.and_true]

end Xml.Conforming

/-- what XML asks of a node: names are names of XML, and values have legal characters only -/
def Node.Lexical (n : Node) : Prop :=
  ∀ m ∈ n.postorder, Xml.Conforming.isName m.tag = true ∧
    ∀ a ∈ m.attributes, Xml.Conforming.isName a.1 = true ∧ a.2.toList.all Xml.Conforming.isChar = true

instance (n : Node) : Decidable n.Lexical := List.decidableBAll _ n.postorder

/-- names of attributes that ascend stand once -/
theorem Node.Lexical.wellNamed {n : Node} (hn : n.Lexical) (hc : n.Canonical) : n.WellNamed := by
  intro m hm
  obtain ⟨ht, ha⟩ := hn m hm
  exact ⟨ht, fun a hmem => (ha a hmem).1, (n.canonical_iff_postorder.1 hc m hm).nodup⟩

namespace Xml.Conforming

theorem all_isChar_chars {n : Node} (hn : n.Lexical) : (chars n).all isChar = true := by
  induction n using Node.ind with
  | node tag as children ih =>
    obtain ⟨hc, ht, ha⟩ := Node.forall_mem_postorder.1 hn
    have htag := all_isChar_of_isName ht
    have hattr := all_isChar_attributeChars ha
    have hall := all_isChar_allChars fun c hmem => ih c hmem (hc c hmem)
    have hmarks : ['<', '/', '>'].all isChar = true := by decide
    simp only [List.all_cons, List.all_nil, Bool.and_true, Bool.and_eq_true] at hmarks
    by_cases hnil : children = []
    · subst hnil
      simp only [chars_nil, List.all_cons, List.all_append, List.all_nil, hmarks, htag, hattr, Bool.and_true]
    · simp only [chars_of_ne_nil tag as hnil, List.all_cons, List.all_append, List.all_nil, hmarks, htag, hattr, hall,
        Bool.and_true]

/-! ## documents -/

/-- what is left of a value after the first two steps -/
def normalized (s : List Char) : List Char := (lineEnds s).map spaced

theorem spaced_eq_self_iff (c : Char) : spaced c = c ↔ c ≠ '\t' ∧ c ≠ '\n' ∧ c ≠ '\r' := by
  constructor
  · intro h
    refine ⟨?_, ?_, ?_⟩ <;> (rintro rfl; exact absurd h (by decide))
  · rintro ⟨htab, hfeed, hreturn⟩
    by_cases hspace : c = ' '
    · subst hspace
      rfl
    · simp [spaced, isBlank, hspace, htab, hfeed, hreturn]

theorem spaced_spaced (c : Char) : spaced (spaced c) = spaced c := by
  by_cases h : isBlank c = true
  · rw [spaced, spaced, if_pos h]
    rfl
  · rw [spaced, spaced, if_neg h, if_neg h]

/-- normalizing keeps a value as it is if there is nothing to normalize -/
theorem normalized_eq_self_iff (s : List Char) : normalized s = s ↔ ∀ c ∈ s, c ≠ '\t' ∧ c ≠ '\n' ∧ c ≠ '\r' := by
  unfold normalized
  constructor
  · intro h c hc
    rw [← h] at hc
    obtain ⟨d, -, rfl⟩ := List.mem_map.1 hc
    exact (spaced_eq_self_iff _).1 (spaced_spaced d)
  · intro h
    have hreturn : '\r' ∉ s := fun hmem => (h _ hmem).2.2 rfl
    have hlines := lineEnds_append_of_not_mem hreturn []
    rw [List.append_nil, lineEnds, List.append_nil] at hlines
    rw [hlines, map_eq_self_iff]
    exact fun c hc => (spaced_eq_self_iff c).2 (h c hc)

theorem readDocument_text {n : Node} (hc : n.Canonical) (hn : n.Lexical) :
    readDocument n.text = some (n.mapValues normalized) := by
  have hnamed := hn.wellNamed hc
  have hlines : lineEnds (chars n) = chars (n.mapValues lineEnds) := by
    simpa [lineEnds] using lineEnds_chars hnamed []
  obtain ⟨c, cs, hcons, -⟩ := chars_eq_cons (hnamed.mapValues lineEnds)
  have hskip : skipBlanks (chars (n.mapValues lineEnds)) = chars (n.mapValues lineEnds) := by
    rw [hcons]
    exact skipBlanks_cons (by decide) _
  have hread := readElement_chars (hnamed.mapValues lineEnds) _ [] (Nat.le_refl _)
  rw [List.append_nil, Node.mapValues_mapValues] at hread
  unfold readDocument Node.text
  rw [String.toList_ofList, hlines, hskip, if_pos (all_isChar_chars hn), hread]
  rfl

end Xml.Conforming

open Xml.Conforming

/-- **A conforming reader normalizes values.** It accepts the text of a node with legal names and characters, and gives
back the node with a line feed for every other end of a line, and then a space for every blank, in every value. So it
gives back the node itself exactly if no value has a tab, a line feed or a carriage return. -/
theorem conforming_reader_normalizes_values (n : Node) (hc : n.Canonical) (hn : n.Lexical) :
    readDocument n.text = some (n.mapValues normalized) ∧
    (readDocument n.text = some n ↔
      ∀ m ∈ n.postorder, ∀ a ∈ m.attributes, ∀ c ∈ a.2.toList, c ≠ '\t' ∧ c ≠ '\n' ∧ c ≠ '\r') := by
  have hread := readDocument_text hc hn
  refine ⟨hread, ?_⟩
  rw [hread, Option.some_inj, Node.mapValues_eq_self_iff]
  simp only [normalized_eq_self_iff]

/-- ends of lines and a tab beside markup, at both depths -/
theorem conforming_reader_normalizes_values_nested :
    let n : Node := ⟨"Block", [("Id", "1"), ("Value", "a\r\nb\r\t&#10;")], [⟨"Item", [("Value", "\"<\n")], []⟩]⟩
    let back : Node := ⟨"Block", [("Id", "1"), ("Value", "a b  &#10;")], [⟨"Item", [("Value", "\"< ")], []⟩]⟩
    n.Canonical ∧ n.Lexical ∧ readDocument n.text = some back ∧ readDocument n.text ≠ some n := by
  intro n back
  have hc : n.Canonical := ⟨List.pairwise_pair.2 (by decide), ⟨List.pairwise_singleton _ _, trivial⟩, trivial⟩
  have hn : n.Lexical := by decide +kernel
  obtain ⟨hread, hsame⟩ := conforming_reader_normalizes_values n hc hn
  have hback : n.mapValues normalized = back := by decide +kernel
  rw [hback] at hread
  refine ⟨hc, hn, hread, ?_⟩
  rw [hread]
  decide +kernel

/-- an exported item of two lines reads back as one line -/
theorem line_feed_reads_as_space :
    let n := (Item.leaf { value := .string "a\nb" }).toXml
    n.Canonical ∧ n.Lexical ∧ n.text = "<Item Value=\"a\nb\"/>" ∧
      readDocument n.text = some ⟨"Item", [("Value", "a b")], []⟩ ∧ readDocument n.text ≠ some n := by
  intro n
  exact ⟨Item.canonical_toXml _, by decide +kernel, by decide +kernel, by decide +kernel, by decide +kernel⟩

end ItemTree

import ItemTree.Xml.Text

/-!
# Escaping in one pass

The four replacements of `Xml.escape` act as one: no replacement text has a character that a later replacement
looks for.

* `escape_eq_flatMap`: every character is replaced on its own;
* `entity_of_suffix`: an ampersand in what comes out begins an entity;
* `unescape?`: the four entities read back in one pass, any other ampersand refused;
* `unescape?_escape`: reading back gives the text.
-/

namespace ItemTree.Xml

/-- one character of a value -/
def escapeChar : Char → List Char
  | '&' => ['&', 'a', 'm', 'p', ';']
  | '<' => ['&', 'l', 't', ';']
  | '>' => ['&', 'g', 't', ';']
  | '"' => ['&', 'q', 'u', 'o', 't', ';']
  | c => [c]

/-- a character that is not markup -/
def IsPlain (c : Char) : Prop := c ≠ '&' ∧ c ≠ '<' ∧ c ≠ '>' ∧ c ≠ '"'

/-- the cases of `escapeChar` -/
theorem markup_or_plain (c : Char) : c = '&' ∨ c = '<' ∨ c = '>' ∨ c = '"' ∨ IsPlain c := by
  unfold IsPlain
  by_cases h1 : c = '&'
  · exact .inl h1
  by_cases h2 : c = '<'
  · exact .inr (.inl h2)
  by_cases h3 : c = '>'
  · exact .inr (.inr (.inl h3))
  by_cases h4 : c = '"'
  · exact .inr (.inr (.inr (.inl h4)))
  · exact .inr (.inr (.inr (.inr ⟨h1, h2, h3, h4⟩)))

theorem escapeChar_of_isPlain {c : Char} (h : IsPlain c) : escapeChar c = [c] := by
  obtain ⟨h1, h2, h3, h4⟩ := h
  unfold escapeChar
  split
  · exact absurd rfl h1
  · exact absurd rfl h2
  · exact absurd rfl h3
  · exact absurd rfl h4
  · rfl

theorem replace_flatMap (d : Char) (text : String) (f : Char → List Char) (s : List Char) :
    replace d text (s.flatMap f) = s.flatMap fun c => replace d text (f c) := by
  unfold replace
  rw [List.flatMap_assoc]

theorem replace_singleton_of_ne {c d : Char} (h : c ≠ d) (text : String) : replace d text [c] = [c] := by
  rw [replace, List.flatMap_singleton, if_neg h]

theorem escape_eq_flatMap (s : List Char) : escape s = s.flatMap escapeChar := by
  have amp : replace '&' "&amp;" s = s.flatMap fun c => if c = '&' then "&amp;".toList else [c] := rfl
  rw [escape, amp, replace_flatMap, replace_flatMap, replace_flatMap]
  congr 1
  funext c
  rcases markup_or_plain c with rfl | rfl | rfl | rfl | h
  · rfl
  · rfl
  · rfl
  · rfl
  · rw [escapeChar_of_isPlain h]
    obtain ⟨h1, h2, h3, h4⟩ := h
    rw [if_neg h1, replace_singleton_of_ne h2, replace_singleton_of_ne h3, replace_singleton_of_ne h4]

theorem escape_cons (c : Char) (s : List Char) : escape (c :: s) = escapeChar c ++ escape s := by
  rw [escape_eq_flatMap, escape_eq_flatMap, List.flatMap_cons]

theorem escape_append (s t : List Char) : escape (s ++ t) = escape s ++ escape t := by
  rw [escape_eq_flatMap, escape_eq_flatMap, escape_eq_flatMap, List.flatMap_append]

/-- the characters of the entities -/
def entityChars : List Char := ['&', ';', 'a', 'g', 'l', 'm', 'o', 'p', 'q', 't', 'u']

/-- what holds of entities, and of a character if it stays as it is, holds of what the character becomes -/
theorem forall_mem_escapeChar {p : Char → Bool} (hp : entityChars.all p = true) {c : Char}
    (hc : IsPlain c → p c = true) : ∀ x ∈ escapeChar c, p x = true := by
  have hentity (h : escapeChar c ⊆ entityChars) : ∀ x ∈ escapeChar c, p x = true :=
    fun x hx => List.all_eq_true.1 hp x (h hx)
  rcases markup_or_plain c with rfl | rfl | rfl | rfl | hplain
  · exact hentity (by decide)
  · exact hentity (by decide)
  · exact hentity (by decide)
  · exact hentity (by decide)
  · rw [escapeChar_of_isPlain hplain]
    exact List.forall_mem_singleton.2 (hc hplain)

/-- of the markup only ampersands are left -/
theorem ne_of_mem_escape {s : List Char} {x : Char} (h : x ∈ escape s) : x ≠ '<' ∧ x ≠ '>' ∧ x ≠ '"' := by
  rw [escape_eq_flatMap] at h
  obtain ⟨c, _, hx⟩ := List.mem_flatMap.1 h
  have hne := forall_mem_escapeChar (p := fun x => x ≠ '<' ∧ x ≠ '>' ∧ x ≠ '"') (by decide)
    (fun hc => decide_eq_true hc.2) x hx
  exact of_decide_eq_true hne

theorem quote_not_mem_escape (s : List Char) : '"' ∉ escape s := fun h => (ne_of_mem_escape h).2.2 rfl

/-- the texts that stand for markup -/
def entities : List String := ["&amp;", "&lt;", "&gt;", "&quot;"]

/-- one step of looking for an ampersand: it is at the front of an entity, or further on -/
theorem entity_or_suffix {c : Char} {s cs : List Char} (h : '&' :: cs <:+ escapeChar c ++ s) :
    '&' :: cs = escapeChar c ++ s ∧ String.ofList (escapeChar c) ∈ entities ∨ '&' :: cs <:+ s := by
  rcases markup_or_plain c with rfl | rfl | rfl | rfl | hp
  · simpa [escapeChar, entities, List.suffix_cons_iff] using h
  · simpa [escapeChar, entities, List.suffix_cons_iff] using h
  · simpa [escapeChar, entities, List.suffix_cons_iff] using h
  · simpa [escapeChar, entities, List.suffix_cons_iff] using h
  · rw [escapeChar_of_isPlain hp, List.singleton_append, List.suffix_cons_iff] at h
    refine .inr (h.resolve_left fun heq => hp.1 ?_)
    exact (List.cons.inj heq).1.symm

/-- an ampersand begins an entity -/
theorem entity_of_suffix {s cs : List Char} (h : '&' :: cs <:+ escape s) :
    ∃ e ∈ entities, e.toList <+: '&' :: cs := by
  induction s with
  | nil => cases List.suffix_nil.1 h
  | cons c s ih =>
    rw [escape_cons] at h
    rcases entity_or_suffix h with ⟨heq, he⟩ | hrest
    · refine ⟨_, he, ?_⟩
      rw [heq, String.toList_ofList]
      exact List.prefix_append _ _
    · exact ih hrest

/-- a value read back from between its quotes -/
def unescape? : List Char → Option (List Char)
  | [] => some []
  | c :: cs =>
    if c = '&' then
      match cs with
      | 'a' :: 'm' :: 'p' :: ';' :: cs => (unescape? cs).map ('&' :: ·)
      | 'l' :: 't' :: ';' :: cs => (unescape? cs).map ('<' :: ·)
      | 'g' :: 't' :: ';' :: cs => (unescape? cs).map ('>' :: ·)
      | 'q' :: 'u' :: 'o' :: 't' :: ';' :: cs => (unescape? cs).map ('"' :: ·)
      | _ => none
    else (unescape? cs).map (c :: ·)

theorem unescape?_cons_of_ne {c : Char} (h : c ≠ '&') (cs : List Char) :
    unescape? (c :: cs) = (unescape? cs).map (c :: ·) := by
  rw [unescape?.eq_def]
  simp only [if_neg h]

/-- one step of reading back -/
theorem unescape?_escapeChar (c : Char) (cs : List Char) :
    unescape? (escapeChar c ++ cs) = (unescape? cs).map (c :: ·) := by
  rcases markup_or_plain c with rfl | rfl | rfl | rfl | h
  · rfl
  · rfl
  · rfl
  · rfl
  · rw [escapeChar_of_isPlain h, List.singleton_append, unescape?_cons_of_ne h.1]

theorem unescape?_escape (s : List Char) : unescape? (escape s) = some s := by
  induction s with
  | nil => rfl
  | cons c s ih =>
    rw [escape_cons, unescape?_escapeChar, ih]
    rfl

end ItemTree.Xml

namespace ItemTree

open Xml

/-- **The four replacements act as one substitution**, character by character. So nothing but entities is left of the
markup, escaping goes along with appending, and one pass over the entities gives the text back. -/
theorem escape_is_one_substitution (s t : List Char) :
    escape s = s.flatMap escapeChar ∧
    ('<' ∉ escape s ∧ '>' ∉ escape s ∧ '"' ∉ escape s) ∧
    escape (s ++ t) = escape s ++ escape t ∧
    (∀ cs, '&' :: cs <:+ escape s → ∃ e ∈ entities, e.toList <+: '&' :: cs) ∧
    unescape? (escape s) = some s := by
  refine ⟨escape_eq_flatMap s, ⟨fun h => ?_, fun h => ?_, quote_not_mem_escape s⟩, escape_append s t,
    fun cs => entity_of_suffix, unescape?_escape s⟩
  · exact (ne_of_mem_escape h).1 rfl
  · exact (ne_of_mem_escape h).2.1 rfl

/-- a text that looks escaped already -/
theorem escape_is_one_substitution_entity :
    let s := ['&', 'l', 't', ';', '"']
    escape s = ['&', 'a', 'm', 'p', ';', 'l', 't', ';'] ++ ['&', 'q', 'u', 'o', 't', ';'] ∧
      (∃ e ∈ entities, e.toList <+: ['&', 'q', 'u', 'o', 't', ';']) ∧ unescape? (escape s) = some s := by
  intro s
  have hs : escape s = ['&', 'a', 'm', 'p', ';', 'l', 't', ';'] ++ ['&', 'q', 'u', 'o', 't', ';'] := by decide
  obtain ⟨-, -, -, hamp, hback⟩ := escape_is_one_substitution s []
  refine ⟨hs, hamp _ ?_, hback⟩
  rw [hs]
  exact List.suffix_append _ _

end ItemTree

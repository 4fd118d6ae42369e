import ItemTree.Proofs.Source.Lines

/-!
# No blanks at the ends of lines

Separators are written ahead of parts that may be absent, so that a line could end in one of them. `visibleAfter` follows
a layout and knows whether the last character of the line so far is visible; it stops at a line end where it is not.

* `Item.visibleAfter_layout`: an item never stops it, and leaves a visible character behind, whatever stands before;
* `endsVisible_of_visibleAfter`: so every line of the item ends in a visible character;
* `splitOn_toSource`: the lines of source text are those of the item, and an empty one for a last line feed.
-/

namespace ItemTree

open Layout

/-! ## visible characters -/

/-- white space: tab to carriage return, the space, and the separators of text in any script -/
def IsWhitespace (c : Char) : Prop :=
  (0x09 ≤ c.toNat ∧ c.toNat ≤ 0x0d) ∨ (0x2000 ≤ c.toNat ∧ c.toNat ≤ 0x200a) ∨
    c.toNat ∈ [0x20, 0x85, 0xa0, 0x1680, 0x2028, 0x2029, 0x202f, 0x205f, 0x3000]

instance (c : Char) : Decidable (IsWhitespace c) := inferInstanceAs (Decidable (_ ∨ _))

/-- any character but white space -/
def visible (c : Char) : Bool := !decide (IsWhitespace c)

theorem visible_iff {c : Char} : visible c = true ↔ ¬ IsWhitespace c := by
  simp [visible]

/-- the last character is there, and it is visible -/
def EndsVisible (cs : List Char) : Prop := ∃ c, cs.getLast? = some c ∧ visible c = true

theorem EndsVisible.ne_nil {cs : List Char} (h : EndsVisible cs) : cs ≠ [] := by
  obtain ⟨c, hc, -⟩ := h
  rintro rfl
  cases hc

theorem EndsVisible.append {ys : List Char} (h : EndsVisible ys) (xs : List Char) : EndsVisible (xs ++ ys) := by
  obtain ⟨c, hc, hvisible⟩ := h
  exact ⟨c, by rw [List.getLast?_append, hc, Option.some_or], hvisible⟩

/-- text of one line that ends in a visible character -/
def Solid (s : String) : Prop := s ≠ "" ∧ OneLine s ∧ ∀ c ∈ s.toList.getLast?, ¬ IsWhitespace c

-- looks at the last character only, not at all characters there are
instance (s : String) : Decidable (Solid s) :=
  @instDecidableAnd _ _ _ (@instDecidableAnd _ _ _ (Option.decidableForallMem _))

/-! ## layouts -/

namespace Layout

/-- whether the last character of the line is visible after a layout, if it was (`a`) before; nothing if a line ends
where it is not -/
def visibleAfter : Bool → Layout → Option Bool
  | a, [] => some a
  | _, .char c :: l => visibleAfter (visible c) l
  | a, .line _ :: l => if a then visibleAfter false l else none

variable (a : Bool)

theorem visibleAfter_append (l m : Layout) :
    visibleAfter a (l ++ m) = (visibleAfter a l).bind fun b => visibleAfter b m := by
  induction l generalizing a with
  | nil => rfl
  | cons x l ih =>
    cases x with
    | char c => exact ih (visible c)
    | line d =>
      cases a with
      | true => exact ih false
      | false => rfl

theorem visibleAfter_deeper (k : Nat) (l : Layout) : visibleAfter a (deeper k l) = visibleAfter a l := by
  induction l generalizing a with
  | nil => rfl
  | cons x l ih =>
    cases x with
    | char c => exact ih (visible c)
    | line d =>
      cases a with
      | true => exact ih false
      | false => rfl

theorem visibleAfter_ofText {s : String} {b : Bool} (hs : s.toList.getLast?.map visible = some b) :
    visibleAfter a (ofText s) = some b := by
  unfold ofText
  generalize s.toList = cs at hs
  induction cs generalizing a with
  | nil => cases hs
  | cons x cs ih =>
    cases cs with
    | nil => exact hs
    | cons y cs => exact ih (visible x) hs

theorem visibleAfter_solid {s : String} (hs : Solid s) : visibleAfter a (ofText s) = some true := by
  obtain ⟨hne, -, hlast⟩ := hs
  apply visibleAfter_ofText
  cases hc : s.toList.getLast? with
  | none => exact absurd (String.toList_eq_nil_iff.1 (List.getLast?_eq_none_iff.1 hc)) hne
  | some c => rw [Option.map_some, visible_iff.2 (hlast c hc)]

end Layout

/-! ## layouts of items -/

/-- what an item has to show for itself: a leaf or type its text, a parameter a type or a name -/
def Item.Shows : Item → Prop
  | .leaf h => Solid h.text
  | .type t => Solid t.name
  | .parameter _ t n => t.isSome ∨ n.isSome
  | _ => True

section

variable (a : Bool)

theorem Header.visibleAfter_layout {h : Header} (hh : Solid h.text) : visibleAfter a h.layout = some true := by
  have hopen : visibleAfter a (ofText "(") = some true := visibleAfter_ofText a rfl
  have hclose : visibleAfter true (ofText ")") = some true := visibleAfter_ofText true rfl
  unfold Header.layout
  split
  · simp [visibleAfter_append, hopen, visibleAfter_solid _ hh, hclose]
  · exact visibleAfter_solid a hh

theorem TypeRef.visibleAfter_layout {t : TypeRef} (ht : (Item.type t).Every Item.Shows) :
    visibleAfter a t.layout = some true := by
  induction t generalizing a with
  | bare h => exact h.visibleAfter_layout a ht.self
  | applied h e ih =>
    have hh := h.visibleAfter_layout a ht.self
    have he := ih true (ht.part _ List.mem_cons_self)
    have hopen : visibleAfter true (ofText "<") = some true := visibleAfter_ofText true rfl
    have hclose : visibleAfter true (ofText ">") = some true := visibleAfter_ofText true rfl
    simp [layout, visibleAfter_append, hh, hopen, he, hclose]

/-- a type ends in a blank only where a name follows -/
theorem visibleAfter_typeLayout {t : Option TypeRef} (ht : ∀ x ∈ t.map Item.type, x.Every Item.Shows) (spaced : Bool) :
    visibleAfter a (typeLayout t spaced) = some (if t.isSome then !spaced else a) := by
  cases t with
  | none => rfl
  | some t =>
    have ht := TypeRef.visibleAfter_layout a (ht _ rfl)
    have hblank : visibleAfter true (ofText " ") = some false := visibleAfter_ofText true rfl
    cases spaced with
    | true => simp [typeLayout, visibleAfter_append, ht, hblank]
    | false => simpa [typeLayout] using ht

theorem visibleAfter_modifiersLayout (ms : List Modifier) : ∃ b, visibleAfter a (modifiersLayout ms) = some b := by
  induction ms generalizing a with
  | nil => exact ⟨a, rfl⟩
  | cons m ms ih =>
    have hm : visibleAfter a (ofText m.name) = some true := by cases m <;> exact visibleAfter_ofText a rfl
    have hblank : visibleAfter true (ofText " ") = some false := visibleAfter_ofText true rfl
    simpa [modifiersLayout, visibleAfter_append, hm, hblank] using ih false

section

variable {es : List Item} {o : Option Item}

/-- every entry stands on a line of its own, after one that ended as it should -/
theorem visibleAfter_entriesLayout (ih : ∀ e ∈ es, visibleAfter false e.layout = some true) :
    visibleAfter true (entriesLayout es) = some true := by
  induction es with
  | nil => rfl
  | cons e es hes =>
    have he := ih e List.mem_cons_self
    have hes := hes fun x hx => ih x (List.mem_cons_of_mem _ hx)
    simp [entriesLayout, visibleAfter, visibleAfter_append, he, hes]

theorem visibleAfter_slotLayout (ih : ∀ x ∈ o, visibleAfter a x.layout = some true) :
    visibleAfter a (slotLayout o) = some (o.isSome || a) := by
  cases o with
  | none => rfl
  | some i => exact ih i rfl

theorem visibleAfter_contentLayout (ih : ∀ x ∈ o, visibleAfter false x.layout = some true) :
    visibleAfter a (contentLayout o) = some (o.isSome || a) := by
  cases o with
  | none => rfl
  | some i =>
    have hcolon : visibleAfter a (ofText ": ") = some false := visibleAfter_ofText a rfl
    simp [contentLayout, visibleAfter_append, hcolon, ih i rfl]

theorem visibleAfter_block {l : Layout} (hl : visibleAfter true l = some true) :
    visibleAfter a (ofText "\x7b" ++ deeper 1 l ++ .line 0 :: ofText "\x7d") = some true := by
  have hopen : visibleAfter a (ofText "\x7b") = some true := visibleAfter_ofText a rfl
  have hclose : visibleAfter false (ofText "\x7d") = some true := visibleAfter_ofText false rfl
  simp [visibleAfter_append, visibleAfter_deeper, visibleAfter, hopen, hl, hclose]

end

end

/-- **An item leaves a visible character behind**, and so does every line of it that it ends. -/
theorem Item.visibleAfter_layout {i : Item} (hi : i.Every Shows) (a : Bool) : visibleAfter a i.layout = some true := by
  induction i using Item.ind_body generalizing a with
  | leaf h => exact h.visibleAfter_layout a hi.self
  | complex h es ih => exact visibleAfter_block a (visibleAfter_entriesLayout fun e he => ih e he (hi.entry rfl e he) false)
  | file h es name ih =>
    exact visibleAfter_block a (visibleAfter_entriesLayout fun e he => ih e he (hi.entry rfl e he) false)
  | loop h i c p b ihi ihc ihp ihb =>
    have hinit := fun a => visibleAfter_slotLayout a fun x hx =>
      ihi x hx (hi.member "initialization" (by simp [members]) x hx) a
    have hcond := fun a => visibleAfter_slotLayout a fun x hx =>
      ihc x hx (hi.member "condition" (by simp [members]) x hx) a
    have hincr := fun a => visibleAfter_slotLayout a fun x hx =>
      ihp x hx (hi.member "incrementation" (by simp [members]) x hx) a
    have hbody := visibleAfter_entriesLayout fun x hx =>
      ihb x hx (Every.body (hi.member "content" (by simp [members])) x hx) false
    have hfor : visibleAfter a (ofText "for (") = some true := visibleAfter_ofText a rfl
    have hsep : ∀ a, visibleAfter a (ofText "; ") = some false := fun a => visibleAfter_ofText a rfl
    have hparen : ∀ a, visibleAfter a (ofText ")") = some true := fun a => visibleAfter_ofText a rfl
    have hopen : visibleAfter false (ofText "\x7b") = some true := visibleAfter_ofText false rfl
    have hclose : visibleAfter false (ofText "\x7d") = some true := visibleAfter_ofText false rfl
    simp [layout, bodyLayout_eq, visibleAfter_append, visibleAfter_deeper, visibleAfter, hfor, hinit, hsep, hcond, hincr,
      hparen, hopen, hbody, hclose]
  | bare h => exact TypeRef.visibleAfter_layout a hi
  | applied h e ih => exact TypeRef.visibleAfter_layout a hi
  | property h ms t n c iht ihn ihc =>
    obtain ⟨b, hms⟩ := visibleAfter_modifiersLayout a ms
    have hkeyword : visibleAfter b (ofText "property") = some true := visibleAfter_ofText b rfl
    have hblank : visibleAfter true (if t.isSome || n.isSome then ofText " " else []) =
        some !(t.isSome || n.isSome) := by
      cases t.isSome || n.isSome with
      | true => exact visibleAfter_ofText true rfl
      | false => rfl
    have ht := fun a => visibleAfter_typeLayout a (t := t) (hi.member "type" (by simp [members])) n.isSome
    have hn := fun a => visibleAfter_slotLayout a fun x hx => ihn x hx (hi.member "name" (by simp [members]) x hx) a
    have hc := fun a => visibleAfter_contentLayout a fun x hx =>
      ihc x hx (hi.member "content" (by simp [members]) x hx) false
    simp only [layout, visibleAfter_append, hms, hkeyword, hblank, ht, hn, hc, Option.bind_some]
    -- every blank is followed by the part that it was written for
    cases t <;> cases n <;> cases c <;> rfl
  | parameter h t n iht ihn =>
    have hshown : t.isSome ∨ n.isSome := hi.self
    have ht := visibleAfter_typeLayout a (t := t) (hi.member "type" (by simp [members])) n.isSome
    have hn := fun a => visibleAfter_slotLayout a fun x hx => ihn x hx (hi.member "name" (by simp [members]) x hx) a
    simp only [layout, visibleAfter_append, ht, hn, Option.bind_some]
    cases t with
    | some t => cases n <;> rfl
    | none =>
      have hname : n.isSome = true := hshown.resolve_left (by simp)
      rw [hname]
      rfl

/-! ## lines -/

/-- each line of a layout ends in a visible character, the first perhaps in the one before it -/
theorem endsVisible_of_visibleAfter {a : Bool} {l : Layout} (h : visibleAfter a l = some true) :
    (EndsVisible l.first.toList ∨ l.first = "" ∧ a = true) ∧ ∀ line ∈ l.lines, EndsVisible line.2.toList := by
  induction l generalizing a with
  | nil => exact ⟨.inr ⟨rfl, Option.some.inj h⟩, fun line hline => absurd hline List.not_mem_nil⟩
  | cons m l ih =>
    cases m with
    | char c =>
      obtain ⟨hfirst, hlines⟩ := ih h
      refine ⟨.inl ?_, hlines⟩
      have htext : (first (.char c :: l)).toList = [c] ++ (first l).toList := by simp [first]
      rw [htext]
      rcases hfirst with hfirst | ⟨hempty, hvisible⟩
      · exact hfirst.append [c]
      · rw [hempty]
        exact ⟨c, rfl, hvisible⟩
    | line d =>
      cases a with
      | false => cases h
      | true =>
        obtain ⟨hfirst, hlines⟩ := ih h
        have hfirst : EndsVisible (first l).toList := hfirst.resolve_right fun hf => Bool.false_ne_true hf.2
        exact ⟨.inr ⟨rfl, rfl⟩, List.forall_mem_cons.2 ⟨hfirst, hlines⟩⟩

namespace Layout

theorem first_append_line (l : Layout) (d : Nat) : first (l ++ [.line d]) = l.first := by
  induction l with
  | nil => rfl
  | cons m l ih =>
    cases m with
    | char c => rw [List.cons_append, first, first, ih]
    | line k => rfl

theorem lines_append_line (l : Layout) (d : Nat) : lines (l ++ [.line d]) = l.lines ++ [(d, "")] := by
  induction l with
  | nil => rfl
  | cons m l ih =>
    cases m with
    | char c => rw [List.cons_append, lines, lines, ih]
    | line k => rw [List.cons_append, lines, lines, ih, first_append_line, List.cons_append]

/-- all lines of a layout, as they are rendered -/
def allLines (unit : String) (l : Layout) : List (List Char) :=
  l.first.toList :: l.lines.map fun line => (lineText unit 0 line).toList

end Layout

/-- a line feed at the end adds an empty line -/
theorem splitOn_toSource {i : Item} (hi : i.Literals OneLine) {c : EmitConfig} (hu : OneLine c.indent) :
    (i.toSource c).toList.splitOn '\n' = allLines c.indent i.layout ++ if c.trailingNewline then [[]] else [] := by
  have hfree := Item.lineFree_layout hi
  rw [i.toList_toSource]
  split
  · have hempty : (lineText c.indent 0 (0, "")).toList = [] := rfl
    rw [splitOn_render hu (by simp [hfree]), first_append_line, lines_append_line]
    simp [allLines, hempty]
  · rw [List.append_nil, List.append_nil, splitOn_render hu hfree]
    rfl

theorem endsVisible_allLines {i : Item} (hi : i.Every Item.Shows) (unit : String) :
    ∀ line ∈ allLines unit i.layout, EndsVisible line := by
  obtain ⟨hfirst, hlines⟩ := endsVisible_of_visibleAfter (Item.visibleAfter_layout hi false)
  have hfirst : EndsVisible i.layout.first.toList := hfirst.resolve_right fun hf => Bool.false_ne_true hf.2
  refine List.forall_mem_cons.2 ⟨hfirst, fun line hline => ?_⟩
  obtain ⟨x, hx, rfl⟩ := List.mem_map.1 hline
  rw [lineText, String.toList_append]
  exact (hlines x hx).append _

theorem Item.every_shows {i : Item} (hi : i.Literals Solid)
    (hp : ∀ h t n, Item.parameter h t n ∈ i.subitems → t.isSome ∨ n.isSome) : i.Every Shows := by
  intro j hj
  cases j with
  | leaf h => exact hi _ hj (.inl rfl)
  | type t => exact hi _ hj (.inr rfl)
  | parameter h t n => exact hp h t n hj
  | complex h es => trivial
  | file h es name => trivial
  | loop h i c p b => trivial
  | property h ms t n c => trivial

/-- of lines that are not empty, followed by an empty one or not, only the last may be empty -/
theorem getElem_eq_nil_iff {texts : List (List Char)} (h : ∀ t ∈ texts, EndsVisible t) (newline : Bool) (k : Nat)
    (hk : k < (texts ++ if newline then [[]] else []).length) :
    (texts ++ if newline then [[]] else [])[k] = [] ↔
      newline = true ∧ k + 1 = (texts ++ if newline then [[]] else []).length := by
  cases newline with
  | false =>
    have hvisible : ∀ t ∈ texts ++ [], EndsVisible t := by rwa [List.append_nil]
    exact iff_of_false (hvisible _ (List.getElem_mem hk)).ne_nil fun hlast => Bool.false_ne_true hlast.1
  | true =>
    have hlen : (texts ++ [[]]).length = texts.length + 1 := List.length_append
    show (texts ++ [[]])[k] = [] ↔ true = true ∧ k + 1 = (texts ++ [[]]).length
    by_cases hlt : k < texts.length
    · rw [List.getElem_append_left hlt, hlen]
      exact iff_of_false (h _ (List.getElem_mem hlt)).ne_nil (by omega)
    · have hlast : k = texts.length := by
        have : k < texts.length + 1 := hlen ▸ hk
        omega
      subst hlast
      rw [hlen]
      simp

/-- **No line of source text ends in white space, and none is empty** but the one after a last line feed, as long as every
literal is one line that ends in a visible character and every parameter has a type or a name. Any slots, entries and
modifiers may be there or not, and the unit of indentation is any text without line feeds. -/
theorem source_has_no_trailing_blanks (i : Item) (c : EmitConfig) (hi : i.Literals Solid)
    (hp : ∀ h t n, Item.parameter h t n ∈ i.subitems → t.isSome ∨ n.isSome) (hu : OneLine c.indent) :
    let lines := (i.toSource c).toList.splitOn '\n'
    (∀ line ∈ lines, ∀ x ∈ line.getLast?, ¬ IsWhitespace x) ∧
      ∀ k (hk : k < lines.length), lines[k] = [] ↔ c.trailingNewline = true ∧ k + 1 = lines.length := by
  intro lines
  have hline : i.Literals OneLine := fun j hj hk => (hi j hj hk).2.1
  have hvisible := endsVisible_allLines (Item.every_shows hi hp) c.indent
  have hlines : lines = allLines c.indent i.layout ++ if c.trailingNewline then [[]] else [] := splitOn_toSource hline hu
  clear_value lines
  subst hlines
  refine ⟨fun line hmem x hx => ?_, getElem_eq_nil_iff hvisible c.trailingNewline⟩
  rcases List.mem_append.1 hmem with hmem | hmem
  · obtain ⟨y, hy, hyvisible⟩ := hvisible line hmem
    obtain rfl : y = x := Option.some.inj (hy.symm.trans hx)
    exact visible_iff.1 hyvisible
  · have hempty : line = [] := by
      split at hmem
      · exact List.mem_singleton.1 hmem
      · cases hmem
    rw [hempty] at hx
    cases hx

/-- a loop with a block in its header and a bare declaration as its body, under a blank unit -/
theorem source_has_no_trailing_blanks_bare :
    let name : Item := .leaf { value := .string "x y" }
    let block : Item := .complex {} [.parameter {} none (some name)]
    let i : Item := .loop {} (some block) none none (some (.property {} [.readonly] none none none))
    let c : EmitConfig := { indent := " \t", trailingNewline := true }
    let lines := (i.toSource c).toList.splitOn '\n'
    i.Literals Solid ∧ (∀ h t n, Item.parameter h t n ∈ i.subitems → t.isSome ∨ n.isSome) ∧ OneLine c.indent ∧
      (∀ line ∈ lines, ∀ x ∈ line.getLast?, ¬ IsWhitespace x) ∧
      ∀ k (hk : k < lines.length), lines[k] = [] ↔ c.trailingNewline = true ∧ k + 1 = lines.length := by
  intro name block i c lines
  have hi : i.Literals Solid := by decide
  have hp : ∀ h t n, Item.parameter h t n ∈ i.subitems → t.isSome ∨ n.isSome := by
    intro h t n hmem
    have hmem : Item.parameter h t n = .parameter {} none (some name) := by
      simpa [i, block, name, Item.subitems, entriesSubitems, slotSubitems] using hmem
    cases hmem
    exact .inr rfl
  have hu : OneLine c.indent := by decide
  exact ⟨hi, hp, hu, source_has_no_trailing_blanks i c hi hp hu⟩

end ItemTree

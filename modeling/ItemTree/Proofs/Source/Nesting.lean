import ItemTree.Proofs.Source.Lines

/-!
# Indentation is bracket nesting

Source text opens a bracket for every level that it indents by. `Nested a l b` follows the brackets of a layout from
depth `a` to depth `b` and asks of every line end that it announces the depth reached, or one less before a closing
brace. Layouts of items are nested (`Item.nested_layout`), and a nested layout renders to

* a text whose brackets are closed in turn (`Nested.counts`);
* lines that are indented by the brackets open before them (`Nested.lined`).
-/

namespace ItemTree

open Layout

/-! ## counting brackets -/

/-- `1` for an opening bracket, `-1` for a closing one -/
def weight (c : Char) : Int :=
  if c = '(' ∨ c = '\x7b' then 1 else if c = ')' ∨ c = '\x7d' then -1 else 0

/-- brackets opened less brackets closed -/
def nesting : List Char → Int
  | [] => 0
  | c :: cs => weight c + nesting cs

@[simp] theorem nesting_nil : nesting [] = 0 := rfl

@[simp] theorem nesting_cons (c : Char) (cs : List Char) : nesting (c :: cs) = weight c + nesting cs := rfl

@[simp] theorem nesting_append (xs ys : List Char) : nesting (xs ++ ys) = nesting xs + nesting ys := by
  induction xs with
  | nil => simp
  | cons x xs ih => rw [List.cons_append, nesting_cons, nesting_cons, ih, Int.add_assoc]

theorem nesting_eq_zero {cs : List Char} (h : ∀ c ∈ cs, weight c = 0) : nesting cs = 0 := by
  induction cs with
  | nil => rfl
  | cons c cs ih =>
    rw [nesting_cons, h c List.mem_cons_self, ih fun x hx => h x (List.mem_cons_of_mem _ hx), Int.add_zero]

/-- no line feed and no bracket -/
def IsInert (c : Char) : Prop := c ≠ '\n' ∧ c ≠ '(' ∧ c ≠ ')' ∧ c ≠ '\x7b' ∧ c ≠ '\x7d'

instance (c : Char) : Decidable (IsInert c) := inferInstanceAs (Decidable (_ ∧ _))

/-- text without line feeds and brackets -/
def InertText (s : String) : Prop := ∀ c ∈ s.toList, IsInert c

-- over the characters of the text, not over all characters
instance (s : String) : Decidable (InertText s) := List.decidableBAll IsInert s.toList

theorem IsInert.weight {c : Char} (h : IsInert c) : weight c = 0 := by
  obtain ⟨_, h1, h2, h3, h4⟩ := h
  simp [ItemTree.weight, h1, h2, h3, h4]

theorem add_weight_of_opening {c : Char} (hc : c = '(' ∨ c = '\x7b') (a : Nat) :
    (a : Int) + weight c = (a + 1 : Nat) := by
  rw [weight, if_pos hc]
  rfl

theorem add_weight_of_closing {c : Char} (hc : c = ')' ∨ c = '\x7d') (a : Nat) :
    ((a + 1 : Nat) : Int) + weight c = a := by
  have hw : weight c = -1 := by rcases hc with rfl | rfl <;> rfl
  omega

/-- the brackets of a text lead from `a` open ones to `b`, and nothing is closed that is not open -/
structure Counts (a : Nat) (cs : List Char) (b : Nat) : Prop where
  total : (a : Int) + nesting cs = b
  nonneg : ∀ n, 0 ≤ (a : Int) + nesting (cs.take n)

namespace Counts

variable {a b c : Nat} {xs ys : List Char}

theorem append (hx : Counts a xs b) (hy : Counts b ys c) : Counts a (xs ++ ys) c := by
  refine ⟨?_, fun n => ?_⟩
  · rw [nesting_append, ← Int.add_assoc, hx.total, hy.total]
  · rw [List.take_append, nesting_append]
    by_cases hn : n ≤ xs.length
    · simpa [Nat.sub_eq_zero_of_le hn] using hx.nonneg n
    · have hn : xs.length ≤ n := by omega
      rw [List.take_of_length_le hn, ← Int.add_assoc, hx.total]
      exact hy.nonneg _

theorem of_weightless (h : ∀ x ∈ xs, weight x = 0) : Counts a xs a := by
  refine ⟨?_, fun n => ?_⟩
  · rw [nesting_eq_zero h, Int.add_zero]
  · rw [nesting_eq_zero fun x hx => h x (List.mem_of_mem_take hx)]
    omega

theorem bracket {x : Char} (h : (a : Int) + weight x = b) : Counts a [x] b := by
  refine ⟨?_, fun n => ?_⟩
  · simpa using h
  · cases n with
    | zero => simp
    | succ n => simp; omega

end Counts

/-! ## nested layouts -/

/-- a layout that leads from depth `a` to depth `b` and indents by its own brackets -/
inductive Nested : Nat → Layout → Nat → Prop
  | nil (a : Nat) : Nested a [] a
  | inert {a b : Nat} {l : Layout} {c : Char} (hc : IsInert c) : Nested a l b → Nested a (.char c :: l) b
  | opens {a b : Nat} {l : Layout} {c : Char} (hc : c = '(' ∨ c = '\x7b') :
      Nested (a + 1) l b → Nested a (.char c :: l) b
  | closes {a b : Nat} {l : Layout} : Nested a l b → Nested (a + 1) (.char ')' :: l) b
  | line {a b : Nat} {l : Layout} : Nested a l b → Nested a (.line a :: l) b
  | closingLine {a b : Nat} {l : Layout} : Nested a l b → Nested (a + 1) (.line a :: .char '\x7d' :: l) b

namespace Nested

variable {a b c : Nat} {l m : Layout}

theorem append (hl : Nested a l b) (hm : Nested b m c) : Nested a (l ++ m) c := by
  induction hl with
  | nil a => exact hm
  | inert hc _ ih => exact inert hc (ih hm)
  | opens hc _ ih => exact opens hc (ih hm)
  | closes _ ih => exact closes (ih hm)
  | line _ ih => exact line (ih hm)
  | closingLine _ ih => exact closingLine (ih hm)

theorem deeper (k : Nat) (hl : Nested a l b) : Nested (k + a) (deeper k l) (k + b) := by
  induction hl with
  | nil a => exact nil _
  | inert hc _ ih => exact inert hc ih
  | opens hc _ ih => exact opens hc ih
  | closes _ ih => exact closes ih
  | line _ ih => exact line ih
  | closingLine _ ih => exact closingLine ih

theorem text {s : String} (hs : InertText s) : Nested a (ofText s) a := by
  unfold ofText
  unfold InertText at hs
  generalize s.toList = cs at hs
  induction cs with
  | nil => exact nil a
  | cons c cs ih => exact inert (hs c List.mem_cons_self) (ih fun x hx => hs x (List.mem_cons_of_mem _ hx))

theorem parentheses (hl : Nested (a + 1) l (a + 1)) : Nested a (ofText "(" ++ l ++ ofText ")") a :=
  (opens (.inl rfl) hl).append (closes (nil a))

theorem block (hl : Nested 0 l 0) : Nested 0 (ofText "\x7b" ++ Layout.deeper 1 l ++ .line 0 :: ofText "\x7d") 0 :=
  (opens (.inr rfl) (hl.deeper 1)).append (closingLine (nil 0))

end Nested

/-! ## layouts of items -/

/-- literals and names of types have no line feeds and brackets -/
def Item.Inert (i : Item) : Prop := ∀ j ∈ i.subitems, j.kind = .item ∨ j.kind = .type → InertText j.text

instance (i : Item) : Decidable i.Inert := List.decidableBAll _ i.subitems

theorem Header.nested_layout {h : Header} (hh : InertText h.text) : Nested 0 h.layout 0 := by
  unfold Header.layout
  split
  · exact (Nested.text hh).parentheses
  · exact .text hh

theorem TypeRef.nested_layout {t : TypeRef} (ht : (Item.type t).Literals InertText) : Nested 0 t.layout 0 := by
  induction t with
  | bare h => exact h.nested_layout (ht.text (.inr rfl))
  | applied h e ih =>
    have hh := h.nested_layout (ht.text (.inr rfl))
    have he := ih (ht.part _ List.mem_cons_self)
    exact ((hh.append (.text (by decide))).append he).append (.text (by decide))

theorem nested_typeLayout {t : Option TypeRef} (ht : ∀ x ∈ t.map Item.type, x.Literals InertText) (spaced : Bool) :
    Nested 0 (typeLayout t spaced) 0 := by
  unfold typeLayout
  split
  · exact .nil 0
  · have ht := TypeRef.nested_layout (ht _ rfl)
    split
    · exact ht.append (.text (by decide))
    · exact ht

theorem nested_modifiersLayout (ms : List Modifier) : Nested 0 (modifiersLayout ms) 0 := by
  induction ms with
  | nil => exact .nil 0
  | cons m ms ih =>
    have hm : InertText m.name := by cases m <;> decide
    exact ((Nested.text hm).append (.text (by decide))).append ih

section

variable {es : List Item} {o : Option Item}

theorem nested_entriesLayout (ih : ∀ e ∈ es, e.Literals InertText → Nested 0 e.layout 0)
    (hes : ∀ e ∈ es, e.Literals InertText) : Nested 0 (entriesLayout es) 0 := by
  induction es with
  | nil => exact .nil 0
  | cons e es ihes =>
    have he := ih e List.mem_cons_self (hes e List.mem_cons_self)
    have hes := ihes (fun x hx => ih x (List.mem_cons_of_mem _ hx)) fun x hx => hes x (List.mem_cons_of_mem _ hx)
    exact .line (he.append hes)

theorem nested_slotLayout (ih : ∀ x ∈ o, x.Literals InertText → Nested 0 x.layout 0)
    (ho : ∀ x ∈ o, x.Literals InertText) : Nested 0 (slotLayout o) 0 := by
  cases o with
  | none => exact .nil 0
  | some i => exact ih i rfl (ho i rfl)

theorem nested_contentLayout (ih : ∀ x ∈ o, x.Literals InertText → Nested 0 x.layout 0)
    (ho : ∀ x ∈ o, x.Literals InertText) : Nested 0 (contentLayout o) 0 := by
  cases o with
  | none => exact .nil 0
  | some i => exact (Nested.text (by decide)).append (ih i rfl (ho i rfl))

end

/-- **Layouts are nested**: a layout opens one bracket for every level, and closes it again. -/
theorem Item.nested_layout {i : Item} (hi : i.Literals InertText) : Nested 0 i.layout 0 := by
  induction i using Item.ind_body with
  | leaf h => exact h.nested_layout (hi.text (.inl rfl))
  | complex h es ih => exact (nested_entriesLayout ih (hi.entry rfl)).block
  | file h es name ih => exact (nested_entriesLayout ih (hi.entry rfl)).block
  | loop h i c p b ihi ihc ihp ihb =>
    have hinit := (nested_slotLayout ihi (hi.member "initialization" (by simp [members]))).deeper 1
    have hcond := (nested_slotLayout ihc (hi.member "condition" (by simp [members]))).deeper 1
    have hincr := (nested_slotLayout ihp (hi.member "incrementation" (by simp [members]))).deeper 1
    have hbody := nested_entriesLayout ihb (.body (hi.member "content" (by simp [members])))
    have hsep : Nested 1 (ofText "; ") 1 := .text (by decide)
    have hhead := ((((hinit.append hsep).append hcond).append hsep).append hincr).parentheses
    -- the parenthesis opens the level at which the slots stand, the brace the level of the body
    have hfor : ofText "for (" = ofText "for " ++ ofText "(" := rfl
    rw [layout, bodyLayout_eq, hfor]
    simpa using (Nested.text (a := 0) (by decide)).append (hhead.append (.line hbody.block))
  | bare h => exact TypeRef.nested_layout hi
  | applied h e ih => exact TypeRef.nested_layout hi
  | property h ms t n c iht ihn ihc =>
    have ht := nested_typeLayout (t := t) (hi.member "type" (by simp [members])) n.isSome
    have hn := nested_slotLayout ihn (hi.member "name" (by simp [members]))
    have hc := nested_contentLayout ihc (hi.member "content" (by simp [members]))
    have hblank : Nested 0 (if t.isSome || n.isSome then ofText " " else []) 0 := by
      split
      · exact .text (by decide)
      · exact .nil 0
    exact (((((nested_modifiersLayout ms).append (.text (by decide))).append hblank).append ht).append hn).append hc
  | parameter h t n iht ihn =>
    have ht := nested_typeLayout (t := t) (hi.member "type" (by simp [members])) n.isSome
    exact ht.append (nested_slotLayout ihn (hi.member "name" (by simp [members])))

/-! ## rendered brackets -/

section

variable {a b : Nat} {l : Layout} {unit : String}

theorem indentation_inert (hu : InertText unit) (n : Nat) : ∀ c ∈ (Writer.indentation unit n).toList, IsInert c :=
  fun c hc => hu c (mem_of_mem_indentation unit n hc)

/-- a line end has no brackets -/
theorem counts_line (hu : InertText unit) (n : Nat) : Counts a ('\n' :: (Writer.indentation unit n).toList) a := by
  apply Counts.of_weightless
  intro c hc
  rcases List.mem_cons.1 hc with rfl | hc
  · rfl
  · exact (indentation_inert hu n c hc).weight

theorem Nested.counts (hu : InertText unit) (hl : Nested a l b) : Counts a (render unit 0 l) b := by
  induction hl with
  | nil a => exact .of_weightless fun x hx => nomatch hx
  | inert hc _ ih => exact (Counts.bracket (by rw [hc.weight, Int.add_zero])).append ih
  | @opens a b l c hc _ ih => exact (Counts.bracket (add_weight_of_opening hc a)).append ih
  | @closes a b l _ ih => exact (Counts.bracket (add_weight_of_closing (.inl rfl) a)).append ih
  | @line a b l _ ih =>
    rw [render, Nat.zero_add]
    exact (counts_line hu a).append ih
  | @closingLine a b l _ ih =>
    have hbrace := Counts.bracket (add_weight_of_closing (.inr rfl) a)
    rw [render, render, Nat.zero_add]
    exact (counts_line hu a).append (hbrace.append ih)

end

/-! ## lines -/

/-- a line is indented by `depth`, or by one less if a closing brace follows -/
def IsIndented (unit : String) (depth : Int) (line : List Char) : Prop :=
  ∃ d r, line = (List.replicate d unit.toList).flatten ++ r ∧
    (d : Int) = depth - if r.head? = some '\x7d' then 1 else 0

/-- every line is indented by the brackets open before it, of which there are `depth` at the start -/
def AllIndented (unit : String) (depth : Int) : List (List Char) → Prop
  | [] => True
  | line :: lines => IsIndented unit depth line ∧ AllIndented unit (depth + nesting line) lines

theorem AllIndented.get {unit : String} {depth : Int} {lines : List (List Char)} (h : AllIndented unit depth lines)
    (k : Nat) (hk : k < lines.length) : IsIndented unit (depth + nesting (lines.take k).flatten) lines[k] := by
  induction lines generalizing depth k with
  | nil => cases hk
  | cons line lines ih =>
    cases k with
    | zero => simpa using h.1
    | succ k => simpa [Int.add_assoc] using ih h.2 k (Nat.lt_of_succ_lt_succ hk)

/-- the text that completes a line, and further lines that are indented -/
structure Lined (unit : String) (depth : Int) (text first : List Char) (more : List (List Char)) : Prop where
  split : text.splitOn '\n' = first :: more
  indented : AllIndented unit (depth + nesting first) more

namespace Lined

variable {unit : String} {depth : Int} {text first : List Char} {more : List (List Char)}

theorem char {c : Char} (hc : c ≠ '\n') (h : Lined unit (depth + weight c) text first more) :
    Lined unit depth (c :: text) (c :: first) more := by
  have hlf : '\n' ∉ [c] := by simpa using Ne.symm hc
  refine ⟨?_, ?_⟩
  · exact splitOn_append_of_not_mem hlf h.split
  · rw [nesting_cons, ← Int.add_assoc]
    exact h.indented

theorem line {n : Nat} (hu : InertText unit) (hn : (n : Int) = depth - if first.head? = some '\x7d' then 1 else 0)
    (h : Lined unit depth text first more) :
    Lined unit depth ('\n' :: ((Writer.indentation unit n).toList ++ text)) []
      (((Writer.indentation unit n).toList ++ first) :: more) := by
  have hind := indentation_inert hu n
  have hlf : '\n' ∉ (Writer.indentation unit n).toList := fun h => (hind _ h).1 rfl
  refine ⟨?_, ⟨n, first, ?_, ?_⟩, ?_⟩
  · rw [List.splitOn_cons_eq_if_modifyHead, splitOn_append_of_not_mem hlf h.split]
    rfl
  · rw [toList_indentation]
  · simpa using hn
  · simpa [nesting_eq_zero fun c hc => (hind c hc).weight] using h.indented

end Lined

theorem Nested.lined {unit : String} {a b : Nat} {l : Layout} (hu : InertText unit) (hl : Nested a l b) :
    ∃ first more, first.head? ≠ some '\x7d' ∧ Lined unit a (render unit 0 l) first more := by
  -- the first line never starts with a closing brace: only `closingLine` writes one, and it ends a line before
  induction hl with
  | nil a => exact ⟨[], [], by simp, rfl, trivial⟩
  | @inert a b l c hc _ ih =>
    obtain ⟨first, more, _, h⟩ := ih
    refine ⟨c :: first, more, by simpa using hc.2.2.2.2, .char hc.1 ?_⟩
    rwa [hc.weight, Int.add_zero]
  | @opens a b l c hc _ ih =>
    obtain ⟨first, more, _, h⟩ := ih
    have hne : c ≠ '\n' ∧ c ≠ '\x7d' := by rcases hc with rfl | rfl <;> decide
    refine ⟨c :: first, more, by simpa using hne.2, .char hne.1 ?_⟩
    rwa [add_weight_of_opening hc]
  | @closes a b l _ ih =>
    obtain ⟨first, more, _, h⟩ := ih
    refine ⟨')' :: first, more, by simp, .char (by decide) ?_⟩
    rwa [add_weight_of_closing (.inl rfl)]
  | @line a b l _ ih =>
    obtain ⟨first, more, hfirst, h⟩ := ih
    rw [render, Nat.zero_add]
    exact ⟨[], _, by simp, h.line hu (by simp [hfirst])⟩
  | @closingLine a b l _ ih =>
    obtain ⟨first, more, _, h⟩ := ih
    have hbrace : Lined unit (a + 1 : Nat) ('\x7d' :: render unit 0 l) ('\x7d' :: first) more := by
      refine .char (by decide) ?_
      rwa [add_weight_of_closing (.inr rfl)]
    rw [render, render, Nat.zero_add]
    exact ⟨[], _, by simp, hbrace.line hu (by simp)⟩

/-- **Indentation is nesting**: brackets of the text are balanced, and every line is indented by the number of brackets
open before it, one less if it starts with a closing brace. -/
theorem indentation_eq_nesting (i : Item) (c : EmitConfig) (hi : i.Inert) (hc : InertText c.indent) :
    let text := (i.toSource c).toList
    let lines := text.splitOn '\n'
    nesting text = 0 ∧ (∀ n, 0 ≤ nesting (text.take n)) ∧
      ∀ k (hk : k < lines.length), ∃ d r, lines[k] = (List.replicate d c.indent.toList).flatten ++ r ∧
        (d : Int) = nesting (lines.take k).flatten - if r.head? = some '\x7d' then 1 else 0 := by
  intro text lines
  have hlayout : Nested 0 (i.layout ++ if c.trailingNewline then [.line 0] else []) 0 := by
    refine (Item.nested_layout hi).append ?_
    split
    · exact .line (.nil 0)
    · exact .nil 0
  have htext : text = render c.indent 0 _ := i.toList_toSource c
  have hcounts : Counts 0 text 0 := htext ▸ hlayout.counts hc
  obtain ⟨first, more, hfirst, hlined⟩ := hlayout.lined hc
  have hall : AllIndented c.indent 0 lines := by
    show AllIndented c.indent 0 (text.splitOn '\n')
    rw [htext, hlined.split]
    exact ⟨⟨0, first, rfl, by simp [hfirst]⟩, hlined.indented⟩
  refine ⟨by simpa using hcounts.total, fun n => by simpa using hcounts.nonneg n, fun k hk => ?_⟩
  simpa [IsIndented] using hall.get k hk

/-- the entry of a block in the header of a loop stands below a parenthesis and a brace -/
theorem indentation_eq_nesting_header_block :
    let i : Item := .loop {} (some (.complex {} [.leaf { value := .string "x", parenthesized := true }])) none none none
    let c : EmitConfig := { indent := "  ", trailingNewline := true }
    let lines := (i.toSource c).toList.splitOn '\n'
    i.Inert ∧ InertText c.indent ∧ lines[1]? = some "    (x)".toList ∧
      ∃ d r, "    (x)".toList = (List.replicate d c.indent.toList).flatten ++ r ∧
        (d : Int) = nesting (lines.take 1).flatten - if r.head? = some '\x7d' then 1 else 0 :=
  ⟨by decide, by decide, by decide,
    (indentation_eq_nesting (.loop {} (some (.complex {} [.leaf { value := .string "x", parenthesized := true }]))
      none none none) { indent := "  ", trailingNewline := true } (by decide) (by decide)).2.2 1 (by decide)⟩

end ItemTree

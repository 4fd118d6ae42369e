import ItemTree.Proofs.Source.Layout

/-!
# The lines of source text

A layout is a first text and further lines, each with its depth and its text. An item is written line by line from
this list alone: unit and level of the indentation only decide what stands in front of the further lines.

* `Layout.first`, `Layout.lines`: the texts of a layout, which know nothing about units and levels;
* `Layout.render_eq`: the characters of a layout, line by line;
* `Item.lineFree_layout`: no line of an item is broken, unless a literal breaks it;
* `Layout.render_add`: deeper levels put more indentation after every line feed.
-/

namespace ItemTree

/-- text without line feeds -/
def OneLine (s : String) : Prop := '\n' ∉ s.toList

instance : DecidablePred OneLine := fun s => inferInstanceAs (Decidable (¬ '\n' ∈ s.toList))

theorem oneLine_indentation {unit : String} (hu : OneLine unit) (level : Nat) :
    OneLine (Writer.indentation unit level) :=
  fun hlf => hu (Layout.mem_of_mem_indentation unit level hlf)

theorem splitOn_append_of_not_mem {xs ys first : List Char} {more : List (List Char)} (hx : '\n' ∉ xs)
    (hy : ys.splitOn '\n' = first :: more) : (xs ++ ys).splitOn '\n' = (xs ++ first) :: more := by
  induction xs with
  | nil => exact hy
  | cons x xs ih =>
    obtain ⟨hne, hx⟩ := not_or.1 (mt List.mem_cons.2 hx)
    rw [List.cons_append, List.splitOn_cons_eq_if_modifyHead, ih hx]
    simp [Ne.symm hne]

namespace Layout

/-! ## first text and further lines -/

/-- the text up to the first line end -/
def first : Layout → String
  | [] => ""
  | .char c :: l => String.singleton c ++ first l
  | .line _ :: _ => ""

/-- depth and text of every further line -/
def lines : Layout → List (Nat × String)
  | [] => []
  | .char _ :: l => lines l
  | .line d :: l => (d, first l) :: lines l

/-- a further line: its indentation and its text -/
def lineText (unit : String) (level : Nat) (line : Nat × String) : String :=
  Writer.indentation unit (level + line.1) ++ line.2

variable (unit : String) (level : Nat)

theorem render_eq (l : Layout) :
    render unit level l = l.first.toList ++ l.lines.flatMap fun line => '\n' :: (lineText unit level line).toList := by
  induction l with
  | nil => rfl
  | cons m l ih =>
    cases m with
    | char c => simp [render, first, lines, ih]
    | line d => simp [render, first, lines, lineText, ih]

/-! ## layouts that break no line -/

/-- only line ends break a line, no character does -/
def LineFree (l : Layout) : Prop := Mark.char '\n' ∉ l

@[simp] theorem lineFree_nil : LineFree [] := List.not_mem_nil

@[simp] theorem lineFree_append (l m : Layout) : LineFree (l ++ m) ↔ LineFree l ∧ LineFree m := by
  simp [LineFree]

@[simp] theorem lineFree_char (c : Char) (l : Layout) : LineFree (.char c :: l) ↔ c ≠ '\n' ∧ LineFree l := by
  simp [LineFree, eq_comm]

@[simp] theorem lineFree_line (d : Nat) (l : Layout) : LineFree (.line d :: l) ↔ LineFree l := by
  simp [LineFree]

@[simp] theorem lineFree_deeper (k : Nat) (l : Layout) : LineFree (deeper k l) ↔ LineFree l := by
  induction l with
  | nil => rfl
  | cons m l ih =>
    unfold deeper at *
    cases m with
    | char c => simp [ih]
    | line d => simp [ih]

@[simp] theorem lineFree_ofText (s : String) : LineFree (ofText s) ↔ OneLine s := by
  simp [LineFree, ofText, OneLine]

variable {unit} {level} {l : Layout}

theorem oneLine_first (hl : LineFree l) : OneLine l.first := by
  induction l with
  | nil => decide
  | cons m l ih =>
    cases m with
    | char c =>
      obtain ⟨hc, hl⟩ := (lineFree_char c l).1 hl
      have hfirst := ih hl
      simpa [OneLine, first, Ne.symm hc] using hfirst
    | line d => exact List.not_mem_nil

theorem oneLine_of_mem_lines (hl : LineFree l) : ∀ line ∈ l.lines, OneLine line.2 := by
  induction l with
  | nil => exact fun line hline => nomatch hline
  | cons m l ih =>
    cases m with
    | char c => exact ih ((lineFree_char c l).1 hl).2
    | line d =>
      have hl := (lineFree_line d l).1 hl
      intro line hline
      rcases List.mem_cons.1 hline with rfl | hline
      · exact oneLine_first hl
      · exact ih hl line hline

/-- the lines of the rendered text are the lines of the layout -/
theorem splitOn_render (hu : OneLine unit) (hl : LineFree l) :
    (render unit level l).splitOn '\n' = l.first.toList :: l.lines.map fun line => (lineText unit level line).toList := by
  induction l with
  | nil => rfl
  | cons m l ih =>
    cases m with
    | char c =>
      obtain ⟨hc, hl⟩ := (lineFree_char c l).1 hl
      have hlf : '\n' ∉ [c] := by simpa using Ne.symm hc
      simpa [render, first, lines] using splitOn_append_of_not_mem hlf (ih hl)
    | line d =>
      have hl := (lineFree_line d l).1 hl
      have hind := splitOn_append_of_not_mem (oneLine_indentation hu (level + d)) (ih hl)
      rw [render, List.splitOn_cons_eq_if_modifyHead, hind]
      simp [first, lines, lineText]

/-! ## deeper levels -/

theorem indentation_add (j k : Nat) :
    Writer.indentation unit (j + k) = Writer.indentation unit j ++ Writer.indentation unit k := by
  induction k with
  | zero => rw [Nat.add_zero, Writer.indentation, String.append_empty]
  | succ k ih => rw [← Nat.add_assoc, Writer.indentation, ih, Writer.indentation, String.append_assoc]

/-- `k` more units after every line feed -/
def indentMore (unit : String) (k : Nat) (text : List Char) : List Char :=
  text.flatMap fun c => if c = '\n' then '\n' :: (Writer.indentation unit k).toList else [c]

theorem indentMore_of_oneLine {s : String} (hs : OneLine s) (k : Nat) : indentMore unit k s.toList = s.toList := by
  unfold OneLine at hs
  unfold indentMore
  generalize s.toList = cs at hs
  induction cs with
  | nil => rfl
  | cons c cs ih =>
    obtain ⟨hne, hcs⟩ := not_or.1 (mt List.mem_cons.2 hs)
    rw [List.flatMap_cons, ih hcs, if_neg (Ne.symm hne), List.singleton_append]

theorem render_add (hu : OneLine unit) (hl : LineFree l) (j k : Nat) :
    render unit (j + k) l = indentMore unit k (render unit j l) := by
  induction l with
  | nil => rfl
  | cons m l ih =>
    cases m with
    | char c =>
      obtain ⟨hc, hl⟩ := (lineFree_char c l).1 hl
      rw [render, render, ih hl]
      simp [indentMore, hc]
    | line d =>
      -- the units of the level below and the additional ones change places
      have hind : Writer.indentation unit (j + k + d) =
          Writer.indentation unit k ++ Writer.indentation unit (j + d) := by
        rw [← indentation_add]
        congr 1
        omega
      have hkeep : indentMore unit k _ = _ := indentMore_of_oneLine (oneLine_indentation hu (j + d)) k
      have hl := (lineFree_line d l).1 hl
      unfold indentMore at *
      rw [render, render, ih hl, hind]
      simp [hkeep]

end Layout

/-! ## layouts of items -/

open Layout

theorem Header.lineFree_layout {h : Header} (hh : OneLine h.text) : LineFree h.layout := by
  have hopen : OneLine "(" := by decide
  have hclose : OneLine ")" := by decide
  unfold Header.layout
  split
  · simp [hh, hopen, hclose]
  · simp [hh]

theorem TypeRef.lineFree_layout {t : TypeRef} (ht : (Item.type t).Literals OneLine) : LineFree t.layout := by
  induction t with
  | bare h => exact h.lineFree_layout (ht.text (.inr rfl))
  | applied h e ih =>
    have hh := h.lineFree_layout (ht.text (.inr rfl))
    have he := ih (ht.part _ List.mem_cons_self)
    have hopen : OneLine "<" := by decide
    have hclose : OneLine ">" := by decide
    simp [layout, hh, he, hopen, hclose]

theorem lineFree_typeLayout {t : Option TypeRef} (ht : ∀ x ∈ t.map Item.type, x.Literals OneLine) (spaced : Bool) :
    LineFree (typeLayout t spaced) := by
  have hblank : OneLine " " := by decide
  unfold typeLayout
  split
  · exact lineFree_nil
  · have ht := TypeRef.lineFree_layout (ht _ rfl)
    split
    · simp [ht, hblank]
    · exact ht

theorem lineFree_modifiersLayout (ms : List Modifier) : LineFree (modifiersLayout ms) := by
  induction ms with
  | nil => exact lineFree_nil
  | cons m ms ih =>
    have hm : OneLine m.name := by cases m <;> decide
    have hblank : OneLine " " := by decide
    simp [modifiersLayout, hm, hblank, ih]

theorem lineFree_entriesLayout {es : List Item} (hes : ∀ e ∈ es, LineFree e.layout) : LineFree (entriesLayout es) := by
  induction es with
  | nil => exact lineFree_nil
  | cons e es ih =>
    have he := hes e List.mem_cons_self
    have hrest := ih fun x hx => hes x (List.mem_cons_of_mem _ hx)
    simp [entriesLayout, he, hrest]

theorem lineFree_slotLayout {o : Option Item} (ho : ∀ x ∈ o, LineFree x.layout) : LineFree (slotLayout o) := by
  cases o with
  | none => exact lineFree_nil
  | some i => exact ho i rfl

theorem lineFree_contentLayout {o : Option Item} (ho : ∀ x ∈ o, LineFree x.layout) : LineFree (contentLayout o) := by
  have hcolon : OneLine ": " := by decide
  cases o with
  | none => exact lineFree_nil
  | some i => simp [contentLayout, hcolon, ho i rfl]

/-- **Only literals break lines**: a layout has no line feed besides its line ends, unless a literal has one. -/
theorem Item.lineFree_layout {i : Item} (hi : i.Literals OneLine) : LineFree i.layout := by
  have hopen : OneLine "\x7b" := by decide
  have hclose : OneLine "\x7d" := by decide
  induction i using Item.ind_body with
  | leaf h => exact h.lineFree_layout (hi.text (.inl rfl))
  | complex h es ih =>
    have hes := lineFree_entriesLayout fun e he => ih e he (hi.entry rfl e he)
    simp [layout, hes, hopen, hclose]
  | file h es name ih =>
    have hes := lineFree_entriesLayout fun e he => ih e he (hi.entry rfl e he)
    simp [layout, hes, hopen, hclose]
  | loop h i c p b ihi ihc ihp ihb =>
    have hinit := lineFree_slotLayout fun x hx => ihi x hx (hi.member "initialization" (by simp [members]) x hx)
    have hcond := lineFree_slotLayout fun x hx => ihc x hx (hi.member "condition" (by simp [members]) x hx)
    have hincr := lineFree_slotLayout fun x hx => ihp x hx (hi.member "incrementation" (by simp [members]) x hx)
    have hcontent : ∀ x ∈ b, x.Literals OneLine := hi.member "content" (by simp [members])
    have hbody := lineFree_entriesLayout fun x hx => ihb x hx (Literals.body hcontent x hx)
    have hfor : OneLine "for (" := by decide
    have hsep : OneLine "; " := by decide
    have hparen : OneLine ")" := by decide
    simp [layout, bodyLayout_eq, hinit, hcond, hincr, hbody, hfor, hsep, hparen, hopen, hclose]
  | bare h => exact TypeRef.lineFree_layout hi
  | applied h e ih => exact TypeRef.lineFree_layout hi
  | property h ms t n c iht ihn ihc =>
    have ht := lineFree_typeLayout (t := t) (hi.member "type" (by simp [members])) n.isSome
    have hn := lineFree_slotLayout fun x hx => ihn x hx (hi.member "name" (by simp [members]) x hx)
    have hc := lineFree_contentLayout fun x hx => ihc x hx (hi.member "content" (by simp [members]) x hx)
    have hkeyword : OneLine "property" := by decide
    have hblank : LineFree (if t.isSome || n.isSome then ofText " " else []) := by
      split
      · exact (lineFree_ofText " ").2 (by decide)
      · exact lineFree_nil
    rw [layout]
    simp only [lineFree_append, lineFree_ofText]
    exact ⟨⟨⟨⟨⟨lineFree_modifiersLayout ms, hkeyword⟩, hblank⟩, ht⟩, hn⟩, hc⟩
  | parameter h t n iht ihn =>
    have ht := lineFree_typeLayout (t := t) (hi.member "type" (by simp [members])) n.isSome
    have hn := lineFree_slotLayout fun x hx => ihn x hx (hi.member "name" (by simp [members]) x hx)
    simp [layout, ht, hn]

/-! ## text and layout of an emission -/

/-- what an emission appends, line by line -/
theorem Item.emit_eq_write (i : Item) (level : Nat) (w : Writer) :
    i.emit level w = w.write (String.ofList (render w.unit level i.layout)) := by
  rw [i.emits_layout]
  rfl

/-- **Emission separates text from layout.** An item has a first text and further lines with depths of their own.
After any text, with any unit and at any level, its emission appends the first text, and for every line a line feed,
the indentation of the level and the depth, and the text of the line. If no literal has a line feed, then neither has
any of these texts; so with such a unit the lines of the emission are exactly the given ones, and `k` levels deeper it
is the same text with `k` more units after every line feed. -/
theorem emission_separates_layout (i : Item) :
    (∀ (level : Nat) (w : Writer), i.emit level w =
      { w with
        output := w.output ++ i.layout.first ++
          String.join (i.layout.lines.map fun line => "\n" ++ lineText w.unit level line) }) ∧
    (i.Literals OneLine → OneLine i.layout.first ∧ ∀ line ∈ i.layout.lines, OneLine line.2) ∧
    (i.Literals OneLine → ∀ (level : Nat) (w : Writer), OneLine w.unit → ∃ text : String,
      i.emit level w = w.write text ∧
      text.toList.splitOn '\n' =
        i.layout.first.toList :: i.layout.lines.map (fun line => (lineText w.unit level line).toList) ∧
      ∀ k, i.emit (level + k) w = w.write (String.ofList (indentMore w.unit k text.toList))) := by
  refine ⟨fun level w => ?_, fun hi => ?_, fun hi level w hu => ?_⟩
  · have hout : String.ofList (render w.unit level i.layout) = i.layout.first ++
        String.join (i.layout.lines.map fun line => "\n" ++ lineText w.unit level line) := by
      apply String.toList_inj.1
      simp [render_eq, String.toList_join, List.flatMap_map]
    rw [i.emit_eq_write, hout, Writer.write, String.append_assoc]
  · have hfree := Item.lineFree_layout hi
    exact ⟨oneLine_first hfree, oneLine_of_mem_lines hfree⟩
  · have hfree := Item.lineFree_layout hi
    refine ⟨String.ofList (render w.unit level i.layout), i.emit_eq_write level w, ?_, fun k => ?_⟩
    · rw [String.toList_ofList]
      exact splitOn_render hu hfree
    · rw [i.emit_eq_write, String.toList_ofList, render_add hu hfree]

/-- a loop over a block, after some text and with a tab as unit -/
theorem emission_separates_layout_loop :
    let i : Item := .loop {} none (some (.leaf { value := .string "go" })) none
      (some (.complex {} [.leaf { value := .string "x", parenthesized := true }]))
    let w : Writer := { output := "a: ", unit := "\t" }
    i.Literals OneLine ∧ OneLine w.unit ∧ i.layout.first = "for (; go; )" ∧
      i.layout.lines = [(0, "\x7b"), (1, "(x)"), (0, "\x7d")] ∧
      (∀ line ∈ i.layout.lines, OneLine line.2) ∧
      ∃ text : String, i.emit 0 w = w.write text ∧
        text.toList.splitOn '\n' =
          i.layout.first.toList :: i.layout.lines.map (fun line => (lineText w.unit 0 line).toList) ∧
        ∀ k, i.emit (0 + k) w = w.write (String.ofList (indentMore w.unit k text.toList)) := by
  intro i w
  have hi : i.Literals OneLine := by decide
  have hu : OneLine w.unit := by decide
  obtain ⟨-, htexts, hlevels⟩ := emission_separates_layout i
  exact ⟨hi, hu, by decide, by decide, (htexts hi).2, hlevels hi 0 w hu⟩

end ItemTree

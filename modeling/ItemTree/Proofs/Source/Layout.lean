import ItemTree.Proofs.Item.Induction
import ItemTree.Source.Emit

/-!
# The layout of source text

A `Layout` is what an item writes, with line ends that only know how much deeper the next line is. It depends on
the item alone: the unit of indentation, the level and the text written before come in when it is rendered.

* `Layout.render`: the characters of a layout for a unit and a level;
* `Item.layout`: the layout of an item;
* `Item.emits_layout`: emission of an item at a level appends its rendered layout.
-/

namespace ItemTree

/-- a character, or the end of a line with the depth of the next one -/
inductive Mark where
  | char (c : Char)
  | line (depth : Nat)
  deriving DecidableEq, Repr

abbrev Layout := List Mark

namespace Layout

/-- text as it is -/
def ofText (s : String) : Layout := s.toList.map .char

/-- all further lines `k` levels deeper -/
def deeper (k : Nat) (l : Layout) : Layout :=
  l.map fun m => match m with
    | .char c => .char c
    | .line d => .line (k + d)

/-- characters of a layout that begins at a level -/
def render (unit : String) (level : Nat) : Layout → List Char
  | [] => []
  | .char c :: l => c :: render unit level l
  | .line d :: l => '\n' :: ((Writer.indentation unit (level + d)).toList ++ render unit level l)

variable (unit : String) (level : Nat)

theorem toList_indentation : (Writer.indentation unit level).toList = (List.replicate level unit.toList).flatten := by
  induction level with
  | zero => rfl
  | succ level ih => rw [Writer.indentation, String.toList_append, ih, List.replicate_succ', List.flatten_concat]

theorem mem_of_mem_indentation {c : Char} (hc : c ∈ (Writer.indentation unit level).toList) : c ∈ unit.toList := by
  rw [toList_indentation] at hc
  obtain ⟨u, hu, hc⟩ := List.mem_flatten.1 hc
  rwa [List.eq_of_mem_replicate hu] at hc

theorem render_append (l m : Layout) : render unit level (l ++ m) = render unit level l ++ render unit level m := by
  induction l with
  | nil => rfl
  | cons x l ih =>
    cases x with
    | char c => simp [render, ih]
    | line d => simp [render, ih]

theorem render_ofText (s : String) : render unit level (ofText s) = s.toList := by
  unfold ofText
  induction s.toList with
  | nil => rfl
  | cons c cs ih => rw [List.map_cons, render, ih]

theorem render_deeper (k : Nat) (l : Layout) : render unit level (deeper k l) = render unit (level + k) l := by
  induction l with
  | nil => rfl
  | cons x l ih =>
    unfold deeper at *
    cases x with
    | char c => simp [render, ih]
    | line d => simp [render, ih, Nat.add_assoc]

end Layout

/-! ## layouts of items -/

open Layout

/-- literal, in parentheses if flagged -/
def Header.layout (h : Header) : Layout :=
  if h.parenthesized then ofText "(" ++ ofText h.text ++ ofText ")" else ofText h.text

def TypeRef.layout : TypeRef → Layout
  | bare h => h.layout
  | applied h e => h.layout ++ ofText "<" ++ e.layout ++ ofText ">"

/-- a type, and a blank if a name follows -/
def typeLayout (t : Option TypeRef) (spaced : Bool) : Layout :=
  match t with
  | none => []
  | some t => if spaced then t.layout ++ ofText " " else t.layout

def modifiersLayout : List Modifier → Layout
  | [] => []
  | m :: ms => ofText m.name ++ ofText " " ++ modifiersLayout ms

mutual
/-- what an item writes -/
def Item.layout : Item → Layout
  | .leaf h => h.layout
  | .complex _ es => ofText "\x7b" ++ deeper 1 (entriesLayout es) ++ .line 0 :: ofText "\x7d"
  | .file _ es _ => ofText "\x7b" ++ deeper 1 (entriesLayout es) ++ .line 0 :: ofText "\x7d"
  | .loop _ i c p b =>
    ofText "for (" ++ deeper 1 (slotLayout i) ++ ofText "; " ++ deeper 1 (slotLayout c) ++ ofText "; " ++
      deeper 1 (slotLayout p) ++ ofText ")" ++ .line 0 :: ofText "\x7b" ++ deeper 1 (bodyLayout b) ++
      .line 0 :: ofText "\x7d"
  | .type t => t.layout
  | .property _ ms t n c =>
    modifiersLayout ms ++ ofText "property" ++ (if t.isSome || n.isSome then ofText " " else []) ++
      typeLayout t n.isSome ++ slotLayout n ++ contentLayout c
  | .parameter _ t n => typeLayout t n.isSome ++ slotLayout n
/-- every entry on a line of its own -/
def entriesLayout : List Item → Layout
  | [] => []
  | i :: is => .line 0 :: (i.layout ++ entriesLayout is)
def slotLayout : Option Item → Layout
  | none => []
  | some i => i.layout
/-- the item after a colon, if any -/
def contentLayout : Option Item → Layout
  | none => []
  | some i => ofText ": " ++ i.layout
/-- lines of a loop body -/
def bodyLayout : Option Item → Layout
  | none => []
  | some (.complex _ es) => entriesLayout es
  | some (.file _ es _) => entriesLayout es
  | some i => .line 0 :: i.layout
end

/-! ## bodies of loops -/

/-- the entries of a loop body: those of a container, or the one item -/
def bodyEntries : Option Item → List Item
  | none => []
  | some (.complex _ es) => es
  | some (.file _ es _) => es
  | some i => [i]

theorem bodyLayout_eq (b : Option Item) : bodyLayout b = entriesLayout (bodyEntries b) := by
  unfold bodyLayout bodyEntries
  split <;> simp [entriesLayout]

theorem emitBody_eq (b : Option Item) (level : Nat) (w : Writer) :
    emitBody b level w = emitEntries (bodyEntries b) level w := by
  unfold emitBody bodyEntries
  split <;> simp [emitEntries]

/-- induction over an item, with hypotheses for the entries of a loop body -/
@[elab_as_elim]
theorem Item.ind_body {P : Item → Prop} (leaf : ∀ h, P (.leaf h))
    (complex : ∀ h es, (∀ e ∈ es, P e) → P (.complex h es))
    (file : ∀ h es name, (∀ e ∈ es, P e) → P (.file h es name))
    (loop : ∀ h i c p b, (∀ x ∈ i, P x) → (∀ x ∈ c, P x) → (∀ x ∈ p, P x) → (∀ x ∈ bodyEntries b, P x) →
      P (.loop h i c p b))
    (bare : ∀ h, P (.type (.bare h)))
    (applied : ∀ h e, P (.type e) → P (.type (.applied h e)))
    (property : ∀ h ms t n c, (∀ x ∈ t.map Item.type, P x) → (∀ x ∈ n, P x) → (∀ x ∈ c, P x) →
      P (.property h ms t n c))
    (parameter : ∀ h t n, (∀ x ∈ t.map Item.type, P x) → (∀ x ∈ n, P x) → P (.parameter h t n))
    (i : Item) : P i := by
  -- a container carries the hypothesis for its entries along, for the loop of which it may be the body
  suffices h : P i ∧ ∀ x ∈ bodyEntries (some i), P x from h.1
  have single : ∀ i, bodyEntries (some i) = [i] → P i → P i ∧ ∀ x ∈ bodyEntries (some i), P x := by
    intro i hb hi
    refine ⟨hi, fun x hx => ?_⟩
    rw [hb, List.mem_singleton] at hx
    rwa [hx]
  induction i using Item.ind with
  | leaf h => exact single _ rfl (leaf h)
  | complex h es ih => exact ⟨complex h es fun e he => (ih e he).1, fun e he => (ih e he).1⟩
  | file h es name ih => exact ⟨file h es name fun e he => (ih e he).1, fun e he => (ih e he).1⟩
  | loop h i c p b hi hc hp hb =>
    have hbody : ∀ x ∈ bodyEntries b, P x := by
      cases b with
      | none => exact fun x hx => nomatch hx
      | some b => exact (hb b rfl).2
    exact single _ rfl (loop h i c p b (fun x hx => (hi x hx).1) (fun x hx => (hc x hx).1)
      (fun x hx => (hp x hx).1) hbody)
  | bare h => exact single _ rfl (bare h)
  | applied h e ih => exact single _ rfl (applied h e ih.1)
  | property h ms t n c ht hn hc =>
    exact single _ rfl (property h ms t n c (fun x hx => (ht x hx).1) (fun x hx => (hn x hx).1)
      (fun x hx => (hc x hx).1))
  | parameter h t n ht hn =>
    exact single _ rfl (parameter h t n (fun x hx => (ht x hx).1) (fun x hx => (hn x hx).1))

theorem Item.Every.body {Q : Item → Prop} {o : Option Item} (ho : ∀ x ∈ o, x.Every Q) :
    ∀ x ∈ bodyEntries o, x.Every Q := by
  unfold bodyEntries
  split
  · exact fun x hx => nomatch hx
  · exact (ho _ rfl).entry rfl
  · exact (ho _ rfl).entry rfl
  · intro x hx
    rw [List.mem_singleton.1 hx]
    exact ho _ rfl

theorem Item.Literals.body {Q : String → Prop} {o : Option Item} (ho : ∀ x ∈ o, x.Literals Q) :
    ∀ x ∈ bodyEntries o, x.Literals Q :=
  Every.body ho

/-! ## emission -/

namespace Writer

/-- a layout at a level after the text written so far -/
def put (w : Writer) (level : Nat) (l : Layout) : Writer :=
  { w with output := w.output ++ String.ofList (render w.unit level l) }

variable (w : Writer) (level : Nat)

@[simp] theorem put_nil : w.put level [] = w := by
  unfold put
  rw [render, String.ofList_nil, String.append_empty]

@[simp] theorem put_append (l m : Layout) : w.put level (l ++ m) = (w.put level l).put level m := by
  unfold put
  rw [render_append, String.ofList_append, String.append_assoc]

@[simp] theorem put_ofText (s : String) : w.put level (ofText s) = w.write s := by
  unfold put
  rw [render_ofText, String.ofList_toList]
  rfl

@[simp] theorem put_deeper (k : Nat) (l : Layout) : w.put level (deeper k l) = w.put (level + k) l := by
  unfold put
  rw [render_deeper]

/-- the end of a line is a line feed and the indentation of the next line -/
@[simp] theorem put_line (d : Nat) (l : Layout) :
    w.put level (.line d :: l) = (w.newline.writeAt (level + d) "").put level l := by
  have hout : w.output ++ String.ofList (render w.unit level (.line d :: l)) =
      w.output ++ "\n" ++ indentation w.unit (level + d) ++ "" ++ String.ofList (render w.unit level l) := by
    apply String.toList_inj.1
    simp [render]
  unfold put
  rw [hout]
  rfl

theorem writeAt_eq (s : String) : w.writeAt level s = (w.writeAt level "").write s := by
  unfold writeAt write
  rw [String.append_empty]

end Writer

/-- emission of an item appends its layout, at every level and after every text -/
def Item.EmitsLayout (i : Item) : Prop := ∀ level w, i.emit level w = w.put level i.layout

section

variable (level : Nat) (w : Writer) {es : List Item} {o : Option Item}

theorem Header.emit_eq_put (h : Header) : h.emit w = w.put level h.layout := by
  unfold Header.emit Header.layout
  split <;> simp

theorem TypeRef.emit_eq_put (t : TypeRef) : t.emit w = w.put level t.layout := by
  induction t generalizing w with
  | bare h => exact h.emit_eq_put level w
  | applied h e ih => simp [emit, layout, h.emit_eq_put level, ih]

theorem emitType_eq_put (t : Option TypeRef) (spaced : Bool) :
    emitType t spaced w = w.put level (typeLayout t spaced) := by
  cases t with
  | none => simp [emitType, typeLayout]
  | some t => cases spaced <;> simp [emitType, typeLayout, t.emit_eq_put level]

theorem emitModifiers_eq_put (ms : List Modifier) : emitModifiers ms w = w.put level (modifiersLayout ms) := by
  induction ms generalizing w with
  | nil => simp [emitModifiers, modifiersLayout]
  | cons m ms ih => simp [emitModifiers, modifiersLayout, ih]

theorem emitEntries_eq_put (ih : ∀ e ∈ es, e.EmitsLayout) :
    emitEntries es level w.newline = (w.put level (entriesLayout es)).newline := by
  induction es generalizing w with
  | nil => simp [emitEntries, entriesLayout]
  | cons e es hes =>
    have he := ih e List.mem_cons_self
    have hes := fun w => hes w fun x hx => ih x (List.mem_cons_of_mem _ hx)
    simp [emitEntries, entriesLayout, he level, hes]

theorem emitBlock_eq_put (ih : ∀ e ∈ es, e.EmitsLayout) :
    (emitEntries es (level + 1) (w.write "\x7b").newline).writeAt level "\x7d" =
      w.put level (ofText "\x7b" ++ deeper 1 (entriesLayout es) ++ .line 0 :: ofText "\x7d") := by
  rw [emitEntries_eq_put _ _ ih, Writer.writeAt_eq]
  simp

theorem emitSlot_eq_put (ih : ∀ x ∈ o, x.EmitsLayout) : emitSlot o level w = w.put level (slotLayout o) := by
  cases o with
  | none => simp [emitSlot, slotLayout]
  | some i => simp [emitSlot, slotLayout, ih i rfl level]

theorem emitContent_eq_put (ih : ∀ x ∈ o, x.EmitsLayout) :
    emitContent o level w = w.put level (contentLayout o) := by
  cases o with
  | none => simp [emitContent, contentLayout]
  | some i => simp [emitContent, contentLayout, ih i rfl level]

end

/-- **Emission is layout**: emitted at a level, an item appends its layout rendered there. -/
theorem Item.emits_layout (i : Item) : i.EmitsLayout := by
  induction i using Item.ind_body with intro level w
  | leaf h => rw [emit, layout, h.emit_eq_put level]
  | complex h es ih => rw [emit, layout, emitBlock_eq_put level w ih]
  | file h es name ih => rw [emit, layout, emitBlock_eq_put level w ih]
  | loop h i c p b hi hc hp hb =>
    rw [emit, layout, bodyLayout_eq]
    simp only [emitBody_eq, emitSlot_eq_put _ _ hi, emitSlot_eq_put _ _ hc, emitSlot_eq_put _ _ hp, Writer.lineAt,
      emitEntries_eq_put _ _ hb]
    rw [Writer.writeAt_eq, Writer.writeAt_eq _ _ "\x7b"]
    simp
  | bare h => rw [emit, layout, TypeRef.emit_eq_put level]
  | applied h e ih => rw [emit, layout, TypeRef.emit_eq_put level]
  | property h ms t n c ht hn hc =>
    rw [emit, layout, emitContent_eq_put _ _ hc, emitSlot_eq_put _ _ hn, emitType_eq_put level,
      emitModifiers_eq_put level]
    split <;> simp
  | parameter h t n ht hn =>
    rw [emit, layout, emitSlot_eq_put _ _ hn, emitType_eq_put level, Writer.put_append]

/-- source text is the layout at level 0, and a last line end if configured -/
theorem Item.toList_toSource (i : Item) (c : EmitConfig) :
    (i.toSource c).toList = render c.indent 0 (i.layout ++ if c.trailingNewline then [.line 0] else []) := by
  have hput : (i.emit 0 c.writer).output = String.ofList (render c.indent 0 i.layout) := by
    rw [i.emits_layout]
    exact String.empty_append
  unfold Item.toSource
  rw [render_append]
  split
  · simp [Writer.newline, Writer.write, hput, render, Writer.indentation]
  · simp [hput, render]

end ItemTree

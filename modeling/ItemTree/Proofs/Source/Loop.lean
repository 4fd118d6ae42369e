import ItemTree.Proofs.Source.Lines

/-!
# A loop is a header line and a block

A loop writes its own braces, and a container writes its own. The two agree: after the header line and the indentation
of the level, a loop writes what a block with the entries of its body writes.

* `Item.written`, `Container.written`: the text of an item and of the block of a container, apart from any writer;
* `loopBody`: the container that the content of a loop stands for;
* `emit_loop`: a loop hands over to the block of its body.
-/

namespace ItemTree

/-! ## texts apart from writers -/

namespace Writer

variable (w : Writer) (s t : String)

theorem write_write : (w.write s).write t = w.write (s ++ t) := by
  simp [write, String.append_assoc]

@[simp] theorem unit_write : (w.write s).unit = w.unit := rfl

theorem output_write : (w.write s).output = w.output ++ s := rfl

end Writer

/-- what an item writes at a level, with this unit of indentation -/
def Item.written (unit : String) (level : Nat) (i : Item) : String := (i.emit level { unit := unit }).output

/-- what the block of a container writes -/
def Container.written (unit : String) (level : Nat) (c : Container) : String :=
  (c.emitBlock level { unit := unit }).output

/-- the text of a slot, none if it is not set -/
def slotText (unit : String) (level : Nat) : Option Item → String
  | none => ""
  | some i => i.written unit level

theorem Item.emit_eq_written (i : Item) (level : Nat) (w : Writer) :
    i.emit level w = w.write (i.written w.unit level) := by
  unfold Item.written
  rw [i.emit_eq_write level w, i.emit_eq_write level { unit := w.unit }, Writer.output_write, String.empty_append]

theorem Container.emitBlock_eq_written (c : Container) (level : Nat) (w : Writer) :
    c.emitBlock level w = w.write (c.written w.unit level) := by
  have hblock : ∀ w, c.toItem.emit level w = c.emitBlock level w := by
    intro w
    rw [toItem, Item.emit]
    rfl
  have hitem := c.toItem.emit_eq_written level w
  unfold Item.written at hitem
  rwa [hblock, hblock] at hitem

theorem emitSlot_eq_slotText (o : Option Item) (level : Nat) (w : Writer) :
    emitSlot o level w = w.write (slotText w.unit level o) := by
  cases o with
  | none => simp [emitSlot, slotText, Writer.write]
  | some i => rw [emitSlot, slotText, i.emit_eq_written]

/-! ## loops -/

/-- the header line of a loop, whose slots stand one level deeper -/
def loopHead (unit : String) (level : Nat) (i c p : Option Item) : String :=
  "for (" ++ slotText unit (level + 1) i ++ "; " ++ slotText unit (level + 1) c ++ "; " ++
    slotText unit (level + 1) p ++ ")"

/-- the body of a loop as a container: the entries of a block or file, but not of what is in them, or the one item -/
def loopBody (header : Header) : Option Item → Container
  | none => ⟨header, []⟩
  | some i => ⟨header, i.contents?.getD [i]⟩

theorem loopBody_eq (header : Header) (b : Option Item) : loopBody header b = ⟨header, bodyEntries b⟩ := by
  cases b with
  | none => rfl
  | some i => cases i <;> rfl

/-- a loop hands over to the block of its body -/
theorem emit_loop (h hb : Header) (i c p b : Option Item) (level : Nat) (w : Writer) :
    (Item.loop h i c p b).emit level w =
      (loopBody hb b).emitBlock level ((w.write (loopHead w.unit level i c p)).newline.writeAt level "") := by
  have hhead : (emitSlot p (level + 1) ((emitSlot c (level + 1) ((emitSlot i (level + 1) (w.write "for (")).write
      "; ")).write "; ")).write ")" = w.write (loopHead w.unit level i c p) := by
    simp only [emitSlot_eq_slotText, Writer.write_write, Writer.unit_write, loopHead]
  rw [Item.emit, loopBody_eq, emitBody_eq, hhead, Writer.lineAt, Writer.writeAt_eq _ _ "\x7b"]
  rfl

/-- **The body of a loop prints as a block.** A loop writes its header line, a line feed, the indentation of its level,
and then what the block of its body writes there. So one statement as the content of a loop, and a block or file that
holds just this statement, give the same text. -/
theorem loop_body_is_block (h : Header) (i c p b : Option Item) :
    (∀ (hb : Header) (level : Nat) (w : Writer), (Item.loop h i c p b).emit level w =
      w.write (loopHead w.unit level i c p ++ "\n" ++ Writer.indentation w.unit level ++
        (loopBody hb b).written w.unit level)) ∧
    ∀ (h' : Header) (s block : Item), s.contents? = none → block.contents? = some [s] →
      (∀ config, (Item.loop h i c p (some s)).toSource config = (Item.loop h' i c p (some block)).toSource config) ∧
      ∀ level w, (Item.loop h i c p (some s)).emit level w = (Item.loop h' i c p (some block)).emit level w := by
  refine ⟨fun hb level w => ?_, fun h' s block hs hblock => ?_⟩
  · rw [emit_loop h hb, Container.emitBlock_eq_written, Writer.newline, Writer.writeAt]
    simp only [Writer.write_write, Writer.unit_write, String.append_empty]
  · have hbody : loopBody {} (some s) = loopBody {} (some block) := by
      rw [loopBody, loopBody, hs, hblock]
      rfl
    have hemit : ∀ level w,
        (Item.loop h i c p (some s)).emit level w = (Item.loop h' i c p (some block)).emit level w := by
      intro level w
      rw [emit_loop h {}, emit_loop h' {}, hbody]
    refine ⟨fun config => ?_, hemit⟩
    unfold Item.toSource
    rw [hemit]

/-- a loop over one statement, and over a file that holds it, at a level and after some text -/
theorem loop_body_is_block_file :
    let s : Item := .loop {} none none none (some (.leaf { value := .string "x" }))
    let block : Item := .file {} [s] "main"
    let w : Writer := { output := "a ", unit := "\t" }
    s.contents? = none ∧ block.contents? = some [s] ∧
      (Item.loop {} none (some s) none (some block)).emit 1 w =
        (Item.loop {} none (some s) none (some s)).emit 1 w := by
  intro s block w
  have hs : s.contents? = none := rfl
  have hblock : block.contents? = some [s] := rfl
  exact ⟨hs, hblock, (((loop_body_is_block {} none (some s) none none).2 {} s block hs hblock).2 1 w).symm⟩

end ItemTree

import ItemTree.Item.Container
import Mathlib.Data.List.Perm.Basic

/-!
# Entries of a container are never lost

Edits move entries into a container and out of it. What an edit can do to the entries is one of four things
(`Shifts`): nothing, one entry comes in at a place, one goes out, all go out. From this follows what a run of edits
does (`Balanced`): the entries that stay are in one order before and after, and all others are accounted for.

* `Container.edit`, `Container.edits`: one edit, and edits in a row;
* `Container.added`, `Container.out`: the entries that came in and went out in a run;
* `Balanced`: the account of the entries over a stretch of edits.
-/

namespace ItemTree

/-! ## edits -/

/-- an operation on the entries of a container -/
inductive Edit where
  | push (i : Item)
  | pushOptional (o : Option Item)
  | insert (index : Nat) (i : Item)
  | remove (index : Nat)
  | take
  | clear

/-- what an edit gives back -/
inductive Edit.Result where
  | done
  | removed (entry : Item)
  | taken (entries : List Item)
  | failed (error : TreeError)

/-- the entries that an edit brings in -/
def Edit.added : Edit → Edit.Result → List Item
  | .push i, _ => [i]
  | .pushOptional o, _ => o.toList
  | .insert _ i, .done => [i]
  | _, _ => []

/-- the entries that an edit hands out or drops -/
def Edit.out (contents : List Item) : Edit → Edit.Result → List Item
  | _, .removed i => [i]
  | _, .taken is => is
  | .clear, _ => contents
  | _, _ => []

namespace Container

/-- the container after an edit, which is the same one if the edit fails -/
def edit (c : Container) : Edit → Container × Edit.Result
  | .push i => (c.push i, .done)
  | .pushOptional o => (c.pushOptional o, .done)
  | .insert index i =>
    match c.insert index i with
    | .error e => (c, .failed e)
    | .ok c => (c, .done)
  | .remove index =>
    match c.remove index with
    | .error e => (c, .failed e)
    | .ok (i, c) => (c, .removed i)
  | .take => (c.takeContents.2, .taken c.takeContents.1)
  | .clear => (c.clear, .done)

/-- edits in a row -/
def edits (c : Container) : List Edit → Container
  | [] => c
  | e :: es => (c.edit e).1.edits es

/-- all entries that came in -/
def added (c : Container) : List Edit → List Item
  | [] => []
  | e :: es => e.added (c.edit e).2 ++ (c.edit e).1.added es

/-- all entries that were handed out or dropped -/
def out (c : Container) : List Edit → List Item
  | [] => []
  | e :: es => e.out c.contents (c.edit e).2 ++ (c.edit e).1.out es

theorem edits_append (c : Container) (es fs : List Edit) : c.edits (es ++ fs) = (c.edits es).edits fs := by
  induction es generalizing c with
  | nil => rfl
  | cons e es ih => exact ih (c.edit e).1

/-! ## indices -/

theorem take_append_cons_drop {l : List Item} {index : Nat} (h : index ≤ l.length) (i : Item) :
    l.take index ++ i :: l.drop index = l.insertIdx index i := by
  induction index generalizing l with
  | zero => rfl
  | succ index ih =>
    obtain ⟨x, l, rfl⟩ : ∃ x m, l = x :: m := List.exists_cons_of_length_pos (Nat.lt_of_lt_of_le (Nat.succ_pos _) h)
    rw [List.take_succ_cons, List.drop_succ_cons, List.insertIdx_succ_cons, List.cons_append,
      ih (Nat.le_of_succ_le_succ h)]

section

variable {c : Container} {index : Nat}

theorem insert_of_lt (h : c.length < index) (i : Item) :
    c.insert index i = .error (.indexOutOfBounds index c.length) := by
  rw [insert, if_pos h]

theorem insert_of_le (h : index ≤ c.length) (i : Item) :
    c.insert index i = .ok { c with contents := c.contents.insertIdx index i } := by
  rw [insert, if_neg (Nat.not_lt.2 h), take_append_cons_drop h]

theorem remove_of_le (h : c.length ≤ index) : c.remove index = .error (.indexOutOfBounds index c.length) := by
  rw [remove, List.drop_of_length_le h]

theorem remove_of_lt (h : index < c.contents.length) :
    c.remove index = .ok (c.contents[index], { c with contents := c.contents.eraseIdx index }) := by
  rw [remove, List.drop_eq_getElem_cons h, List.eraseIdx_eq_take_drop_succ]

end

theorem edit_insert_of_le {c : Container} {index : Nat} (h : index ≤ c.length) (i : Item) :
    c.edit (.insert index i) = ({ c with contents := c.contents.insertIdx index i }, .done) := by
  rw [edit, insert_of_le h]

theorem edit_remove_of_lt {c : Container} {index : Nat} (h : index < c.contents.length) :
    c.edit (.remove index) = ({ c with contents := c.contents.eraseIdx index }, .removed c.contents[index]) := by
  rw [edit, remove_of_lt h]

/-- only indices can fail: past the end for an insertion, from the end on for a removal -/
theorem edit_eq_failed_iff {c : Container} {e : Edit} {error : TreeError} :
    (c.edit e).2 = .failed error ↔
      (∃ index i, e = .insert index i ∧ c.length < index ∧ error = .indexOutOfBounds index c.length) ∨
        ∃ index, e = .remove index ∧ c.length ≤ index ∧ error = .indexOutOfBounds index c.length := by
  constructor
  · intro h
    cases e with
    | push i => cases h
    | pushOptional o => cases h
    | insert index i =>
      by_cases hlt : c.length < index
      · rw [edit, insert_of_lt hlt] at h
        cases h
        exact .inl ⟨index, i, rfl, hlt, rfl⟩
      · rw [edit_insert_of_le (Nat.not_lt.1 hlt)] at h
        cases h
    | remove index =>
      by_cases hle : c.length ≤ index
      · rw [edit, remove_of_le hle] at h
        cases h
        exact .inr ⟨index, rfl, hle, rfl⟩
      · rw [edit_remove_of_lt (Nat.not_le.1 hle)] at h
        cases h
    | take => cases h
    | clear => cases h
  · rintro (⟨index, i, rfl, hlt, rfl⟩ | ⟨index, rfl, hle, rfl⟩)
    · rw [edit, insert_of_lt hlt]
    · rw [edit, remove_of_le hle]

theorem edit_of_failed {c : Container} {e : Edit} {error : TreeError} (h : (c.edit e).2 = .failed error) :
    (c.edit e).1 = c := by
  rcases edit_eq_failed_iff.1 h with ⟨index, i, rfl, hlt, -⟩ | ⟨index, rfl, hle, -⟩
  · rw [edit, insert_of_lt hlt]
  · rw [edit, remove_of_le hle]

end Container

/-! ## what an edit does to the entries -/

/-- entries before an edit, those that come in, those that go out, entries after it -/
inductive Shifts : List Item → List Item → List Item → List Item → Prop
  | stay (l : List Item) : Shifts l [] [] l
  | enter (l r : List Item) (i : Item) : Shifts (l ++ r) [i] [] (l ++ i :: r)
  | leave (l r : List Item) (i : Item) : Shifts (l ++ i :: r) [] [i] (l ++ r)
  | empty (l : List Item) : Shifts l [] l []

theorem Shifts.push (l : List Item) (i : Item) : Shifts l [i] [] (l ++ [i]) := by
  simpa using Shifts.enter l [] i

theorem Shifts.insertIdx {l : List Item} {index : Nat} (h : index ≤ l.length) (i : Item) :
    Shifts l [i] [] (l.insertIdx index i) := by
  have hs := Shifts.enter (l.take index) (l.drop index) i
  rwa [List.take_append_drop, Container.take_append_cons_drop h] at hs

theorem Shifts.eraseIdx {l : List Item} {index : Nat} (h : index < l.length) :
    Shifts l [] [l[index]] (l.eraseIdx index) := by
  have hs := Shifts.leave (l.take index) (l.drop (index + 1)) l[index]
  rwa [← List.drop_eq_getElem_cons h, List.take_append_drop, ← List.eraseIdx_eq_take_drop_succ] at hs

namespace Container

/-- an edit acts on the entries only, in one of the four ways -/
theorem shifts_edit (c : Container) (e : Edit) :
    (c.edit e).1.header = c.header ∧
      Shifts c.contents (e.added (c.edit e).2) (e.out c.contents (c.edit e).2) (c.edit e).1.contents := by
  cases e with
  | push i => exact ⟨rfl, .push c.contents i⟩
  | pushOptional o =>
    cases o with
    | none => exact ⟨rfl, .stay c.contents⟩
    | some i => exact ⟨rfl, .push c.contents i⟩
  | insert index i =>
    by_cases hlt : c.length < index
    · rw [edit, insert_of_lt hlt]
      exact ⟨rfl, .stay c.contents⟩
    · rw [edit_insert_of_le (Nat.not_lt.1 hlt)]
      exact ⟨rfl, .insertIdx (Nat.not_lt.1 hlt) i⟩
  | remove index =>
    by_cases hle : c.length ≤ index
    · rw [edit, remove_of_le hle]
      exact ⟨rfl, .stay c.contents⟩
    · rw [edit_remove_of_lt (Nat.not_le.1 hle)]
      exact ⟨rfl, .eraseIdx (Nat.not_le.1 hle)⟩
  | take => exact ⟨rfl, .empty c.contents⟩
  | clear => exact ⟨rfl, .empty c.contents⟩

theorem header_edits (c : Container) (es : List Edit) : (c.edits es).header = c.header := by
  induction es generalizing c with
  | nil => rfl
  | cons e es ih => exact (ih (c.edit e).1).trans (c.shifts_edit e).1

end Container

/-! ## the account of a stretch -/

/-- The entries before and after a stretch of edits, with those that came in and went out on the way. Some were `kept`,
in one order before and after. The others that were there before are `lost`, the others that are there after are
`fresh`, and some came in and went out again. -/
def Balanced (before added out after : List Item) : Prop :=
  ∃ kept lost fresh passing, kept.Sublist before ∧ kept.Sublist after ∧
    before.Perm (kept ++ lost) ∧ after.Perm (kept ++ fresh) ∧
    added.Perm (fresh ++ passing) ∧ out.Perm (lost ++ passing)

theorem Shifts.balanced {l m added out : List Item} (h : Shifts l added out m) : Balanced l added out m := by
  cases h with
  | stay =>
    exact ⟨l, [], [], [], .refl l, .refl l, by simp, by simp, .refl _, .refl _⟩
  | enter l r i =>
    refine ⟨l ++ r, [], [i], [], .refl _, ?_, by simp, ?_, .refl _, .refl _⟩
    · exact (List.Sublist.refl l).append (List.sublist_cons_self i r)
    · exact List.perm_middle.trans (List.perm_append_singleton i (l ++ r)).symm
  | leave l r i =>
    refine ⟨l ++ r, [i], [], [], ?_, .refl _, ?_, by simp, .refl _, .refl _⟩
    · exact (List.Sublist.refl l).append (List.sublist_cons_self i r)
    · exact List.perm_middle.trans (List.perm_append_singleton i (l ++ r)).symm
  | empty =>
    exact ⟨[], l, [], [], List.nil_sublist _, .refl _, .refl _, .refl _, .refl _, by simp⟩

theorem cons_perm_append_cons {l m : List Item} (k : List Item) (i : Item) (h : l.Perm (k ++ m)) :
    (i :: l).Perm (k ++ i :: m) :=
  (h.cons i).trans List.perm_middle.symm

/-- two sublists of one list, taken apart by places: in both, in one of them only, in none -/
theorem exists_common_sublist {k₁ k₂ l : List Item} (h₁ : k₁.Sublist l) (h₂ : k₂.Sublist l) :
    ∃ k x y z, k.Sublist k₁ ∧ k.Sublist k₂ ∧ k₁.Perm (k ++ x) ∧ k₂.Perm (k ++ y) ∧
      l.Perm (k ++ (x ++ (y ++ z))) := by
  induction l generalizing k₁ k₂ with
  | nil =>
    rw [List.sublist_nil] at h₁ h₂
    subst h₁ h₂
    exact ⟨[], [], [], [], .refl _, .refl _, .refl _, .refl _, .refl _⟩
  | cons i l ih =>
    cases h₁ with
    | cons _ h₁ =>
      cases h₂ with
      | cons _ h₂ =>
        obtain ⟨k, x, y, z, hk₁, hk₂, hx, hy, hl⟩ := ih h₁ h₂
        have hi := cons_perm_append_cons (k ++ (x ++ y)) i (show l.Perm (k ++ (x ++ y) ++ z) by simpa using hl)
        exact ⟨k, x, y, i :: z, hk₁, hk₂, hx, hy, by simpa using hi⟩
      | cons_cons _ h₂ =>
        obtain ⟨k, x, y, z, hk₁, hk₂, hx, hy, hl⟩ := ih h₁ h₂
        have hi := cons_perm_append_cons (k ++ x) i (show l.Perm (k ++ x ++ (y ++ z)) by simpa using hl)
        exact ⟨k, x, i :: y, z, hk₁, hk₂.cons i, hx, cons_perm_append_cons k i hy, by simpa using hi⟩
    | cons_cons _ h₁ =>
      cases h₂ with
      | cons _ h₂ =>
        obtain ⟨k, x, y, z, hk₁, hk₂, hx, hy, hl⟩ := ih h₁ h₂
        exact ⟨k, i :: x, y, z, hk₁.cons i, hk₂, cons_perm_append_cons k i hx, hy, cons_perm_append_cons k i hl⟩
      | cons_cons _ h₂ =>
        obtain ⟨k, x, y, z, hk₁, hk₂, hx, hy, hl⟩ := ih h₁ h₂
        exact ⟨i :: k, x, y, z, hk₁.cons_cons i, hk₂.cons_cons i, hx.cons i, hy.cons i, hl.cons i⟩

namespace Balanced

variable {l m n added added' out out' : List Item}

theorem refl (l : List Item) : Balanced l [] [] l := (Shifts.stay l).balanced

/-- one stretch after the other; what is kept in both is kept all along -/
theorem trans (h : Balanced l added out m) (h' : Balanced m added' out' n) :
    Balanced l (added ++ added') (out ++ out') n := by
  obtain ⟨k₁, lost₁, fresh₁, passing₁, hkl, hkm, hl, hm, hadded, hout⟩ := h
  obtain ⟨k₂, lost₂, fresh₂, passing₂, hkm', hkn, hm', hn, hadded', hout'⟩ := h'
  obtain ⟨k, x, y, z, hk₁, hk₂, hx, hy, hz⟩ := exists_common_sublist hkm hkm'
  refine ⟨k, x ++ lost₁, y ++ fresh₂, z ++ passing₁ ++ passing₂, hk₁.trans hkl, hk₂.trans hkn, ?_⟩
  -- every equation is one on the number of copies of each entry
  classical
  simp only [List.perm_iff_count, List.count_append] at *
  refine ⟨fun i => ?_, fun i => ?_, fun i => ?_, fun i => ?_⟩
  · have := hl i
    have := hx i
    omega
  · have := hn i
    have := hy i
    omega
  · -- what came in at first is still there, or went out afterwards
    have := hadded i
    have := hadded' i
    have := hm i
    have := hx i
    have := hz i
    omega
  · -- what goes out afterwards was there before, or came in at first
    have := hout i
    have := hout' i
    have := hm' i
    have := hy i
    have := hz i
    omega

theorem perm (h : Balanced l added out m) : (m ++ out).Perm (l ++ added) := by
  obtain ⟨kept, lost, fresh, passing, -, -, hl, hm, hadded, hout⟩ := h
  classical
  simp only [List.perm_iff_count, List.count_append] at *
  intro i
  have := hl i
  have := hm i
  have := hadded i
  have := hout i
  omega

end Balanced

theorem Container.balanced_edits (c : Container) (es : List Edit) :
    Balanced c.contents (c.added es) (c.out es) (c.edits es).contents := by
  induction es generalizing c with
  | nil => exact .refl c.contents
  | cons e es ih => exact (c.shifts_edit e).2.balanced.trans (ih (c.edit e).1)

/-! ## blocks and files -/

namespace Item

/-- edits the container of a block or file in place -/
def edit (i : Item) (e : Edit) : Option (Item × Edit.Result) :=
  i.container?.map fun c => (i.withContainer (c.edit e).1, (c.edit e).2)

/-- edits in a row; an item without a container takes none -/
def edits (i : Item) : List Edit → Option Item
  | [] => some i
  | e :: es => do
    let (i, _) ← i.edit e
    i.edits es

theorem container?_withContainer {i : Item} {c : Container} (h : i.container? = some c) (d : Container) :
    (i.withContainer d).container? = some d := by
  cases i with
  | complex h es => rfl
  | file h es name => rfl
  | _ => cases h

theorem withContainer_self {i : Item} {c : Container} (h : i.container? = some c) : i.withContainer c = i := by
  cases i with
  | complex h es =>
    cases h
    rfl
  | file h es name =>
    cases h
    rfl
  | _ => rfl

theorem withContainer_withContainer (i : Item) (c d : Container) :
    (i.withContainer c).withContainer d = i.withContainer d := by
  cases i <;> rfl

theorem edits_eq {i : Item} {c : Container} (h : i.container? = some c) (es : List Edit) :
    i.edits es = some (i.withContainer (c.edits es)) := by
  induction es generalizing i c with
  | nil => rw [edits, Container.edits, withContainer_self h]
  | cons e es ih =>
    rw [edits, edit, h]
    show (i.withContainer (c.edit e).1).edits es = _
    rw [ih (container?_withContainer h _), withContainer_withContainer]
    rfl

end Item

/-- **A container neither loses, duplicates nor reorders entries.** An insertion fails just for an index past the end, a
removal from the end on, with that index and the length, and the container stays as it was; otherwise the entry is
inserted or removed at its place, and no other edit fails. Over every run the header stays, and the contents with all
that went out are a rearrangement of the first contents with all that came in. Over any stretch of a run the entries
that stay keep their order, and all others are accounted for. The container of a block or file is edited in place. -/
theorem container_conserves_entries (c : Container) :
    (∀ e error, (c.edit e).2 = .failed error ↔
      ((∃ index i, e = .insert index i ∧ c.length < index ∧ error = .indexOutOfBounds index c.length) ∨
        ∃ index, e = .remove index ∧ c.length ≤ index ∧ error = .indexOutOfBounds index c.length)) ∧
    (∀ e error, (c.edit e).2 = .failed error → (c.edit e).1 = c) ∧
    (∀ index i, index ≤ c.length →
      c.edit (.insert index i) = ({ c with contents := c.contents.insertIdx index i }, .done)) ∧
    (∀ index, ∀ h : index < c.contents.length,
      c.edit (.remove index) = ({ c with contents := c.contents.eraseIdx index }, .removed c.contents[index])) ∧
    (∀ es, (c.edits es).header = c.header ∧
      ((c.edits es).contents ++ c.out es).Perm (c.contents ++ c.added es)) ∧
    (∀ es stretch, Balanced (c.edits es).contents ((c.edits es).added stretch) ((c.edits es).out stretch)
      (c.edits (es ++ stretch)).contents) ∧
    (∀ es, (Item.complex c.header c.contents).edits es = some (.complex c.header (c.edits es).contents)) ∧
    ∀ es name, (Item.file c.header c.contents name).edits es = some (.file c.header (c.edits es).contents name) := by
  refine ⟨fun e error => Container.edit_eq_failed_iff, fun e error => Container.edit_of_failed,
    fun index i h => Container.edit_insert_of_le h i, fun index h => Container.edit_remove_of_lt h,
    fun es => ⟨c.header_edits es, (c.balanced_edits es).perm⟩, fun es stretch => ?_, fun es => ?_, fun es name => ?_⟩
  · rw [Container.edits_append]
    exact (c.edits es).balanced_edits stretch
  · rw [Item.edits_eq (c := c) rfl es, Item.withContainer, c.header_edits es]
  · rw [Item.edits_eq (c := c) rfl es, Item.withContainer, c.header_edits es]

/-- two entries, with edits at the last index that is accepted and at the first that is not -/
theorem container_conserves_entries_bounds :
    let a : Item := .leaf { value := .string "a" }
    let b : Item := .leaf { value := .string "b" }
    let c : Container := { contents := [a, b] }
    ((c.edit (.insert 3 a)).2 = .failed (.indexOutOfBounds 3 2) ∧ (c.edit (.insert 3 a)).1 = c) ∧
      ((c.edit (.remove 2)).2 = .failed (.indexOutOfBounds 2 2) ∧ (c.edit (.remove 2)).1 = c) ∧
      (2 ≤ c.length ∧ (c.edit (.insert 2 a)).1.contents = [a, b, a]) ∧
      (1 < c.contents.length ∧ (c.edit (.remove 1)).1.contents = [a]) ∧
      (c.edits [.remove 0, .push a]).contents = [b, a] ∧
      ((c.edits [.remove 0, .push a]).contents ++ c.out [.remove 0, .push a]).Perm ([a, b] ++ [a]) := by
  intro a b c
  obtain ⟨hfails, hstays, hinsert, hremove, hrun, -⟩ := container_conserves_entries c
  have hpast := (hfails (.insert 3 a) _).2 (.inl ⟨3, a, rfl, by decide, rfl⟩)
  have hend := (hfails (.remove 2) _).2 (.inr ⟨2, rfl, by decide, rfl⟩)
  refine ⟨⟨hpast, hstays _ _ hpast⟩, ⟨hend, hstays _ _ hend⟩, ⟨by decide, ?_⟩, ⟨by decide, ?_⟩, rfl,
    (hrun [.remove 0, .push a]).2⟩
  · rw [hinsert 2 a (by decide)]
    rfl
  · rw [hremove 1 (by decide)]
    rfl

end ItemTree

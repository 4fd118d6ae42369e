import ItemTree.Json.Record
import ItemTree.Proofs.Json.Literal

/-!
# What readers yield

`Yields r P` says that whatever text a reader accepts, its result satisfies `P`. It goes along with binding, so that
loops keep what their steps keep:

* `yields_elements`: all elements of an array have what the reader of an element yields;
* `yields_members`: members of an object keep an invariant of the state they are folded into;
* `Record.yields_read`: fields of a record keep an invariant of its draft, by name and by place.
-/

namespace ItemTree.Json

/-- the result satisfies `P` if there is one -/
def Yields {α : Type} (r : Reader α) (P : α → Prop) : Prop := ∀ ⦃cs a rest⦄, r cs = .ok (a, rest) → P a

section

variable {α β : Type} {r : Reader α} {P : α → Prop} {Q : β → Prop}

theorem yields_any (r : Reader α) : Yields r fun _ => True := fun _ _ _ _ => trivial

theorem yields_fail (e : ReadError) : Yields (fail e : Reader α) P := fun _ _ _ h => nomatch h

theorem yields_pure {a : α} (ha : P a) : Yields (pure a : Reader α) P := by
  intro cs b rest h
  cases h
  exact ha

theorem Yields.bind (hr : Yields r P) {f : α → Reader β} (hf : ∀ a, P a → Yields (f a) Q) : Yields (r >>= f) Q := by
  intro cs b rest h
  cases hrun : r cs with
  | error e =>
    rw [bind_error hrun] at h
    cases h
  | ok p =>
    obtain ⟨a, mid⟩ := p
    rw [bind_ok hrun] at h
    exact hf a (hr hrun) h

/-- what comes next decides alone -/
theorem yields_bind (r : Reader α) {f : α → Reader β} (hf : ∀ a, Yields (f a) Q) : Yields (r >>= f) Q :=
  (yields_any r).bind fun a _ => hf a

theorem yields_lift (x : Except ReadError α) : Yields (liftM x : Reader α) fun a => x = .ok a := by
  intro cs a rest h
  cases x with
  | error e => cases h
  | ok b =>
    cases h
    rfl

theorem yields_refuse (wanted : String) : Yields (refuse wanted : Reader α) P := by
  intro cs a rest h
  unfold refuse at h
  split at h
  · cases h
  · exact yields_bind _ (fun _ => yields_fail _) h
  · exact yields_bind _ (fun _ => yields_fail _) h
  · exact yields_bind _ (fun _ => yields_fail _) h
  · exact yields_bind _ (fun _ => yields_fail _) h
  · cases h
  · cases h
  · split at h
    · exact yields_bind _ (fun _ => yields_fail _) h
    · cases h

theorem Yields.readAll (hr : Yields r P) {text : String} {a : α} (h : readAll r text = .ok a) : P a := by
  unfold Json.readAll at h
  split at h
  · cases h
  · rename_i hrun
    split at h
    · cases h
      exact hr hrun
    · cases h

end

/-! ## arrays and objects -/

theorem yields_elementLoop {α : Type} {read : Reader α} {P : α → Prop} (hread : Yields read P) (fuel : Nat)
    (first : Bool) : Yields (elementLoop read fuel first) fun xs => ∀ x ∈ xs, P x := by
  induction fuel generalizing first with
  | zero => exact yields_fail _
  | succ fuel ih =>
    refine yields_bind _ fun more => ?_
    cases more with
    | true =>
      refine hread.bind fun x hx => (ih false).bind fun xs hxs => ?_
      exact yields_pure (List.forall_mem_cons.2 ⟨hx, hxs⟩)
    | false => exact yields_bind _ fun _ => yields_pure (List.forall_mem_nil _)

theorem yields_elements {α : Type} {read : Reader α} {P : α → Prop} (hread : Yields read P) :
    Yields (elements read) fun xs => ∀ x ∈ xs, P x :=
  fun _ _ _ h => yields_elementLoop hread _ _ h

section

variable {κ σ : Type} {key : Reader κ} {member : σ → κ → Except ReadError (Reader σ)} {P : σ → Prop}
  (hmember : ∀ s k value, P s → member s k = .ok value → Yields value P)

include hmember

theorem yields_memberLoop (fuel : Nat) (first : Bool) {s : σ} (hs : P s) :
    Yields (memberLoop key member fuel first s) P := by
  induction fuel generalizing first s with
  | zero => exact yields_fail _
  | succ fuel ih =>
    refine yields_bind _ fun more => ?_
    cases more with
    | true =>
      refine yields_bind _ fun k => (yields_lift _).bind fun value hvalue => yields_bind _ fun _ => ?_
      exact (hmember s k value hs hvalue).bind fun s hs => ih false hs
    | false => exact yields_bind _ fun _ => yields_pure hs

theorem yields_members {start : σ} (hstart : P start) : Yields (members key member start) P :=
  fun _ _ _ h => yields_memberLoop hmember _ _ hstart h

end

/-! ## records -/

namespace Record

variable {σ : Type} {r : Record σ} {P : σ → Prop}

theorem yields_positional {fs : List (Field σ)} (hfields : ∀ f ∈ fs, ∀ s, P s → Yields (f.read s) P) (i : Nat)
    (first : Bool) {s : σ} (hs : P s) : Yields (r.positional i first fs s) P := by
  induction fs generalizing i first s with
  | nil => exact yields_bind _ fun _ => yields_pure hs
  | cons f fs ih =>
    obtain ⟨hf, hfs⟩ := List.forall_mem_cons.1 hfields
    unfold positional
    refine yields_bind _ fun more => ?_
    cases more with
    | true => exact (hf s hs).bind fun s hs => ih hfs _ _ hs
    | false =>
      -- the fields that are left stay as they are
      simp only [Bool.false_eq_true, if_false]
      split
      · exact yields_fail _
      · exact ih hfs _ _ hs

variable (hfields : ∀ f ∈ r.fields, ∀ s, P s → Yields (f.read s) P)

include hfields

theorem yields_member (s : σ) (key : String) (value : Reader σ) (hs : P s) (h : r.member s key = .ok value) :
    Yields value P := by
  unfold member at h
  split at h
  · cases h
    exact yields_bind _ fun _ => yields_pure hs
  · rename_i f hf
    split at h
    · cases h
    · cases h
      exact hfields f (List.mem_of_find?_eq_some hf) s hs

theorem yields_named (hstart : P r.start) : Yields r.named P := by
  refine (yields_members (yields_member hfields) hstart).bind fun s hs => ?_
  split
  · exact yields_fail _
  · exact yields_pure hs

theorem yields_read (hstart : P r.start) (depth : Nat) : Yields (r.read depth) P := by
  intro cs s rest h
  unfold read at h
  split at h
  · split at h
    · cases h
    · exact yields_positional hfields _ _ hstart h
  · split at h
    · cases h
    · exact yields_named hfields hstart h
  · exact yields_refuse _ h

end Record

end ItemTree.Json

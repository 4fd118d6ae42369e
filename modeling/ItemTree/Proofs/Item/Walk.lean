import ItemTree.Item.Walk
import ItemTree.Proofs.Item.Induction
import Mathlib.Data.List.Basic

/-!
# One walk for all visitors

What a visitor is called on does not depend on the visitor. A walk is recorded as a list of visits, and any other
walk over the item is a fold over that record:

* `Item.walk_eq`: a walk enters the item, its entries and then its members, one step of the recursion;
* `Item.visits_eq`: the record of an item is put together from those of its parts;
* `Item.walk_eq_foldl`: every walk is a fold over the record;
* `Item.items_visits`: the items on the record are the item and all below it, which gives `Item.kinds`, `Item.count`
  and `Item.events` in closed form.
-/

namespace ItemTree

variable {σ : Type}

/-- a call of a visitor -/
inductive Visit where
  | item (i : Item)
  | member (name : String) (o : Option Item)

namespace Visit

/-- the item that is entered -/
def item? : Visit → Option Item
  | item i => some i
  | member _ _ => none

/-- what is logged of a call -/
def event : Visit → Event
  | item i => .item i.kind i.text
  | member name o => .member name o.isSome

end Visit

namespace Visitor

/-- what a visitor does on a call -/
def visit (v : Visitor σ) (s : σ) : Visit → σ
  | .item i => v.item i s
  | .member name o => v.member name o s

/-- keeps every call -/
def recording : Visitor (List Visit) :=
  { item := fun i vs => vs ++ [.item i]
    member := fun name o vs => vs ++ [.member name o] }

/-- a visitor that only adds to a list -/
theorem foldl_visit_of_append {α : Type} {v : Visitor (List α)} {f : Visit → List α}
    (hv : ∀ l x, v.visit l x = l ++ f x) (l : List α) (vs : List Visit) :
    vs.foldl v.visit l = l ++ vs.flatMap f := by
  induction vs generalizing l with
  | nil => rw [List.foldl_nil, List.flatMap_nil, List.append_nil]
  | cons x vs ih => rw [List.foldl_cons, ih, hv, List.flatMap_cons, List.append_assoc]

theorem foldl_recording (ws vs : List Visit) : vs.foldl recording.visit ws = ws ++ vs := by
  have hv : ∀ l x, recording.visit l x = l ++ [x] := by
    intro l x
    cases x <;> rfl
  rw [foldl_visit_of_append hv, List.flatMap_singleton']

end Visitor

/-! ## one step of the walk -/

theorem walkEntries_eq (v : Visitor σ) (es : List Item) (s : σ) :
    walkEntries v es s = es.foldl (fun s e => e.walk v s) s := by
  induction es generalizing s with
  | nil => rfl
  | cons e es ih => rw [walkEntries, ih, List.foldl_cons]

/-- a member, then the item in it -/
def Visitor.enter (v : Visitor σ) (s : σ) (m : String × Option Item) : σ :=
  m.2.toList.foldl (fun s i => i.walk v s) (v.member m.1 m.2 s)

theorem walkMember_eq (v : Visitor σ) (name : String) (o : Option Item) (s : σ) :
    walkMember v name o s = v.enter s (name, o) := by
  cases o with
  | none => simp [walkMember, Visitor.enter]
  | some i => simp [walkMember, Visitor.enter]

theorem walkType_eq (v : Visitor σ) (name : String) (t : Option TypeRef) (s : σ) :
    walkType v name t s = v.enter s (name, t.map .type) := by
  cases t with
  | none => simp [walkType, Visitor.enter]
  | some t => simp [walkType, Visitor.enter, Item.walk]

/-- the item, its entries, its members -/
theorem Item.walk_eq (v : Visitor σ) (i : Item) (s : σ) :
    i.walk v s = i.members.foldl v.enter ((i.contents?.getD []).foldl (fun s e => e.walk v s) (v.item i s)) := by
  cases i with
  | leaf h => simp [walk, members, contents?]
  | complex h es => simp [walk, members, contents?, walkEntries_eq]
  | file h es name => simp [walk, members, contents?, walkEntries_eq]
  | loop h i c p b => simp [walk, members, contents?, walkMember_eq]
  | type t =>
    cases t with
    | bare h => simp [walk, TypeRef.walk, members, contents?, TypeRef.element?, Visitor.enter]
    | applied h e => simp [walk, TypeRef.walk, members, contents?, TypeRef.element?, Visitor.enter]
  | property h ms t n c => simp [walk, members, contents?, walkMember_eq, walkType_eq]
  | parameter h t n =>
    have hc : v.enter (v.item (parameter h t n) s) ("content", none) =
        v.member "content" none (v.item (parameter h t n) s) := rfl
    simp [walk, members, contents?, walkMember_eq, walkType_eq, hc]

/-! ## the record of a walk -/

namespace Item

/-- all calls on the way, in order -/
def visits (i : Item) : List Visit := i.walk .recording []

/-- the calls for a member and what is in it -/
def memberVisits (m : String × Option Item) : List Visit := .member m.1 m.2 :: m.2.toList.flatMap visits

/-- the record of an item by those of its parts -/
def stepVisits (i : Item) : List Visit :=
  .item i :: ((i.contents?.getD []).flatMap visits ++ i.members.flatMap memberVisits)

/-- walks over some items are folds over their records -/
theorem foldl_walk_eq {is : List Item} (v : Visitor σ) (h : ∀ i ∈ is, ∀ s, i.walk v s = i.visits.foldl v.visit s)
    (s : σ) : is.foldl (fun s i => i.walk v s) s = (is.flatMap visits).foldl v.visit s := by
  induction is generalizing s with
  | nil => rfl
  | cons i is ih =>
    have hi := h i List.mem_cons_self s
    have his := ih fun j hj => h j (List.mem_cons_of_mem _ hj)
    rw [List.foldl_cons, hi, his, List.flatMap_cons, List.foldl_append]

theorem foldl_enter_eq {ms : List (String × Option Item)} (v : Visitor σ)
    (h : ∀ m ∈ ms, ∀ i ∈ m.2, ∀ s, i.walk v s = i.visits.foldl v.visit s) (s : σ) :
    ms.foldl v.enter s = (ms.flatMap memberVisits).foldl v.visit s := by
  induction ms generalizing s with
  | nil => rfl
  | cons m ms ih =>
    have hm : v.enter s m = (memberVisits m).foldl v.visit s :=
      foldl_walk_eq v (fun i hi => h m List.mem_cons_self i (Option.mem_toList.1 hi)) _
    have hms := ih fun n hn => h n (List.mem_cons_of_mem _ hn)
    rw [List.foldl_cons, hm, hms, List.flatMap_cons, List.foldl_append]

/-- a walk is a fold if the walks over the parts are -/
theorem walk_eq_foldl_stepVisits {i : Item} (v : Visitor σ)
    (ih : ∀ j ∈ i.parts, ∀ s, j.walk v s = j.visits.foldl v.visit s) (s : σ) :
    i.walk v s = i.stepVisits.foldl v.visit s := by
  obtain ⟨hentries, hmembers⟩ := forall_mem_parts.1 ih
  rw [walk_eq, foldl_walk_eq v hentries, foldl_enter_eq v hmembers, stepVisits, List.foldl_cons, List.foldl_append]
  rfl

/-- the record is itself a walk -/
theorem visits_eq_stepVisits {i : Item}
    (ih : ∀ j ∈ i.parts, ∀ vs, j.walk .recording vs = j.visits.foldl (Visitor.visit .recording) vs) :
    i.visits = i.stepVisits := by
  unfold visits
  rw [walk_eq_foldl_stepVisits _ ih, Visitor.foldl_recording, List.nil_append]

/-- **Every walk is a fold over the record**, whatever the visitor does. -/
theorem walk_eq_foldl (i : Item) : ∀ {σ : Type} (v : Visitor σ) (s : σ), i.walk v s = i.visits.foldl v.visit s := by
  induction i using Item.ind_parts with
  | step i ih =>
    intro σ v s
    rw [visits_eq_stepVisits fun j hj => ih j hj _]
    exact walk_eq_foldl_stepVisits v (fun j hj => ih j hj v) s

theorem visits_eq (i : Item) :
    i.visits = .item i :: ((i.contents?.getD []).flatMap visits ++ i.members.flatMap memberVisits) :=
  visits_eq_stepVisits fun j _ => j.walk_eq_foldl _

/-! ## what visitors collect -/

theorem items_memberVisits {m : String × Option Item} (h : ∀ i ∈ m.2, i.visits.filterMap Visit.item? = i.subitems) :
    (memberVisits m).filterMap Visit.item? = m.2.toList.flatMap subitems := by
  have hm : (Visit.member m.1 m.2).item? = none := rfl
  rw [memberVisits, List.filterMap_cons_none hm, List.filterMap_flatMap]
  exact List.flatMap_congr fun i hi => h i (Option.mem_toList.1 hi)

/-- the items on the record: the item itself and all below it -/
theorem items_visits (i : Item) : i.visits.filterMap Visit.item? = i.subitems := by
  induction i using Item.ind_parts with
  | step i ih =>
    obtain ⟨hentries, hmembers⟩ := forall_mem_parts.1 ih
    have hes : ((i.contents?.getD []).flatMap visits).filterMap Visit.item? =
        (i.contents?.getD []).flatMap subitems := by
      rw [List.filterMap_flatMap]
      exact List.flatMap_congr hentries
    have hms : (i.members.flatMap memberVisits).filterMap Visit.item? =
        (i.members.filterMap (·.2)).flatMap subitems := by
      rw [List.filterMap_flatMap, List.filterMap_eq_flatMap_toList, List.flatMap_assoc]
      exact List.flatMap_congr fun m hm => items_memberVisits (hmembers m hm)
    have hi : (Visit.item i).item? = some i := rfl
    rw [visits_eq, List.filterMap_cons_some hi, List.filterMap_append, hes, hms, ← List.flatMap_append, subitems_eq,
      parts]

theorem kinds_eq (i : Item) : i.kinds = i.subitems.map kind := by
  have hv : ∀ l x, Visitor.collectingKinds.visit l x = l ++ (x.item?.map kind).toList := by
    intro l x
    cases x with
    | item i => rfl
    | member name o => exact (List.append_nil l).symm
  rw [kinds, walk_eq_foldl, Visitor.foldl_visit_of_append hv, List.nil_append, ← List.filterMap_eq_flatMap_toList,
    ← List.map_filterMap, items_visits]

theorem count_kind_cons (i : Item) (is : List Item) (k : Kind) :
    ((i :: is).map kind).count k = [i.kind].count k + (is.map kind).count k := by
  rw [List.map_cons, ← List.singleton_append, List.count_append]

theorem events_eq (i : Item) : i.events = i.visits.map Visit.event := by
  have hv : ∀ l x, Visitor.logging.visit l x = l ++ [Visit.event x] := by
    intro l x
    cases x <;> rfl
  rw [events, walk_eq_foldl, Visitor.foldl_visit_of_append hv, List.nil_append, List.map_eq_flatMap]

theorem foldl_counting (vs : List Visit) (n : Nat) :
    vs.foldl Visitor.counting.visit n = n + (vs.filterMap Visit.item?).length := by
  induction vs generalizing n with
  | nil => rfl
  | cons x vs ih =>
    rw [List.foldl_cons, ih]
    cases x with
    | item i =>
      have hi : (Visit.item i).item? = some i := rfl
      have hstep : Visitor.counting.visit n (.item i) = n + 1 := rfl
      rw [List.filterMap_cons_some hi, List.length_cons, hstep]
      omega
    | member name o =>
      have hm : (Visit.member name o).item? = none := rfl
      rw [List.filterMap_cons_none hm]
      rfl

theorem count_eq (i : Item) : i.count = i.subitems.length := by
  rw [count, walk_eq_foldl, foldl_counting, items_visits, Nat.zero_add]

end Item

end ItemTree

import ItemTree.Proofs.Item.Walk
import Mathlib.Data.List.Perm.Basic

/-!
# Visitors agree

All visitors take one walk, so what one of them collects can be read off what another logs. The record of a walk nests
like the item itself:

* `Item.record_prefix`: from any call on, the record goes on with all that this call leads to;
* `Item.members_visits_perm`: the members met are those of all items, each once;
* `Item.unset_eq`: a visitor of unset members sees the same calls as one that logs everything.
-/

namespace ItemTree

namespace Event

/-- the kind of an item that is entered -/
def kind? : Event → Option Kind
  | item k _ => some k
  | member _ _ => none

/-- the name of a member that is not set -/
def unset? : Event → Option String
  | member name false => some name
  | _ => none

def isMember : Event → Bool
  | item _ _ => false
  | member _ _ => true

end Event

namespace Visit

/-- the member that is met -/
def member? : Visit → Option (String × Option Item)
  | item _ => none
  | member name o => some (name, o)

/-- a call and all calls that it leads to -/
def record : Visit → List Visit
  | item i => i.visits
  | member name o => Item.memberVisits (name, o)

theorem kind?_event (x : Visit) : x.event.kind? = x.item?.map Item.kind := by
  cases x <;> rfl

theorem isMember_event (x : Visit) : x.event.isMember = x.member?.isSome := by
  cases x <;> rfl

theorem eq_member_of_event {x : Visit} {name : String} (h : x.event = .member name true) :
    ∃ i, x = .member name (some i) := by
  cases x with
  | item i => cases h
  | member n o =>
    obtain ⟨rfl, hset⟩ := Event.member.inj h
    obtain ⟨i, rfl⟩ := Option.isSome_iff_exists.1 hset
    exact ⟨i, rfl⟩

end Visit

/-! ## every call leads to its own record -/

/-- every call is followed by all that it leads to -/
def Complete (vs : List Visit) : Prop := ∀ x after, x :: after <:+ vs → x.record <+: x :: after

namespace Complete

variable {vs ws : List Visit}

theorem cons {x : Visit} (hx : x.record <+: x :: vs) (h : Complete vs) : Complete (x :: vs) := by
  intro y after hy
  rcases List.suffix_cons_iff.1 hy with heq | hy
  · cases heq
    exact hx
  · exact h y after hy

theorem append (hv : Complete vs) (hw : Complete ws) : Complete (vs ++ ws) := by
  induction vs with
  | nil => exact hw
  | cons x vs ih =>
    have hx : x.record <+: x :: vs := hv x vs List.suffix_rfl
    have hvs : Complete vs := fun y after hy => hv y after (hy.trans (List.suffix_cons x vs))
    exact cons (hx.trans (List.prefix_append _ ws)) (ih hvs)

theorem flatMap {α : Type} {f : α → List Visit} {l : List α} (h : ∀ a ∈ l, Complete (f a)) :
    Complete (l.flatMap f) := by
  induction l with
  | nil => exact fun x after hx => nomatch List.suffix_nil.1 hx
  | cons a l ih =>
    rw [List.flatMap_cons]
    exact (h a List.mem_cons_self).append (ih fun b hb => h b (List.mem_cons_of_mem _ hb))

end Complete

namespace Item

theorem complete_memberVisits {m : String × Option Item} (h : ∀ i ∈ m.2, Complete i.visits) :
    Complete (memberVisits m) :=
  Complete.cons List.prefix_rfl (Complete.flatMap fun i hi => h i (Option.mem_toList.1 hi))

theorem complete_visits (i : Item) : Complete i.visits := by
  induction i using Item.ind_parts with
  | step i ih =>
    obtain ⟨hentries, hmembers⟩ := forall_mem_parts.1 ih
    have hbelow := (Complete.flatMap hentries).append (Complete.flatMap fun m hm => complete_memberVisits (hmembers m hm))
    have hrecord : (Visit.item i).record = _ := i.visits_eq
    rw [visits_eq]
    exact Complete.cons (hrecord ▸ List.prefix_rfl) hbelow

/-- **The record of any call starts where the call stands.** -/
theorem record_prefix {i : Item} {k : Nat} {x : Visit} (hx : i.visits[k]? = some x) :
    x.record <+: i.visits.drop k := by
  obtain ⟨hk, rfl⟩ := List.getElem?_eq_some_iff.1 hx
  have hdrop := List.drop_eq_getElem_cons hk
  rw [hdrop]
  exact i.complete_visits _ _ (hdrop ▸ List.drop_suffix k i.visits)

/-- a member that is set is followed by the item in it -/
theorem visits_succ_of_member {i j : Item} {k : Nat} {name : String}
    (h : i.visits[k]? = some (.member name (some j))) : i.visits[k + 1]? = some (.item j) := by
  obtain ⟨rest, hrest⟩ := record_prefix h
  have hrecord : (Visit.member name (some j)).record = .member name (some j) :: j.visits := by
    simp [Visit.record, memberVisits]
  have hnext : (i.visits.drop k)[1]? = some (.item j) := by
    rw [← hrest, hrecord, visits_eq]
    rfl
  rwa [List.getElem?_drop] at hnext

/-! ## members -/

/-- members that are met in a row, and what is met in them -/
theorem members_memberVisits_perm {ms : List (String × Option Item)}
    (h : ∀ m ∈ ms, ∀ i ∈ m.2, (i.visits.filterMap Visit.member?).Perm (i.subitems.flatMap members)) :
    ((ms.flatMap memberVisits).filterMap Visit.member?).Perm
      (ms ++ ((ms.filterMap (·.2)).flatMap subitems).flatMap members) := by
  have hmeet : (ms.flatMap memberVisits).filterMap Visit.member? =
      ms.flatMap fun m => m :: m.2.toList.flatMap fun i => i.visits.filterMap Visit.member? := by
    rw [List.filterMap_flatMap]
    refine List.flatMap_congr fun m _ => ?_
    have hm : (Visit.member m.1 m.2).member? = some m := rfl
    rw [memberVisits, List.filterMap_cons_some hm, List.filterMap_flatMap]
  have hbelow : (ms.flatMap fun m => m.2.toList.flatMap fun i => i.visits.filterMap Visit.member?).Perm
      (((ms.filterMap (·.2)).flatMap subitems).flatMap members) := by
    rw [List.filterMap_eq_flatMap_toList, List.flatMap_assoc, List.flatMap_assoc]
    exact List.Perm.flatMap_left _ fun m hm => List.Perm.flatMap_left _ fun i hi => h m hm i (Option.mem_toList.1 hi)
  have hsplit := List.map_append_flatMap_perm ms id fun m => m.2.toList.flatMap fun i => i.visits.filterMap Visit.member?
  rw [List.map_id] at hsplit
  rw [hmeet]
  exact hsplit.symm.trans (hbelow.append_left ms)

/-- the members met are those of all items, each once -/
theorem members_visits_perm (i : Item) : (i.visits.filterMap Visit.member?).Perm (i.subitems.flatMap members) := by
  induction i using Item.ind_parts with
  | step i ih =>
    obtain ⟨hentries, hmembers⟩ := forall_mem_parts.1 ih
    have hes : (((i.contents?.getD []).flatMap visits).filterMap Visit.member?).Perm
        (((i.contents?.getD []).flatMap subitems).flatMap members) := by
      rw [List.filterMap_flatMap, List.flatMap_assoc]
      exact List.Perm.flatMap_left _ hentries
    have hms := members_memberVisits_perm hmembers
    have hi : (Visit.item i).member? = none := rfl
    rw [visits_eq, List.filterMap_cons_none hi, List.filterMap_append, subitems_eq, parts, List.flatMap_cons,
      List.flatMap_append, List.flatMap_append]
    -- the members of the item itself are met after those in its entries
    exact (hes.append hms).trans (List.perm_append_comm_assoc _ _ _)

theorem length_members (i : Item) : i.members.length = 4 * [i.kind].count .loop +
    3 * ([i.kind].count .propertyDeclaration + [i.kind].count .functionParameter) + [i.kind].count .type := by
  cases i <;> rfl

theorem length_flatMap_members (is : List Item) : (is.flatMap members).length = 4 * (is.map kind).count .loop +
    3 * ((is.map kind).count .propertyDeclaration + (is.map kind).count .functionParameter) +
    (is.map kind).count .type := by
  induction is with
  | nil => rfl
  | cons i is ih =>
    have hi := i.length_members
    have hcons := count_kind_cons i is
    rw [List.flatMap_cons, List.length_append, ih, hcons, hcons, hcons, hcons]
    omega

theorem ascending_members (i : Item) : (i.members.map Prod.fst).Pairwise (· < ·) := by
  cases i <;> simp only [members, List.map_cons, List.map_nil] <;> decide

/-! ## logs -/

/-- what is logged of a member -/
def memberEvents (m : String × Option Item) : List Event := .member m.1 m.2.isSome :: m.2.toList.flatMap events

theorem map_event_memberVisits (m : String × Option Item) : (memberVisits m).map Visit.event = memberEvents m := by
  rw [memberVisits, List.map_cons, List.map_flatMap, memberEvents]
  exact congrArg _ (List.flatMap_congr fun i _ => i.events_eq.symm)

/-- the log of an item by those of its parts -/
theorem events_step (i : Item) : i.events =
    .item i.kind i.text :: ((i.contents?.getD []).flatMap events ++ i.members.flatMap memberEvents) := by
  rw [events_eq, visits_eq, List.map_cons, List.map_append, List.map_flatMap, List.map_flatMap]
  have hentries : ∀ j ∈ i.contents?.getD [], j.visits.map Visit.event = j.events := fun j _ => j.events_eq.symm
  rw [List.flatMap_congr hentries, List.flatMap_congr fun m _ => map_event_memberVisits m]
  rfl

theorem events_drop {i j : Item} {k : Nat} (h : i.visits[k]? = some (.item j)) : j.events <+: i.events.drop k := by
  have hrecord : j.visits <+: i.visits.drop k := record_prefix h
  rw [events_eq, events_eq, ← List.map_drop]
  exact hrecord.map _

/-- a member that is logged as set is followed in the log by the item in it -/
theorem events_succ_of_member {i : Item} {k : Nat} {name : String} (hk : i.events[k]? = some (.member name true)) :
    ∃ j, i.visits[k]? = some (.member name (some j)) ∧ i.events[k + 1]? = some (.item j.kind j.text) := by
  rw [events_eq, List.getElem?_map] at hk
  obtain ⟨x, hx, hevent⟩ := Option.map_eq_some_iff.1 hk
  obtain ⟨j, rfl⟩ := Visit.eq_member_of_event hevent
  refine ⟨j, hx, ?_⟩
  rw [events_eq, List.getElem?_map, visits_succ_of_member hx]
  rfl

theorem kinds_events (i : Item) : i.events.filterMap Event.kind? = i.kinds := by
  rw [events_eq, List.filterMap_map, kinds_eq, ← items_visits, List.map_filterMap]
  exact List.filterMap_congr fun x _ => x.kind?_event

theorem countP_isMember_events (i : Item) : i.events.countP Event.isMember = (i.subitems.flatMap members).length := by
  rw [← i.members_visits_perm.length_eq, List.length_filterMap_eq_countP, events_eq, List.countP_map]
  exact List.countP_congr fun x _ => by rw [Function.comp_apply, x.isMember_event]

theorem unset_eq (i : Item) : i.unset = i.events.filterMap Event.unset? := by
  have hv : ∀ l x, Visitor.collectingUnset.visit l x = l ++ x.event.unset?.toList := by
    intro l x
    cases x with
    | item i => exact (List.append_nil l).symm
    | member name o =>
      cases o with
      | none => rfl
      | some i => exact (List.append_nil l).symm
  rw [unset, walk_eq_foldl, Visitor.foldl_visit_of_append hv, List.nil_append, events_eq, List.filterMap_map,
    List.filterMap_eq_flatMap_toList]
  rfl

end Item

/-- **Visitors agree on one walk.** Any walk is a fold over the calls on record, which are those on the item and on all
below it, and this is what the log shows:

* the kinds in it are those collected, and as many as counted;
* the members in it that are not set are those that a visitor of unset members finds;
* a member that is set is followed at once by the item in it;
* loops have four members, declarations and parameters three, and types one;
* after an item come all events of its entries, and then its members by ascending names, each with what it holds. -/
theorem visitors_agree (i : Item) :
    (∀ (σ : Type) (v : Visitor σ) (s : σ), i.walk v s = i.visits.foldl v.visit s) ∧
    i.visits.filterMap Visit.item? = i.subitems ∧ i.events = i.visits.map Visit.event ∧
    i.events.filterMap Event.kind? = i.kinds ∧ (i.events.filterMap Event.kind?).length = i.count ∧
    i.events.filterMap Event.unset? = i.unset ∧
    (∀ (k : Nat) (name : String), i.events[k]? = some (.member name true) →
      ∃ j : Item, i.visits[k]? = some (.member name (some j)) ∧ i.events[k + 1]? = some (.item j.kind j.text)) ∧
    i.events.countP Event.isMember = 4 * i.kinds.count .loop +
      3 * (i.kinds.count .propertyDeclaration + i.kinds.count .functionParameter) + i.kinds.count .type ∧
    ∀ (k : Nat) (j : Item), i.visits[k]? = some (.item j) →
      .item j.kind j.text :: ((j.contents?.getD []).flatMap Item.events ++ j.members.flatMap Item.memberEvents) <+:
        i.events.drop k ∧
      (j.members.map Prod.fst).Pairwise (· < ·) := by
  refine ⟨fun σ v s => i.walk_eq_foldl v s, i.items_visits, i.events_eq, i.kinds_events, ?_, i.unset_eq.symm,
    fun k name => Item.events_succ_of_member, ?_, fun k j hk => ⟨?_, j.ascending_members⟩⟩
  · rw [i.kinds_events, i.kinds_eq, i.count_eq, List.length_map]
  · rw [i.countP_isMember_events, i.kinds_eq, Item.length_flatMap_members]
  · rw [← j.events_step]
    exact Item.events_drop hk

/-- a loop in a file, with a parameter as its only slot -/
theorem visitors_agree_nested :
    let parameter : Item := .parameter {} (some (.bare { value := .string "int" })) none
    let loop : Item := .loop {} none none none (some parameter)
    let i : Item := .file {} [loop] "main"
    i.events[3]? = some (.member "content" true) ∧ i.visits[1]? = some (.item loop) ∧
      (∃ j, i.visits[3]? = some (.member "content" (some j)) ∧ i.events[4]? = some (.item j.kind j.text)) ∧
      i.events.countP Event.isMember = 8 ∧ (loop.members.map Prod.fst).Pairwise (· < ·) := by
  intro parameter loop i
  have hmember : i.events[3]? = some (.member "content" true) := by decide
  have hitem : i.visits[1]? = some (.item loop) := rfl
  obtain ⟨-, -, -, -, -, -, hset, hcount, hnodes⟩ := visitors_agree i
  exact ⟨hmember, hitem, hset 3 "content" hmember, hcount, (hnodes 1 loop hitem).2⟩

end ItemTree

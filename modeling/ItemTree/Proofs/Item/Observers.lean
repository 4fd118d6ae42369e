import ItemTree.Item.Basic

/-!
# What the observers of an item see

Three calls act on the header of an item: two set its literal or its flag, one registers an observer. The `n`-th
notice of a call is for the `n`-th observer, so that observers are told apart by their numbers, also when two of them
have one name.

* `Header.Turns`: what a call can do to a header, and the notices it sends;
* `Item.calls`: calls in a row, with the notices of each;
* `received`: the changes that reach an observer;
* `Seen`: what an observer knows, brought up to date by every change it receives.
-/

namespace ItemTree

/-- what an observer knows of a header -/
structure Seen where
  value : Value
  parenthesized : Bool
  deriving DecidableEq, Repr

/-- takes over a change -/
def Seen.take (s : Seen) : Change → Seen
  | .value v => { s with value := v }
  | .parenthesized b => { s with parenthesized := b }

/-- every change of a log makes a difference to what was seen before it -/
def Effective : Seen → List Change → Prop
  | _, [] => True
  | s, c :: cs => s.take c ≠ s ∧ Effective (s.take c) cs

/-! ## one call -/

/-- a call that acts on the header of an item -/
inductive Call where
  | setValue (v : Value)
  | setParenthesized (b : Bool)
  | observe (observer : String)
  deriving DecidableEq, Repr

theorem Value.sameAs_iff (v w : Value) : v.sameAs w = true ↔ v = w := by
  cases v with
  | double a =>
    cases w with
    | double b =>
      cases a
      cases b
      simp [sameAs]
    | _ => simp [sameAs, numEq]
  | _ => cases w <;> simp [sameAs, numEq]

namespace Header

def seen (h : Header) : Seen := ⟨h.value, h.parenthesized⟩

/-- the header after a change -/
def change (h : Header) : Change → Header
  | .value v => { h with value := v }
  | .parenthesized b => { h with parenthesized := b }

@[simp] theorem seen_change (h : Header) (c : Change) : (h.change c).seen = h.seen.take c := by
  cases c <;> rfl

@[simp] theorem seen_observe (h : Header) (observer : String) : (h.observe observer).seen = h.seen := rfl

@[simp] theorem observers_change (h : Header) (c : Change) : (h.change c).observers = h.observers := by
  cases c <;> rfl

@[simp] theorem position_change (h : Header) (c : Change) : (h.change c).position = h.position := by
  cases c <;> rfl

/-- what a call makes of a header, with the notices it sends: nothing happens, there is one more observer, or a change
that makes a difference is told to all -/
inductive Turns (h : Header) : Header → List Notice → Prop
  | stays : Turns h h []
  | gains (observer : String) : Turns h (h.observe observer) []
  | changes (c : Change) (hc : h.seen.take c ≠ h.seen) : Turns h (h.change c) (h.notify c)

theorem turns_setValue (h : Header) (v : Value) : h.Turns (h.setValue v).1 (h.setValue v).2 := by
  unfold setValue
  split
  · exact .stays
  · rename_i hv
    refine .changes (.value v) fun heq => hv ?_
    rw [Value.sameAs_iff]
    exact (congrArg Seen.value heq).symm

theorem turns_setParenthesized (h : Header) (b : Bool) :
    h.Turns (h.setParenthesized b).1 (h.setParenthesized b).2 := by
  unfold setParenthesized
  split
  · exact .stays
  · rename_i hb
    refine .changes (.parenthesized b) fun heq => hb ?_
    rw [beq_iff_eq]
    exact (congrArg Seen.parenthesized heq).symm

/-- the literal that is set is there afterwards, whether it was the same one or not -/
theorem seen_setValue (h : Header) (v : Value) : (h.setValue v).1.seen = { h.seen with value := v } := by
  unfold setValue
  split
  · rename_i hv
    rw [Value.sameAs_iff] at hv
    subst hv
    rfl
  · rfl

theorem seen_setParenthesized (h : Header) (b : Bool) :
    (h.setParenthesized b).1.seen = { h.seen with parenthesized := b } := by
  unfold setParenthesized
  split
  · rename_i hb
    rw [beq_iff_eq] at hb
    subst hb
    rfl
  · rfl

namespace Turns

variable {h h' : Header} {ns : List Notice}

theorem position (ht : h.Turns h' ns) : h'.position = h.position := by
  cases ht with
  | stays => rfl
  | gains observer => rfl
  | changes c hc => exact h.position_change c

theorem observers (ht : h.Turns h' ns) : h.observers <+: h'.observers := by
  cases ht with
  | stays => exact List.prefix_rfl
  | gains observer => exact List.prefix_append _ _
  | changes c hc => simp only [observers_change, List.prefix_rfl]

/-- nobody is told anything, or all observers are told one change that makes a difference -/
theorem told (ht : h.Turns h' ns) :
    (ns = [] ∧ h'.seen = h.seen) ∨
      ∃ c, ns = h.notify c ∧ h'.seen = h.seen.take c ∧ h.seen.take c ≠ h.seen := by
  cases ht with
  | stays => exact .inl ⟨rfl, rfl⟩
  | gains observer => exact .inl ⟨rfl, rfl⟩
  | changes c hc => exact .inr ⟨c, rfl, h.seen_change c, hc⟩

theorem silent (ht : h.Turns h' ns) (hseen : h'.seen = h.seen) : ns = [] := by
  rcases ht.told with ⟨hns, -⟩ | ⟨c, -, hc, hne⟩
  · exact hns
  · exact absurd (hc.symm.trans hseen) hne

end Turns

end Header

namespace Item

@[simp] theorem header_mapHeader (f : Header → Header) (i : Item) : (i.mapHeader f).header = f i.header := by
  cases i with
  | type t => cases t <;> rfl
  | _ => rfl

/-- the item after a call, and the notices -/
def call (i : Item) : Call → Item × List Notice
  | .setValue v => i.setValue v
  | .setParenthesized b => i.setParenthesized b
  | .observe observer => (i.observe observer, [])

theorem turns_call (i : Item) (c : Call) : i.header.Turns (i.call c).1.header (i.call c).2 := by
  cases c with
  | setValue v =>
    rw [call, setValue, header_mapHeader]
    exact i.header.turns_setValue v
  | setParenthesized b =>
    rw [call, setParenthesized, header_mapHeader]
    exact i.header.turns_setParenthesized b
  | observe observer =>
    rw [call, observe, header_mapHeader]
    exact .gains observer

/-! ## calls in a row -/

/-- the item after all calls, and the notices of each -/
def calls (i : Item) : List Call → Item × List (List Notice)
  | [] => (i, [])
  | c :: cs =>
    let (i, ns) := i.call c
    let (i, batches) := i.calls cs
    (i, ns :: batches)

theorem calls_cons (i : Item) (c : Call) (cs : List Call) :
    i.calls (c :: cs) = (((i.call c).1.calls cs).1, (i.call c).2 :: ((i.call c).1.calls cs).2) := rfl

theorem calls_append (i : Item) (cs ds : List Call) :
    i.calls (cs ++ ds) = (((i.calls cs).1.calls ds).1, (i.calls cs).2 ++ ((i.calls cs).1.calls ds).2) := by
  induction cs generalizing i with
  | nil => rfl
  | cons c cs ih => simp [calls_cons, ih]

theorem position_calls (i : Item) (cs : List Call) : (i.calls cs).1.header.position = i.header.position := by
  induction cs generalizing i with
  | nil => rfl
  | cons c cs ih => exact (ih (i.call c).1).trans (i.turns_call c).position

theorem observers_calls (i : Item) (cs : List Call) : i.header.observers <+: (i.calls cs).1.header.observers := by
  induction cs generalizing i with
  | nil => exact List.prefix_rfl
  | cons c cs ih => exact (i.turns_call c).observers.trans (ih (i.call c).1)

end Item

/-- the changes that reach the `n`-th observer, in order -/
def received (n : Nat) (batches : List (List Notice)) : List Change :=
  batches.filterMap fun ns => ns[n]?.map Notice.change

theorem received_append (n : Nat) (as bs : List (List Notice)) :
    received n (as ++ bs) = received n as ++ received n bs :=
  List.filterMap_append

section

variable (h : Header) (c : Change) {n : Nat} (batches : List (List Notice))

@[simp] theorem received_nil_cons : received n ([] :: batches) = received n batches := rfl

theorem received_notify_cons (hn : n < h.observers.length) :
    received n (h.notify c :: batches) = c :: received n batches := by
  have hget : (h.notify c)[n]?.map Notice.change = some c := by simp [Header.notify, hn]
  simp only [received, List.filterMap_cons, hget]

theorem received_notify_cons_of_le (hn : h.observers.length ≤ n) :
    received n (h.notify c :: batches) = received n batches := by
  have hget : (h.notify c)[n]?.map Notice.change = none := by simp [Header.notify, hn]
  simp only [received, List.filterMap_cons, hget]

end

namespace Item

variable {i : Item} {m n : Nat}

theorem lt_length_observers_call (hn : n < i.header.observers.length) (c : Call) :
    n < (i.call c).1.header.observers.length :=
  Nat.lt_of_lt_of_le hn (i.turns_call c).observers.length_le

/-- an observer that has seen the header before the calls has seen it after them -/
theorem foldl_received (hn : n < i.header.observers.length) (cs : List Call) :
    (received n (i.calls cs).2).foldl Seen.take i.header.seen = (i.calls cs).1.header.seen := by
  induction cs generalizing i with
  | nil => rfl
  | cons c cs ih =>
    have hrest := ih (lt_length_observers_call hn c)
    rw [calls_cons]
    rcases (i.turns_call c).told with ⟨hns, hseen⟩ | ⟨d, hns, hseen, -⟩
    · rw [hns, received_nil_cons, ← hseen, hrest]
    · rw [hns, received_notify_cons _ _ _ hn, List.foldl_cons, ← hseen, hrest]

theorem effective_received (hn : n < i.header.observers.length) (cs : List Call) :
    Effective i.header.seen (received n (i.calls cs).2) := by
  induction cs generalizing i with
  | nil => trivial
  | cons c cs ih =>
    have hrest := ih (lt_length_observers_call hn c)
    rw [calls_cons]
    rcases (i.turns_call c).told with ⟨hns, hseen⟩ | ⟨d, hns, hseen, hne⟩
    · rw [hns, received_nil_cons, ← hseen]
      exact hrest
    · rw [hns, received_notify_cons _ _ _ hn]
      exact ⟨hne, hseen ▸ hrest⟩

/-- observers that are there from the start receive the same -/
theorem received_eq (hm : m < i.header.observers.length) (hn : n < i.header.observers.length) (cs : List Call) :
    received m (i.calls cs).2 = received n (i.calls cs).2 := by
  induction cs generalizing i with
  | nil => rfl
  | cons c cs ih =>
    have hrest := ih (lt_length_observers_call hm c) (lt_length_observers_call hn c)
    rw [calls_cons]
    rcases (i.turns_call c).told with ⟨hns, -⟩ | ⟨d, hns, -⟩
    · rw [hns, received_nil_cons, received_nil_cons, hrest]
    · rw [hns, received_notify_cons _ _ _ hm, received_notify_cons _ _ _ hn, hrest]

theorem received_suffix (hmn : m ≤ n) (i : Item) (cs : List Call) :
    received n (i.calls cs).2 <:+ received m (i.calls cs).2 := by
  induction cs generalizing i with
  | nil => exact List.suffix_rfl
  | cons c cs ih =>
    by_cases hn : n < i.header.observers.length
    · simp only [received_eq hn (Nat.lt_of_le_of_lt hmn hn), List.suffix_rfl]
    · -- the later observer is not told yet
      have hrest := ih (i.call c).1
      rw [calls_cons]
      rcases (i.turns_call c).told with ⟨hns, -⟩ | ⟨d, hns, -⟩
      · rwa [hns, received_nil_cons, received_nil_cons]
      · rw [hns, received_notify_cons_of_le _ _ _ (Nat.le_of_not_lt hn)]
        refine hrest.trans ?_
        by_cases hm : m < i.header.observers.length
        · rw [received_notify_cons _ _ _ hm]
          exact List.suffix_cons _ _
        · simp only [received_notify_cons_of_le _ _ _ (Nat.le_of_not_lt hm), List.suffix_rfl]

/-- the `n`-th notice of a call is for the `n`-th observer -/
theorem notices_calls (i : Item) (cs : List Call) :
    ∀ ns ∈ (i.calls cs).2, ns.map Notice.observer <+: (i.calls cs).1.header.observers := by
  induction cs generalizing i with
  | nil => exact fun ns hns => nomatch hns
  | cons c cs ih =>
    intro ns hns
    rw [calls_cons] at hns ⊢
    rcases List.mem_cons.1 hns with rfl | hns
    · refine List.IsPrefix.trans ?_ (observers_calls (i.call c).1 cs)
      rcases (i.turns_call c).told with ⟨hnil, -⟩ | ⟨d, hns, -⟩
      · rw [hnil]
        exact List.nil_prefix
      · have hnames : (i.header.notify d).map Notice.observer = i.header.observers := by
          simp [Header.notify, Function.comp_def]
        rw [hns, hnames]
        exact (i.turns_call c).observers
    · exact ih (i.call c).1 ns hns

/-! ## from the registration on -/

theorem header_call_observe (i : Item) (observer : String) :
    (i.call (.observe observer)).1.header = i.header.observe observer := by
  rw [call, observe, header_mapHeader]

theorem lt_length_observers_observe (i : Item) (observer : String) :
    i.header.observers.length < (i.call (.observe observer)).1.header.observers.length := by
  rw [header_call_observe, Header.observe, List.length_append]
  exact Nat.lt_succ_self _

/-- a new observer is the last one, and keeps its number -/
theorem observers_registered (i : Item) (observer : String) (after : List Call) :
    ((i.call (.observe observer)).1.calls after).1.header.observers[i.header.observers.length]? = some observer := by
  obtain ⟨later, hlater⟩ := observers_calls (i.call (.observe observer)).1 after
  rw [← hlater, List.getElem?_append_left (i.lt_length_observers_observe observer), header_call_observe, Header.observe,
    List.getElem?_concat_length]

/-- an observer receives nothing before it is registered -/
theorem received_eq_nil {cs : List Call} (hn : (i.calls cs).1.header.observers.length ≤ n) :
    received n (i.calls cs).2 = [] := by
  induction cs generalizing i with
  | nil => rfl
  | cons c cs ih =>
    have hlen : i.header.observers.length ≤ n := Nat.le_trans (observers_calls i (c :: cs)).length_le hn
    have hrest : received n ((i.call c).1.calls cs).2 = [] := ih hn
    rw [calls_cons]
    rcases (i.turns_call c).told with ⟨hns, -⟩ | ⟨d, hns, -⟩
    · rw [hns, received_nil_cons, hrest]
    · rw [hns, received_notify_cons_of_le _ _ _ hlen, hrest]

/-- what an observer receives, from its registration on -/
theorem received_registered (i : Item) (before : List Call) (observer : String) (after : List Call) :
    received (i.calls before).1.header.observers.length (i.calls (before ++ .observe observer :: after)).2 =
      received (i.calls before).1.header.observers.length
        (((i.calls before).1.call (.observe observer)).1.calls after).2 := by
  have hbefore : received (i.calls before).1.header.observers.length (i.calls before).2 = [] :=
    received_eq_nil (Nat.le_refl _)
  rw [calls_append, received_append, hbefore, List.nil_append, calls_cons]
  rfl

end Item

/-- **An observer can follow a header exactly.** A call sets what it says, and if that is what was there already, nobody
is told. In every run of calls the position stays, the `n`-th notice of a call is for the `n`-th observer, and what a
later observer receives is the end of what an earlier one receives. An observer that starts from the literal and the
flag at its registration and takes over all it receives has those of the header, after any further calls, and every
notice made a difference to it. Literals are compared by identity, doubles by their bits. -/
theorem observers_follow_header (i : Item) :
    (∀ v, (i.call (.setValue v)).1.header.seen = { i.header.seen with value := v }) ∧
    (∀ b, (i.call (.setParenthesized b)).1.header.seen = { i.header.seen with parenthesized := b }) ∧
    (∀ c, (i.call c).1.header.seen = i.header.seen → (i.call c).2 = []) ∧
    (∀ cs, (i.calls cs).1.header.position = i.header.position ∧
      (∀ ns ∈ (i.calls cs).2, ns.map Notice.observer <+: (i.calls cs).1.header.observers) ∧
      ∀ m n, m ≤ n → received n (i.calls cs).2 <:+ received m (i.calls cs).2) ∧
    ∀ before observer after,
      let start := (i.calls before).1.header
      let now := i.calls (before ++ .observe observer :: after)
      let log := received start.observers.length now.2
      now.1.header.observers[start.observers.length]? = some observer ∧
        log.foldl Seen.take start.seen = now.1.header.seen ∧ Effective start.seen log := by
  refine ⟨fun v => ?_, fun b => ?_, fun c => (i.turns_call c).silent, fun cs => ?_, ?_⟩
  · rw [Item.call, Item.setValue, Item.header_mapHeader]
    exact i.header.seen_setValue v
  · rw [Item.call, Item.setParenthesized, Item.header_mapHeader]
    exact i.header.seen_setParenthesized b
  · exact ⟨i.position_calls cs, i.notices_calls cs, fun m n hmn => Item.received_suffix hmn i cs⟩
  · intro before observer after start now log
    let registered := ((i.calls before).1.call (.observe observer)).1
    have hlt : start.observers.length < registered.header.observers.length :=
      Item.lt_length_observers_observe _ observer
    have hseen : registered.header.seen = start.seen := by rw [Item.header_call_observe, Header.seen_observe]
    have hnow : now.1 = (registered.calls after).1 := by
      show (i.calls (before ++ .observe observer :: after)).1 = _
      rw [Item.calls_append, Item.calls_cons]
    have hlog : log = received start.observers.length (registered.calls after).2 :=
      i.received_registered before observer after
    rw [hnow, hlog, ← hseen]
    exact ⟨Item.observers_registered _ observer after, Item.foldl_received hlt after,
      Item.effective_received hlt after⟩

/-- a not-a-number set again is no change, a zero of the other sign is one -/
theorem observers_follow_header_zeros :
    let nan : Value := .double ⟨0x7ff8000000000001⟩
    let zero : Value := .double ⟨0⟩
    let minusZero : Value := .double ⟨0x8000000000000000⟩
    let i : Item := .leaf { value := nan }
    let cs : List Call := [.observe "a", .setValue zero, .setValue minusZero, .observe "b", .setParenthesized true]
    ((i.call (.setValue nan)).1.header.seen = i.header.seen ∧ (i.call (.setValue nan)).2 = []) ∧
      received 0 (i.calls cs).2 = [.value zero, .value minusZero, .parenthesized true] ∧
      (0 ≤ 1 ∧ received 1 (i.calls cs).2 <:+ received 0 (i.calls cs).2) ∧
      (received 0 (i.calls cs).2).foldl Seen.take i.header.seen = ⟨minusZero, true⟩ := by
  intro nan zero minusZero i cs
  obtain ⟨-, -, hsilent, hruns, hfollow⟩ := observers_follow_header i
  have hsame : (i.call (.setValue nan)).1.header.seen = i.header.seen := by decide
  refine ⟨⟨hsame, hsilent _ hsame⟩, by decide, ⟨by decide, (hruns cs).2.2 0 1 (by decide)⟩, ?_⟩
  exact (hfollow [] "a" cs.tail).2.1

end ItemTree

import ItemTree.Proofs.Json.Skip

/-!
# Records among other members, and by place

Members that are no fields of a record leave its draft as it is (`Record.readsMembers_foreign`), so that fields may stand
anywhere between them (`Record.readsMembers_two`). In an array a field is known by its place (`Record.positional_cons`).
-/

namespace ItemTree.Json

variable {σ : Type}

/-- two results in a row, where the first error decides -/
def both {α β : Type} (a : Except ReadError α) (b : Except ReadError β) : Except ReadError (α × β) := do
  return (← a, ← b)

namespace Record

variable (r : Record σ)

/-- none of the members is a field -/
def Foreign (ms : List (String × Json)) : Prop := ∀ m ∈ ms, m.1 ∉ r.fields.map Field.name

variable {r}

theorem member_of_not_mem {key : String} (h : key ∉ r.fields.map Field.name) (s : σ) :
    r.member s key = .ok (do skipValue; return s) := by
  have hnone : (r.fields.find? fun f => f.name == key) = none := by
    rw [List.find?_eq_none]
    intro f hf hname
    exact h (List.mem_map.2 ⟨f, hf, beq_iff_eq.1 hname⟩)
  unfold member
  rw [hnone]

theorem readsMembers_foreign {ms : List (String × Json)} (h : r.Foreign ms) (s : σ) :
    ReadsMembers id r.member s ms (.ok s) := by
  induction ms with
  | nil => exact .nil s
  | cons m ms ih =>
    obtain ⟨hm, hms⟩ := List.forall_mem_cons.1 h
    have hread := (reads_skipValue m.2).map fun _ => s
    exact .cons (.of_ok (member_of_not_mem hm s) hread) (ih hms)

section

variable {α β : Type} {s : σ} {first second : String} {v w : Json} {a : Except ReadError α} {b : Except ReadError β}
  {f : α → σ} {g : α → β → σ} {xs ys zs : List (String × Json)}

/-- two fields among other members -/
theorem readsMembers_two (hfirst : Takes r.member s first v (a.map f))
    (hsecond : ∀ x, Takes r.member (f x) second w (b.map (g x))) (hxs : r.Foreign xs) (hys : r.Foreign ys)
    (hzs : r.Foreign zs) :
    ReadsMembers id r.member s (xs ++ (first, v) :: (ys ++ (second, w) :: zs))
      ((both a b).map fun p => g p.1 p.2) := by
  have hrest : ∀ x, ReadsMembers id r.member (f x) (ys ++ (second, w) :: zs) (b.map (g x)) := by
    intro x
    refine (readsMembers_foreign hys (f x)).append (f := fun _ => b.map (g x)) ?_
    rintro _ ⟨⟩
    cases b with
    | error e => exact .refused zs (hsecond x)
    | ok y => exact .cons (hsecond x) (readsMembers_foreign hzs _)
  refine (readsMembers_foreign hxs s).append (f := fun _ => (both a b).map fun p => g p.1 p.2) ?_
  rintro _ ⟨⟩
  cases a with
  | error e => exact .refused _ hfirst
  | ok x =>
    have hread := hrest x
    cases b with
    | error e => exact .cons hfirst hread
    | ok y => exact .cons hfirst hread

end

/-! ## by place -/

/-- one field, when the next element is there -/
theorem positional_cons {f : Field σ} {s : σ} {v : Json} {result : Except ReadError σ} (h : Reads (f.read s) v.chars result)
    (fs : List (Field σ)) (i : Nat) {first : Bool} {vs : List Json} {cs rest : List Char}
    (hcs : nextElement first cs = .ok (atElement (v :: vs) rest)) :
    r.positional i first (f :: fs) s cs =
      result >>= fun s' => r.positional (i + 1) false fs s' (elementChars vs ++ rest) := by
  have hv := h (elementChars vs ++ rest) (delimited_elementChars vs rest)
  rw [positional, bind_ok hcs, if_pos rfl]
  cases result with
  | error e => exact bind_error hv _
  | ok s' => exact bind_ok hv _

/-- an array with a value for each of two fields -/
theorem reads_pair {first second : Field σ} (hfields : r.fields = [first, second]) {v w : Json} {α β : Type}
    {a : Except ReadError α} {b : Except ReadError β} {f : α → σ} {g : α → β → σ}
    (hfirst : Reads (first.read r.start) v.chars (a.map f))
    (hsecond : ∀ x, Reads (second.read (f x)) w.chars (b.map (g x))) (depth : Nat) :
    Reads (r.read (depth + 1)) (array [v, w]).chars ((both a b).map fun p => g p.1 p.2) := by
  intro rest _
  have hstart := positional_cons (r := r) hfirst [second] 0 (nextElement_array [v, w] rest)
  have hnext : ∀ x, r.positional 1 false [second] (f x) (elementChars [w] ++ rest) =
      b.map (g x) >>= fun s => r.positional 2 false [] s (']' :: rest) :=
    fun x => positional_cons (hsecond x) [] 1 (nextElement_elementChars [w] rest)
  have hclose : ∀ s, r.positional 2 false [] s (']' :: rest) = .ok (s, rest) := fun _ => rfl
  have hread : r.read (depth + 1) ((array [v, w]).chars ++ rest) =
      r.positional 0 true r.fields r.start ((array [v, w]).chars.tail ++ rest) := by
    rw [chars_array]
    rfl
  rw [hread, hfields, hstart]
  cases a with
  | error e => rfl
  | ok x =>
    show r.positional 1 false [second] (f x) (elementChars [w] ++ rest) = _
    rw [hnext x]
    cases b with
    | error e => rfl
    | ok y => exact hclose _

end Record

end ItemTree.Json

import ItemTree.Json.Record
import ItemTree.Proofs.Json.Literal

/-!
# Readers on written values

`Reads r text result` says what a reader makes of a text at the front: the result with exactly the rest left, or an
error. Arrays and objects are read part by part, up to the first part that is refused:

* `reads_elements`: an array after its opening bracket, with one result for every element;
* `Takes`, `ReadsMembers`: what one member, and members in a row, make of a state;
* `ReadsMembers.reads_members`: an object after its opening brace;
* `ReadsMembers.reads_record`: the object of a record.
-/

namespace ItemTree.Json

/-! ## what a reader makes of a text -/

/-- nothing follows, or what follows a value inside an array or object -/
def Delimited (cs : List Char) : Prop := ∀ c ∈ cs.head?, c = ',' ∨ c = ']' ∨ c = '\x7d'

/-- the result of a reader on a text, whatever delimits it; a numeral could go on otherwise -/
def Reads {α : Type} (r : Reader α) (text : List Char) (result : Except ReadError α) : Prop :=
  ∀ rest, Delimited rest → r (text ++ rest) = result.map fun a => (a, rest)

theorem delimited_nil : Delimited [] := fun _ hc => nomatch hc

theorem delimited_cons {c : Char} (hc : c = ',' ∨ c = ']' ∨ c = '\x7d') (cs : List Char) : Delimited (c :: cs) := by
  intro d hd
  obtain rfl : c = d := Option.some.inj hd
  exact hc

theorem Reads.map {α β : Type} {r : Reader α} {text : List Char} {result : Except ReadError α}
    (h : Reads r text result) (f : α → β) : Reads (do return f (← r)) text (result.map f) := by
  intro rest hrest
  have hr := h rest hrest
  cases result with
  | error e => exact bind_error hr _
  | ok a => exact bind_ok hr _

theorem reads_fail {α : Type} (e : ReadError) (text : List Char) : Reads (fail e : Reader α) text (.error e) :=
  fun _ _ => rfl

theorem reads_readString (s : String) : Reads readString (literalChars s) (.ok s) :=
  fun rest _ => stringTail_append s rest

theorem reads_readBool (b : Bool) : Reads readBool (boolChars b) (.ok b) := by
  intro rest _
  cases b <;> rfl

/-- a text that holds a value and nothing else -/
theorem Reads.readAll {α : Type} {r : Reader α} {j : Json} {result : Except ReadError α} (h : Reads r j.chars result) :
    readAll r j.text = result := by
  have hr := h [] delimited_nil
  rw [List.append_nil] at hr
  unfold Json.readAll text
  rw [String.toList_ofList, hr]
  cases result <;> rfl

/-! ## arrays -/

/-- neither a blank nor the end of an array -/
def StartsValue (c : Char) : Prop := isBlank c = false ∧ c ≠ ']'

theorem startsValue_of_isDigit {c : Char} (hc : c.isDigit = true) : StartsValue c := by
  refine ⟨Bool.eq_false_iff.2 fun hblank => ?_, fun hclose => ?_⟩
  · simp only [isBlank, Bool.or_eq_true, beq_iff_eq] at hblank
    rcases hblank with ((rfl | rfl) | rfl) | rfl <;> exact absurd hc (by decide)
  · subst hclose
    exact absurd hc (by decide)

theorem numeral_chars_eq_cons (n : Numeral) : ∃ c cs, n.chars = c :: cs ∧ StartsValue c := by
  obtain ⟨d, ds, hd⟩ := List.exists_cons_of_ne_nil (Nat.toDigits_ne_nil (n := n.whole) (b := 10))
  have hdigit : d.isDigit = true :=
    Nat.isDigit_of_mem_toDigits (by decide) (by decide) (hd ▸ List.mem_cons_self)
  unfold Numeral.chars Numeral.wholeChars
  rw [hd]
  cases n.negative with
  | true => exact ⟨'-', _, rfl, by decide, by decide⟩
  | false => exact ⟨d, _, rfl, startsValue_of_isDigit hdigit⟩

theorem chars_eq_cons (j : Json) : ∃ c cs, j.chars = c :: cs ∧ StartsValue c := by
  cases j with
  | null => exact ⟨'n', _, rfl, by decide, by decide⟩
  | bool b =>
    cases b with
    | true => exact ⟨'t', _, rfl, by decide, by decide⟩
    | false => exact ⟨'f', _, rfl, by decide, by decide⟩
  | number n => exact numeral_chars_eq_cons n
  | string s => exact ⟨'"', _, rfl, by decide, by decide⟩
  | array vs => cases vs <;> exact ⟨'[', _, rfl, by decide, by decide⟩
  | object ms => cases ms <;> exact ⟨'\x7b', _, rfl, by decide, by decide⟩

theorem skipBlanks_cons {c : Char} (hc : isBlank c = false) (cs : List Char) : skipBlanks (c :: cs) = c :: cs :=
  List.dropWhile_cons_of_neg (by simp [hc])

theorem chars_array (vs : List Json) : (array vs).chars = '[' :: (array vs).chars.tail := by
  cases vs <;> simp [chars]

/-- where the elements `vs` begin, or the closing bracket when there are none -/
def atElement (vs : List Json) (rest : List Char) : Bool × List Char :=
  match vs with
  | [] => (false, ']' :: rest)
  | v :: vs => (true, v.chars ++ (elementChars vs ++ rest))

theorem nextElement_array (vs : List Json) (rest : List Char) :
    nextElement true ((array vs).chars.tail ++ rest) = .ok (atElement vs rest) := by
  cases vs with
  | nil => rfl
  | cons v vs =>
    obtain ⟨c, cs, hv, hblank, hclose⟩ := chars_eq_cons v
    have htext : (array (v :: vs)).chars.tail ++ rest = c :: (cs ++ (elementChars vs ++ rest)) := by
      simp [chars, hv]
    rw [htext, nextElement, skipBlanks_cons hblank]
    simp [atElement, hv]

theorem nextElement_elementChars (vs : List Json) (rest : List Char) :
    nextElement false (elementChars vs ++ rest) = .ok (atElement vs rest) := by
  cases vs with
  | nil => rfl
  | cons v vs =>
    obtain ⟨c, cs, hv, hblank, hclose⟩ := chars_eq_cons v
    have htext : elementChars (v :: vs) ++ rest = ',' :: c :: (cs ++ (elementChars vs ++ rest)) := by
      simp [elementChars, hv]
    rw [htext, nextElement, skipBlanks_cons (by decide)]
    simp [skipBlanks_cons hblank, atElement, hv, hclose]

theorem delimited_elementChars (vs : List Json) (rest : List Char) : Delimited (elementChars vs ++ rest) := by
  cases vs with
  | nil => exact delimited_cons (by decide) _
  | cons v vs => exact delimited_cons (by decide) _

theorem length_lt_elementChars (vs : List Json) : vs.length < (elementChars vs).length := by
  induction vs with
  | nil => decide
  | cons v vs ih =>
    simp only [elementChars, List.length_cons, List.length_append]
    omega

theorem length_lt_array (vs : List Json) : vs.length < (array vs).chars.length := by
  cases vs with
  | nil => decide
  | cons v vs =>
    have := length_lt_elementChars vs
    simp only [chars, List.length_cons, List.length_append]
    omega

section

variable {α β : Type} {read : Reader α} {f : β → Except ReadError α} {enc : β → Json} {xs : List β}

theorem elementLoop_eq (hread : ∀ x ∈ xs, Reads read (enc x).chars (f x)) {fuel : Nat} (hf : xs.length < fuel)
    {first : Bool} {cs rest : List Char} (hcs : nextElement first cs = .ok (atElement (xs.map enc) rest)) :
    elementLoop read fuel first cs = (xs.mapM f).map fun as => (as, rest) := by
  -- every turn begins where the one before has left the text
  induction xs generalizing fuel first cs with
  | nil =>
    obtain ⟨k, rfl⟩ : ∃ k, fuel = k + 1 := ⟨fuel - 1, by omega⟩
    rw [elementLoop, bind_ok hcs]
    rfl
  | cons x xs ih =>
    obtain ⟨k, rfl⟩ : ∃ k, fuel = k + 1 := ⟨fuel - 1, by omega⟩
    have hx := hread x List.mem_cons_self _ (delimited_elementChars (xs.map enc) rest)
    have hxs := ih (fun y hy => hread y (List.mem_cons_of_mem _ hy)) (show xs.length < k by simpa using hf)
      (nextElement_elementChars (xs.map enc) rest)
    rw [elementLoop, bind_ok hcs, if_pos rfl, List.mapM_cons]
    cases hfx : f x with
    | error e =>
      rw [hfx] at hx
      exact bind_error hx _
    | ok a =>
      rw [hfx] at hx
      rw [bind_ok hx]
      cases hfs : xs.mapM f with
      | error e =>
        rw [hfs] at hxs
        exact bind_error hxs _
      | ok as =>
        rw [hfs] at hxs
        exact bind_ok hxs _

/-- an array after its opening bracket: what its elements give, or the error of the first that is refused -/
theorem reads_elements (hread : ∀ x ∈ xs, Reads read (enc x).chars (f x)) :
    Reads (elements read) (array (xs.map enc)).chars.tail (xs.mapM f) := by
  intro rest _
  have hlen := length_lt_array (xs.map enc)
  refine elementLoop_eq hread ?_ (nextElement_array (xs.map enc) rest)
  simp only [List.length_map] at hlen
  simp only [List.length_append, List.length_tail]
  omega

end

/-! ## objects -/

theorem chars_object (ms : List (String × Json)) : (object ms).chars = '\x7b' :: (object ms).chars.tail := by
  cases ms <;> simp [chars]

/-- where the key of the first of `ms` begins, or the closing brace when there are none -/
def atKey (ms : List (String × Json)) (rest : List Char) : Bool × List Char :=
  match ms with
  | [] => (false, '\x7d' :: rest)
  | (k, v) :: ms => (true, tailChars k.toList ++ ':' :: (v.chars ++ (memberChars ms ++ rest)))

theorem nextKey_object (ms : List (String × Json)) (rest : List Char) :
    nextKey true ((object ms).chars.tail ++ rest) = .ok (atKey ms rest) := by
  cases ms with
  | nil => rfl
  | cons m ms =>
    obtain ⟨k, v⟩ := m
    have htext : (object ((k, v) :: ms)).chars.tail ++ rest = '"' :: (atKey ((k, v) :: ms) rest).2 := by
      simp [chars, literalChars, atKey]
    rw [htext]
    rfl

theorem nextKey_memberChars (ms : List (String × Json)) (rest : List Char) :
    nextKey false (memberChars ms ++ rest) = .ok (atKey ms rest) := by
  cases ms with
  | nil => rfl
  | cons m ms =>
    obtain ⟨k, v⟩ := m
    have htext : memberChars ((k, v) :: ms) ++ rest = ',' :: '"' :: (atKey ((k, v) :: ms) rest).2 := by
      simp [memberChars, literalChars, atKey]
    rw [htext]
    rfl

theorem delimited_memberChars (ms : List (String × Json)) (rest : List Char) : Delimited (memberChars ms ++ rest) := by
  cases ms with
  | nil => exact delimited_cons (by decide) _
  | cons m ms => exact delimited_cons (by decide) _

theorem length_lt_memberChars (ms : List (String × Json)) : ms.length < (memberChars ms).length := by
  induction ms with
  | nil => decide
  | cons m ms ih =>
    simp only [memberChars, List.length_cons, List.length_append]
    omega

theorem length_lt_object (ms : List (String × Json)) : ms.length < (object ms).chars.length := by
  cases ms with
  | nil => decide
  | cons m ms =>
    have := length_lt_memberChars ms
    simp only [chars, List.length_cons, List.length_append]
    omega

section

variable {κ σ : Type} {key : Reader κ} {name : String → κ} {member : σ → κ → Except ReadError (Reader σ)}

/-- what a member makes of a state: its key is refused, or its value is read -/
def Takes (member : σ → κ → Except ReadError (Reader σ)) (s : σ) (k : κ) (v : Json) (result : Except ReadError σ) :
    Prop :=
  match member s k with
  | .error e => result = .error e
  | .ok r => Reads r v.chars result

theorem Takes.of_ok {s : σ} {k : κ} {v : Json} {r : Reader σ} {result : Except ReadError σ} (hm : member s k = .ok r)
    (h : Reads r v.chars result) : Takes member s k v result := by
  unfold Takes
  rw [hm]
  exact h

/-- what members in a row make of a state, up to the first that is refused -/
inductive ReadsMembers (name : String → κ) (member : σ → κ → Except ReadError (Reader σ)) :
    σ → List (String × Json) → Except ReadError σ → Prop
  | nil (s : σ) : ReadsMembers name member s [] (.ok s)
  | cons {s s' : σ} {k : String} {v : Json} {ms : List (String × Json)} {result : Except ReadError σ} :
    Takes member s (name k) v (.ok s') → ReadsMembers name member s' ms result →
      ReadsMembers name member s ((k, v) :: ms) result
  | refused {s : σ} {k : String} {v : Json} {e : ReadError} (ms : List (String × Json)) :
    Takes member s (name k) v (.error e) → ReadsMembers name member s ((k, v) :: ms) (.error e)

theorem memberLoop_cons (hkey : ∀ k rest, key (tailChars k.toList ++ rest) = .ok (name k, rest)) {s : σ} {k : String}
    {v : Json} {result : Except ReadError σ} (h : Takes member s (name k) v result) {fuel : Nat} {first : Bool}
    {cs rest : List Char} (hrest : Delimited rest)
    (hcs : nextKey first cs = .ok (true, tailChars k.toList ++ ':' :: (v.chars ++ rest))) :
    memberLoop key member (fuel + 1) first s cs = result >>= fun s' => memberLoop key member fuel false s' rest := by
  rw [memberLoop, bind_ok hcs, if_pos rfl, bind_ok (hkey k _)]
  unfold Takes at h
  cases hm : member s (name k) with
  | error e =>
    simp only [hm] at h
    rw [h]
    rfl
  | ok value =>
    simp only [hm] at h
    have hv := h rest hrest
    have hcolon : colon (':' :: (v.chars ++ rest)) = .ok ((), v.chars ++ rest) := rfl
    rw [bind_ok (a := value) rfl, bind_ok hcolon]
    cases result with
    | error e => exact bind_error hv _
    | ok s' => exact bind_ok hv _

namespace ReadsMembers

theorem single {s : σ} {k : String} {v : Json} {result : Except ReadError σ} (h : Takes member s (name k) v result) :
    ReadsMembers name member s [(k, v)] result := by
  cases result with
  | error e => exact .refused [] h
  | ok s' => exact .cons h (.nil s')

theorem append {s : σ} {ms ns : List (String × Json)} {result : Except ReadError σ} {f : σ → Except ReadError σ}
    (h : ReadsMembers name member s ms result)
    (hf : ∀ s', result = .ok s' → ReadsMembers name member s' ns (f s')) :
    ReadsMembers name member s (ms ++ ns) (result >>= f) := by
  induction h with
  | nil s => exact hf s rfl
  | cons hv _ ih => exact .cons hv (ih hf)
  | refused ms hv => exact .refused (ms ++ ns) hv

theorem memberLoop_eq (hkey : ∀ k rest, key (tailChars k.toList ++ rest) = .ok (name k, rest)) {s : σ}
    {ms : List (String × Json)} {result : Except ReadError σ} (h : ReadsMembers name member s ms result) {fuel : Nat}
    (hf : ms.length < fuel) {first : Bool} {cs rest : List Char} (hcs : nextKey first cs = .ok (atKey ms rest)) :
    memberLoop key member fuel first s cs = result.map fun s' => (s', rest) := by
  obtain ⟨n, rfl⟩ : ∃ n, fuel = n + 1 := ⟨fuel - 1, by omega⟩
  induction h generalizing n first cs with
  | nil s =>
    rw [memberLoop, bind_ok hcs]
    rfl
  | @cons s s' k v ms result hv _ ih =>
    obtain ⟨m, rfl⟩ : ∃ m, n = m + 1 := ⟨n - 1, by simp at hf; omega⟩
    rw [memberLoop_cons hkey hv (delimited_memberChars ms rest) hcs]
    exact ih (nextKey_memberChars ms rest) m (by simpa using hf)
  | refused ms hv =>
    rw [memberLoop_cons hkey hv (delimited_memberChars ms rest) hcs]
    rfl

/-- an object after its opening brace -/
theorem reads_members (hkey : ∀ k rest, key (tailChars k.toList ++ rest) = .ok (name k, rest)) {s : σ}
    {ms : List (String × Json)} {result : Except ReadError σ} (h : ReadsMembers name member s ms result) :
    Reads (members key member s) (object ms).chars.tail result := by
  intro rest _
  have hlen := length_lt_object ms
  refine h.memberLoop_eq hkey ?_ (nextKey_object ms rest)
  simp only [List.length_append, List.length_tail]
  omega

/-- the object of a record, whose required fields are set in the end -/
theorem reads_record {r : Record σ} {ms : List (String × Json)} {result : Except ReadError σ}
    (h : ReadsMembers id r.member r.start ms result) (hset : ∀ s, result = .ok s → r.missing? s = none) (depth : Nat) :
    Reads (r.read (depth + 1)) (object ms).chars result := by
  intro rest hrest
  have hms := h.reads_members stringTail_append rest hrest
  have hnamed : r.named ((object ms).chars.tail ++ rest) = result.map fun s => (s, rest) := by
    cases result with
    | error e => exact bind_error hms _
    | ok s =>
      rw [Record.named, bind_ok hms, hset s rfl]
      rfl
  rw [← hnamed, chars_object]
  rfl

end ReadsMembers

end

end ItemTree.Json

import ItemTree.Proofs.Json.Numeral

/-!
# A written value is passed over to its end

A value that nobody asks for is passed over whatever it is: any nesting, any numbers, any strings. The reader stops
exactly where the value ends (`reads_skipValue`). Each bracket of a text needs one character, so that the length of the
text is depth enough (`reads_skipNested`).
-/

namespace ItemTree.Json

/-! ## induction -/

variable {P : Json → Prop}

/-- induction over a value with its elements and members -/
@[elab_as_elim]
theorem ind (null : P .null) (bool : ∀ b, P (.bool b)) (number : ∀ n, P (.number n)) (string : ∀ s, P (.string s))
    (array : ∀ vs, (∀ v ∈ vs, P v) → P (.array vs)) (object : ∀ ms, (∀ m ∈ ms, P m.2) → P (.object ms)) (j : Json) :
    P j := by
  -- the recursor has one motive each for values, elements, members and one member
  refine @Json.rec P (fun vs => ∀ v ∈ vs, P v) (fun ms => ∀ m ∈ ms, P m.2) (fun m => P m.2) null bool number string
    array object ?_ ?_ ?_ ?_ (fun _ _ hv => hv) j
  · exact fun v hv => nomatch hv
  · exact fun v vs hv hvs => List.forall_mem_cons.2 ⟨hv, hvs⟩
  · exact fun m hm => nomatch hm
  · exact fun m ms hm hms => List.forall_mem_cons.2 ⟨hm, hms⟩

/-! ## strings -/

/-- a character stands as it is, or as an escape that is passed over -/
theorem escapeChar_skip (c : Char) :
    (escapeChar c = [c] ∧ c ≠ '"' ∧ c ≠ '\\' ∧ ¬ c.toNat < 0x20) ∨
      ∃ e, escapeChar c = '\\' :: e ∧ ∀ rest, skipEscape (e ++ rest) = .ok ((), rest) := by
  rcases escapeChar_forms c with hc | ⟨x, hu, hx, hc⟩ | ⟨hcontrol, hc⟩
  · exact .inl hc
  · refine .inr ⟨[x], hc, fun rest => ?_⟩
    rw [List.singleton_append, skipEscape, hx]
    · rfl
    · exact hu
  · exact .inr ⟨_, hc, fun rest => map_ok (hexUnit_hexPair hcontrol rest) _⟩

theorem skipLiteralTail_append (s : List Char) {fuel : Nat} (hf : s.length < fuel) (rest : List Char) :
    skipLiteralTail fuel (tailChars s ++ rest) = .ok ((), rest) := by
  induction s generalizing fuel with
  | nil =>
    obtain ⟨f, rfl⟩ : ∃ f, fuel = f + 1 := ⟨fuel - 1, by omega⟩
    rfl
  | cons c s ih =>
    obtain ⟨f, rfl⟩ : ∃ f, fuel = f + 1 := ⟨fuel - 1, by simp at hf; omega⟩
    have hs : skipLiteralTail f (tailChars s ++ rest) = .ok ((), rest) := ih (by simpa using hf)
    rw [tailChars_cons, List.append_assoc]
    rcases escapeChar_skip c with ⟨hc, hquote, hback, hcontrol⟩ | ⟨e, hc, he⟩
    · rw [hc, List.singleton_append, skipLiteralTail]
      · rw [if_neg hcontrol, hs]
      · exact hquote
      · exact hback
    · rw [hc, List.cons_append, skipLiteralTail, he]
      exact hs

theorem skipString_append (s : String) (rest : List Char) :
    skipString (tailChars s.toList ++ rest) = .ok ((), rest) := by
  have hlen := length_lt_length_tailChars s.toList
  exact skipLiteralTail_append s.toList (by rw [List.length_append]; omega) rest

/-! ## values -/

theorem Reads.discard {α : Type} {r : Reader α} {text : List Char} {a : α} (h : Reads r text (.ok a)) :
    Reads (discard r) text (.ok ()) :=
  fun rest hrest => map_ok (h rest hrest) _

theorem length_lt_elementChars_of_mem {vs : List Json} {v : Json} (hv : v ∈ vs) :
    v.chars.length < (elementChars vs).length := by
  induction vs with
  | nil => exact nomatch hv
  | cons w vs ih =>
    simp only [elementChars, List.length_cons, List.length_append]
    rcases List.mem_cons.1 hv with rfl | hv
    · omega
    · have := ih hv
      omega

theorem length_lt_array_of_mem {vs : List Json} {v : Json} (hv : v ∈ vs) :
    v.chars.length < (array vs).chars.length := by
  -- the opening bracket is as long as the comma before a further element
  have hlen := length_lt_elementChars_of_mem hv
  cases vs with
  | nil => exact nomatch hv
  | cons w vs => exact hlen

theorem length_lt_memberChars_of_mem {ms : List (String × Json)} {m : String × Json} (hm : m ∈ ms) :
    m.2.chars.length < (memberChars ms).length := by
  induction ms with
  | nil => exact nomatch hm
  | cons w ms ih =>
    simp only [memberChars, List.length_cons, List.length_append]
    rcases List.mem_cons.1 hm with rfl | hm
    · omega
    · have := ih hm
      omega

theorem length_lt_object_of_mem {ms : List (String × Json)} {m : String × Json} (hm : m ∈ ms) :
    m.2.chars.length < (object ms).chars.length := by
  have hlen := length_lt_memberChars_of_mem hm
  cases ms with
  | nil => exact nomatch hm
  | cons w ms => exact hlen

theorem startsNumeral_chars (n : Numeral) : ∃ c cs, n.chars = c :: cs ∧ startsNumeral c = true := by
  unfold Numeral.chars
  cases n.negative with
  | true => exact ⟨'-', _, rfl, by decide⟩
  | false =>
    obtain ⟨ds, hds, -⟩ := Digits.exists_digits n.whole
    rw [Numeral.wholeChars, hds]
    refine ⟨ds.first.char, _, rfl, ?_⟩
    rw [startsNumeral, Digit.ofChar?_char, Option.isSome_some, Bool.or_true]

theorem ne_of_startsNumeral {c : Char} (hc : startsNumeral c = true) : ∀ d, startsNumeral d = false → c ≠ d := by
  rintro d hd rfl
  rw [hc] at hd
  cases hd

theorem isBlank_of_startsNumeral {c : Char} (hc : startsNumeral c = true) : isBlank c = false := by
  have hne := ne_of_startsNumeral hc
  simp [isBlank, hne ' ' rfl, hne '\n' rfl, hne '\t' rfl, hne '\r' rfl]

theorem skipNested_of_startsNumeral {c : Char} (hc : startsNumeral c = true) (depth : Nat) (cs : List Char) :
    skipNested depth (c :: cs) = (discard (numeral .malformed) : Reader Unit) (c :: cs) := by
  have hne := ne_of_startsNumeral hc
  unfold skipNested
  rw [skipBlanks_cons (isBlank_of_startsNumeral hc)]
  -- no other value begins with a digit or a minus sign
  simp [hne 'n' rfl, hne 't' rfl, hne 'f' rfl, hne '"' rfl, hne '[' rfl, hne '\x7b' rfl, hc]

theorem reads_skipNested_number (n : Numeral) (depth : Nat) : Reads (skipNested depth) n.chars (.ok ()) := by
  intro rest hrest
  obtain ⟨c, cs, hchars, hstart⟩ := startsNumeral_chars n
  rw [← (reads_numeral .malformed n).discard rest hrest, hchars]
  exact skipNested_of_startsNumeral hstart depth (cs ++ rest)

theorem reads_skipNested_array {vs : List Json} {depth : Nat}
    (hvs : ∀ v ∈ vs, Reads (skipNested depth) v.chars (.ok ())) :
    Reads (skipNested (depth + 1)) (array vs).chars (.ok ()) := by
  intro rest hrest
  have hread : Reads (elements (skipNested depth)) (array (vs.map id)).chars.tail (vs.mapM fun _ => .ok ()) :=
    reads_elements hvs
  have hunits : vs.mapM (fun _ => (.ok () : Except ReadError Unit)) = .ok (vs.map fun _ => ()) := List.mapM_pure
  rw [List.map_id, hunits] at hread
  rw [← hread.discard rest hrest, chars_array]
  rfl

theorem reads_skipNested_object {ms : List (String × Json)} {depth : Nat}
    (hms : ∀ m ∈ ms, Reads (skipNested depth) m.2.chars (.ok ())) :
    Reads (skipNested (depth + 1)) (object ms).chars (.ok ()) := by
  intro rest hrest
  have hread : ReadsMembers (fun _ => ()) (fun _ _ => .ok (skipNested depth)) () ms (.ok ()) := by
    induction ms with
    | nil => exact .nil ()
    | cons m ms ih =>
      obtain ⟨hm, hms⟩ := List.forall_mem_cons.1 hms
      exact .cons (.of_ok rfl hm) (ih hms)
  rw [← hread.reads_members (fun k => skipString_append k) rest hrest, chars_object]
  rfl

/-- a value is passed over to its end; every bracket takes a character of its own, so that its length is depth enough -/
theorem reads_skipNested (j : Json) {depth : Nat} (hd : j.chars.length ≤ depth) :
    Reads (skipNested depth) j.chars (.ok ()) := by
  induction j using Json.ind generalizing depth with
  | null =>
    intro rest _
    cases depth <;> rfl
  | bool b =>
    intro rest _
    cases b <;> cases depth <;> rfl
  | number n => exact reads_skipNested_number n depth
  | string s =>
    intro rest _
    unfold skipNested
    exact skipString_append s rest
  | array vs ih =>
    have hlen := length_lt_array vs
    obtain ⟨d, rfl⟩ : ∃ d, depth = d + 1 := ⟨depth - 1, by omega⟩
    refine reads_skipNested_array fun v hv => ih v hv ?_
    have := length_lt_array_of_mem hv
    omega
  | object ms ih =>
    have hlen := length_lt_object ms
    obtain ⟨d, rfl⟩ : ∃ d, depth = d + 1 := ⟨depth - 1, by omega⟩
    refine reads_skipNested_object fun m hm => ih m hm ?_
    have := length_lt_object_of_mem hm
    omega

/-- a value is passed over to its end, whatever it is -/
theorem reads_skipValue (j : Json) : Reads skipValue j.chars (.ok ()) :=
  fun rest hrest => reads_skipNested j (by simp) rest hrest

end ItemTree.Json

import ItemTree.Proofs.Json.Number
import ItemTree.Proofs.Json.Record
import ItemTree.Value.Json

/-!
# JSON texts of literals and positions

A literal has no mark of its variant in its JSON text, so that the shape of the text alone brings it back. Only numbers
are in doubt: an integer is one as long as 64 signed bits hold it, and the text of a double always shows a point or an
exponent (`Style.interchange_isSome`). The fields of a position take words only.

* `Value.parse_toJson`, `Value.parse_number`: what comes of the text of a literal and of any numeral;
* `Position.Form`: the texts in which a position has given values in its fields;
* `Position.parse_form`: what comes of them.
-/

namespace ItemTree

open Json (Reads Takes ReadsMembers IsExact IsWord wordOf both)

namespace Style

theorem layoutPositional_isSome {s : Style} (hs : s.keepPoint = true) (negative : Bool) (d : Decimal) :
    (s.layoutPositional negative d).fraction.isSome := by
  simp only [layoutPositional, hs, Bool.and_true]
  split
  · rfl
  · next hsome => exact Option.isSome_iff_ne_none.2 (by simpa using hsome)

/-- a double is written with a point or an exponent, also if it is a whole number -/
theorem interchange_isSome (d : Double) :
    (interchange.numeral d).fraction.isSome ∨ (interchange.numeral d).exponent.isSome := by
  unfold numeral
  split
  · exact .inl rfl
  · simp only
    split
    · exact .inl (layoutPositional_isSome rfl _ _)
    · exact .inr rfl

end Style

namespace Value

/-! ## literals -/

/-- a scalar is judged after it was read as a value -/
theorem parse_scalar {j : Json} {v : Value} (hread : Reads (Json.read Json.nestingLimit) j.chars (.ok j))
    (hv : ofJson? j = some v) : parse j.text = .ok v := by
  have hr : Reads read j.chars (.ok v) := by
    intro rest hrest
    rw [read, Json.bind_ok (hread rest hrest), hv]
    rfl
  exact hr.readAll

theorem reads_null (depth : Nat) : Reads (Json.read depth) Json.null.chars (.ok .null) := by
  intro rest _
  cases depth <;> rfl

theorem reads_bool (b : Bool) (depth : Nat) : Reads (Json.read depth) (Json.bool b).chars (.ok (.bool b)) := by
  intro rest _
  cases b <;> cases depth <;> rfl

theorem reads_string (s : String) (depth : Nat) : Reads (Json.read depth) (Json.string s).chars (.ok (.string s)) := by
  intro rest _
  unfold Json.read
  exact Json.map_ok (Json.stringTail_append s rest) _

/-- a numeral is the literal of its number -/
theorem parse_number (n : Numeral) : parse (Json.number n).text =
    match Json.Number.ofNumeral? n with
    | some v => .ok (ofNumber v)
    | none => .error .malformed := by
  have hread := Json.reads_read_number n Json.nestingLimit
  unfold Json.bounded at hread
  cases hn : Json.Number.ofNumeral? n with
  | some v =>
    rw [hn] at hread
    refine parse_scalar hread ?_
    rw [ofJson?, hn, Option.map_some]
  | none =>
    rw [hn] at hread
    have hr : Reads read n.chars (.error .malformed) := fun rest hrest => Json.bind_error (hread rest hrest) _
    exact Reads.readAll (j := .number n) hr

theorem parse_number_ne_integer {n : Numeral} (hn : Json.Number.ofNumeral? n = n.toDouble?.map .double) (m : Int64) :
    parse (Json.number n).text ≠ .ok (.integer m) := by
  rw [parse_number, hn]
  cases n.toDouble? with
  | none => exact fun h => nomatch h
  | some d => exact fun h => nomatch h

theorem parse_integer {n : Int} (hlow : -2 ^ 63 ≤ n) (hhigh : n < 2 ^ 63) :
    parse (Json.integer n).text = .ok (.integer (Int64.ofInt n)) := by
  have hexact : IsExact n := ⟨hlow, by omega⟩
  have hfits : n < Int.pow 2 63 := hhigh
  rw [Json.integer, parse_number, Json.Number.ofNumeral?_ofInt hexact]
  simp only [ofNumber, if_pos hfits]

theorem parse_integer_ne_integer {n : Int} (hn : ¬(-2 ^ 63 ≤ n ∧ n < 2 ^ 63)) (m : Int64) :
    parse (Json.integer n).text ≠ .ok (.integer m) := by
  by_cases hexact : IsExact n
  · -- beyond the signed integers, but not beyond the unsigned ones
    have hfits : ¬ n < Int.pow 2 63 := fun h => hn ⟨hexact.1, h⟩
    rw [Json.integer, parse_number, Json.Number.ofNumeral?_ofInt hexact]
    simp only [ofNumber, if_neg hfits]
    exact fun h => nomatch h
  · exact parse_number_ne_integer (Json.Number.ofNumeral?_of_not_exact hexact) m

theorem parse_toJson {v : Value} (hv : ∀ d, v ≠ .double d) : parse v.toJson.text = .ok v := by
  cases v with
  | null => exact parse_scalar (reads_null _) rfl
  | bool b => exact parse_scalar (reads_bool b _) rfl
  | string s => exact parse_scalar (reads_string s _) rfl
  | double d => exact absurd rfl (hv d)
  | integer n =>
    have hlow := n.le_toInt
    have hhigh := n.toInt_lt
    rw [toJson, parse_integer hlow hhigh, Int64.ofInt_toInt]

theorem parse_double_of_not_isFinite {d : Double} (hd : d.isFinite = false) :
    parse (toJson (.double d)).text = .ok .null := by
  rw [toJson, Json.double, hd]
  exact parse_scalar (reads_null _) rfl

theorem parse_double_ne_integer {d : Double} (hd : d.isFinite = true) (m : Int64) :
    parse (toJson (.double d)).text ≠ .ok (.integer m) := by
  rw [toJson, Json.double, if_pos hd]
  exact parse_number_ne_integer (Json.Number.ofNumeral?_of_isSome (Style.interchange_isSome d)) m

end Value

/-! ## positions -/

namespace Position

/-- a position is written as an object with its two fields in either order, among any other members, or as an array -/
inductive Form (line column : Json) : Json → Prop
  | lineFirst (xs ys zs : List (String × Json)) (hxs : record.Foreign xs) (hys : record.Foreign ys)
      (hzs : record.Foreign zs) : Form line column (.object (xs ++ ("line", line) :: (ys ++ ("column", column) :: zs)))
  | columnFirst (xs ys zs : List (String × Json)) (hxs : record.Foreign xs) (hys : record.Foreign ys)
      (hzs : record.Foreign zs) : Form line column (.object (xs ++ ("column", column) :: (ys ++ ("line", line) :: zs)))
  | array : Form line column (.array [line, column])

theorem form_toJson (p : Position) : Form (.integer p.line.toNat) (.integer p.column.toNat) p.toJson :=
  .lineFirst [] [] [] (fun _ hm => nomatch hm) (fun _ hm => nomatch hm) fun _ hm => nomatch hm

/-! ## fields -/

theorem member_line {d : Draft} (hd : d.line = none) :
    record.member d "line" = .ok (do return { d with line := some (← Json.readWord) }) := by
  simp [record, Json.Record.member, hd]

theorem member_column {d : Draft} (hd : d.column = none) :
    record.member d "column" = .ok (do return { d with column := some (← Json.readWord) }) := by
  simp [record, Json.Record.member, hd]

theorem takes_line (n : Int) {d : Draft} (hd : d.line = none) :
    Takes record.member d "line" (.integer n) ((wordOf n).map fun w => { d with line := some w }) :=
  .of_ok (member_line hd) ((Json.reads_readWord n).map _)

theorem takes_column (n : Int) {d : Draft} (hd : d.column = none) :
    Takes record.member d "column" (.integer n) ((wordOf n).map fun w => { d with column := some w }) :=
  .of_ok (member_column hd) ((Json.reads_readWord n).map _)

/-! ## pairs of words -/

theorem both_of_isWord {m n : Int} (hm : IsWord m) (hn : IsWord n) :
    both (wordOf m) (wordOf n) = .ok (UInt32.ofNat m.toNat, UInt32.ofNat n.toNat) := by
  rw [Json.wordOf_of_isWord hm, Json.wordOf_of_isWord hn]
  rfl

theorem isWord_of_both {m n : Int} {f : UInt32 × UInt32 → Position} {p : Position}
    (h : (both (wordOf m) (wordOf n)).map f = .ok p) : IsWord m ∧ IsWord n := by
  cases hm : wordOf m with
  | error e =>
    rw [hm] at h
    cases h
  | ok w =>
    cases hn : wordOf n with
    | error e =>
      rw [hm, hn] at h
      cases h
    | ok w' => exact ⟨Json.isWord_of_wordOf hm, Json.isWord_of_wordOf hn⟩

/-- of two exact integers, the first that is no word is refused -/
theorem both_of_isExact {m n : Int} (hm : IsExact m) (hn : IsExact n) (h : ¬(IsWord m ∧ IsWord n)) :
    ∃ k, (k = m ∨ k = n) ∧ ¬ IsWord k ∧ both (wordOf m) (wordOf n) = .error (.refused (.outOfRange k "u32")) := by
  by_cases hword : IsWord m
  · have hother : ¬ IsWord n := fun hn => h ⟨hword, hn⟩
    refine ⟨n, .inr rfl, hother, ?_⟩
    rw [Json.wordOf_of_isWord hword, Json.wordOf_of_isExact hn hother]
    rfl
  · refine ⟨m, .inl rfl, hword, ?_⟩
    rw [Json.wordOf_of_isExact hm hword]
    rfl

/-! ## forms -/

theorem parse_of_reads {j : Json} {result : Except Json.ReadError (UInt32 × UInt32)} (draft : UInt32 × UInt32 → Draft)
    (h : Reads (record.read Json.nestingLimit) j.chars (result.map draft)) :
    parse j.text = result.map fun ws => ⟨(draft ws).line.getD 0, (draft ws).column.getD 0⟩ := by
  have hread := h.map fun d => (⟨d.line.getD 0, d.column.getD 0⟩ : Position)
  rw [parse, (show Reads read j.chars _ from hread).readAll]
  cases result <;> rfl

/-- members that fill both fields -/
theorem parse_of_readsMembers {ms : List (String × Json)} {result : Except Json.ReadError (UInt32 × UInt32)}
    {line column : UInt32 × UInt32 → UInt32}
    (h : ReadsMembers id record.member {} ms (result.map fun ws => ⟨some (line ws), some (column ws)⟩)) :
    parse (Json.object ms).text = result.map fun ws => ⟨line ws, column ws⟩ := by
  refine parse_of_reads (fun ws => ⟨some (line ws), some (column ws)⟩) (h.reads_record (fun d hd => ?_) _)
  cases result with
  | error e => cases hd
  | ok ws =>
    obtain rfl := Except.ok.inj hd
    rfl

/-- the words of a position, read in one order or the other -/
theorem parse_form {a b : Int} {j : Json} (h : Form (.integer a) (.integer b) j) :
    parse j.text = (both (wordOf a) (wordOf b)).map (fun ws => ⟨ws.1, ws.2⟩) ∨
      parse j.text = (both (wordOf b) (wordOf a)).map fun ws => ⟨ws.2, ws.1⟩ := by
  cases h with
  | lineFirst xs ys zs hxs hys hzs =>
    have hline := takes_line a (d := {}) rfl
    have hcolumn := fun w => takes_column b (d := ⟨some w, none⟩) rfl
    exact .inl (parse_of_readsMembers (Json.Record.readsMembers_two hline hcolumn hxs hys hzs))
  | columnFirst xs ys zs hxs hys hzs =>
    have hcolumn := takes_column b (d := {}) rfl
    have hline := fun w => takes_line a (d := ⟨none, some w⟩) rfl
    exact .inr (parse_of_readsMembers (Json.Record.readsMembers_two hcolumn hline hxs hys hzs))
  | array =>
    have hline := (Json.reads_readWord a).map fun w => (⟨some w, none⟩ : Draft)
    have hcolumn := fun w => (Json.reads_readWord b).map fun w' => (⟨some w, some w'⟩ : Draft)
    exact .inl (parse_of_reads _ (Json.Record.reads_pair rfl hline hcolumn _))

theorem parse_of_isWord {a b : Int} {j : Json} (h : Form (.integer a) (.integer b) j) (ha : IsWord a) (hb : IsWord b) :
    parse j.text = .ok ⟨UInt32.ofNat a.toNat, UInt32.ofNat b.toNat⟩ := by
  rcases parse_form h with hparse | hparse
  · rw [hparse, both_of_isWord ha hb]
    rfl
  · rw [hparse, both_of_isWord hb ha]
    rfl

theorem isWord_of_parse {a b : Int} {j : Json} (h : Form (.integer a) (.integer b) j) {p : Position}
    (hp : parse j.text = .ok p) : IsWord a ∧ IsWord b := by
  rcases parse_form h with hparse | hparse
  · exact isWord_of_both (hparse ▸ hp)
  · exact (isWord_of_both (hparse ▸ hp)).symm

theorem parse_of_isExact {a b : Int} {j : Json} (h : Form (.integer a) (.integer b) j) (ha : IsExact a)
    (hb : IsExact b) (hwords : ¬(IsWord a ∧ IsWord b)) :
    ∃ n, (n = a ∨ n = b) ∧ ¬ IsWord n ∧ parse j.text = .error (.refused (.outOfRange n "u32")) := by
  rcases parse_form h with hparse | hparse
  · obtain ⟨n, hn, hword, herror⟩ := both_of_isExact ha hb hwords
    rw [herror] at hparse
    exact ⟨n, hn, hword, hparse⟩
  · obtain ⟨n, hn, hword, herror⟩ := both_of_isExact hb ha fun h => hwords h.symm
    rw [herror] at hparse
    exact ⟨n, hn.symm, hword, hparse⟩

theorem toNat_word {n : Int} (h : IsWord n) : ((UInt32.ofNat n.toNat).toNat : Int) = n := by
  obtain ⟨hlow, hhigh⟩ := h
  have hlt : n.toNat < UInt32.size := by
    rw [UInt32.size]
    omega
  rw [UInt32.toNat_ofNat_of_lt' hlt]
  omega

theorem isWord_toNat (w : UInt32) : IsWord w.toNat := by
  have hlt := w.toNat_lt
  constructor <;> omega

theorem parse_toJson (p : Position) : parse p.toJson.text = .ok p := by
  rw [parse_of_isWord p.form_toJson (isWord_toNat _) (isWord_toNat _)]
  simp

end Position

/-- **Scalars are read back from their JSON texts, up to the limits of their types.** A literal other than a double comes
back as it was, and a double that is no number as null. The digits of an integer are that integer exactly if 64 signed
bits hold it, and no other text of a number is taken for one, whether an integer is too large or a double has an integer
value. A position comes back from every form of its text; its fields take the integers of 32 bits without sign, and
another integer of 64 bits is refused by its value. -/
theorem scalars_read_back :
    (∀ v : Value, (∀ d, v ≠ .double d) → Value.parse v.toJson.text = .ok v) ∧
    (∀ d : Double, d.isFinite = false → Value.parse (Value.double d).toJson.text = .ok .null) ∧
    (∀ n : Int,
      ((∃ m : Int64, m.toInt = n ∧ Value.parse (intText n) = .ok (.integer m)) ↔ -2 ^ 63 ≤ n ∧ n < 2 ^ 63) ∧
      (¬(-2 ^ 63 ≤ n ∧ n < 2 ^ 63) → ∀ m, Value.parse (intText n) ≠ .ok (.integer m))) ∧
    (∀ d : Double, d.isFinite = true → ∀ m, Value.parse (Value.double d).toJson.text ≠ .ok (.integer m)) ∧
    (∀ p : Position, Position.parse p.toJson.text = .ok p) ∧
    ∀ (a b : Int) (j : Json), Position.Form (.integer a) (.integer b) j →
      ((∃ p, Position.parse j.text = .ok p) ↔ (0 ≤ a ∧ a < 2 ^ 32) ∧ 0 ≤ b ∧ b < 2 ^ 32) ∧
      (∀ p, Position.parse j.text = .ok p → (p.line.toNat : Int) = a ∧ (p.column.toNat : Int) = b) ∧
      (-2 ^ 63 ≤ a ∧ a < 2 ^ 64 → -2 ^ 63 ≤ b ∧ b < 2 ^ 64 → ¬((0 ≤ a ∧ a < 2 ^ 32) ∧ 0 ≤ b ∧ b < 2 ^ 32) →
        ∃ n, (n = a ∨ n = b) ∧ ¬(0 ≤ n ∧ n < 2 ^ 32) ∧
          Position.parse j.text = .error (.refused (.outOfRange n "u32"))) := by
  refine ⟨fun v => Value.parse_toJson, fun d => Value.parse_double_of_not_isFinite, fun n => ⟨⟨?_, ?_⟩, ?_⟩,
    fun d => Value.parse_double_ne_integer, Position.parse_toJson, fun a b j hj => ⟨⟨?_, ?_⟩, fun p hp => ?_, ?_⟩⟩
  · rintro ⟨m, hm, hparse⟩
    by_contra hn
    exact Value.parse_integer_ne_integer hn m hparse
  · rintro ⟨hlow, hhigh⟩
    exact ⟨Int64.ofInt n, Int64.toInt_ofInt_of_le hlow hhigh, Value.parse_integer hlow hhigh⟩
  · exact fun hn m => Value.parse_integer_ne_integer hn m
  · rintro ⟨p, hp⟩
    exact Position.isWord_of_parse hj hp
  · rintro ⟨ha, hb⟩
    exact ⟨_, Position.parse_of_isWord hj ha hb⟩
  · obtain ⟨ha, hb⟩ := Position.isWord_of_parse hj hp
    rw [Position.parse_of_isWord hj ha hb] at hp
    obtain rfl := Except.ok.inj hp
    exact ⟨Position.toNat_word ha, Position.toNat_word hb⟩
  · exact Position.parse_of_isExact hj

/-- quotes and a line feed, a not-a-number, the least integer beyond 64 signed bits, a whole double, and a line beyond 32
bits after a member that is no field -/
theorem scalars_read_back_edges :
    let nan : Double := ⟨0x7ff8000000000001⟩
    let one : Double := ⟨0x3ff0000000000000⟩
    let j : Json := .object [("lines", .array [.null]), ("column", .integer 7), ("line", .integer (2 ^ 32))]
    Value.parse (Value.string "\"\n").toJson.text = .ok (.string "\"\n") ∧
      nan.isFinite = false ∧ Value.parse (Value.double nan).toJson.text = .ok .null ∧
      (∀ m, Value.parse (intText (2 ^ 63)) ≠ .ok (.integer m)) ∧
      one.isFinite = true ∧ (∀ m, Value.parse (Value.double one).toJson.text ≠ .ok (.integer m)) ∧
      Position.Form (.integer (2 ^ 32)) (.integer 7) j ∧
      Position.parse j.text = .error (.refused (.outOfRange (2 ^ 32) "u32")) := by
  intro nan one j
  obtain ⟨hscalar, hnull, hinteger, hdouble, -, hform⟩ := scalars_read_back
  have hnan : nan.isFinite = false := by decide
  have hone : one.isFinite = true := by decide
  have hj : Position.Form (.integer (2 ^ 32)) (.integer 7) j :=
    .columnFirst [("lines", .array [.null])] [] [] (by simp [Json.Record.Foreign, Position.record])
      (fun _ hm => nomatch hm) fun _ hm => nomatch hm
  obtain ⟨n, hn, hword, herror⟩ := (hform _ _ j hj).2.2 (by omega) (by omega) (by omega)
  have hline : n = 2 ^ 32 := hn.resolve_right (by omega)
  rw [hline] at herror
  exact ⟨hscalar _ (by simp), hnan, hnull nan hnan, (hinteger _).2 (by omega), hone, hdouble one hone, hj, herror⟩

end ItemTree

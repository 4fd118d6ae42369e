import ItemTree.Proofs.Json.Reads

/-!
# Numerals are read back

A numeral is read back from its text, whatever delimits it: sign, whole part, fraction and exponent each read their own
characters and stop where the next part begins.

* `digitRun_append`: digits are read up to the first other character;
* `exists_digits`: the whole part as digits, without a zero in front of others;
* `reads_numeral`: a numeral from its text.
-/

namespace ItemTree

theorem Digit.ofChar?_char (d : Digit) : Digit.ofChar? d.char = some d := by
  revert d
  decide

theorem Digit.char_ne_of_ofChar? {c : Char} (hc : Digit.ofChar? c = none) (d : Digit) : d.char ≠ c := by
  rintro rfl
  rw [Digit.ofChar?_char] at hc
  cases hc

namespace Digits

theorem valueFrom_append_singleton (n : Nat) (ds : List Digit) (d : Digit) :
    valueFrom n (ds ++ [d]) = 10 * valueFrom n ds + d.val := by
  unfold valueFrom
  rw [List.foldl_append]
  rfl

theorem digitChar_eq {n : Nat} (hn : n < 10) : Nat.digitChar n = Digit.char ⟨n, hn⟩ := by
  revert n
  decide

/-- the decimal digits of a number -/
theorem exists_digits (n : Nat) :
    ∃ ds : Digits, Nat.toDigits 10 n = ds.toList.map Digit.char ∧ ds.value = n ∧
      (ds.first.val = 0 → ds.rest = []) := by
  induction n using Nat.strongRecOn with
  | ind n ih =>
    by_cases hn : n < 10
    · refine ⟨⟨⟨n, hn⟩, []⟩, ?_, Nat.zero_add n, fun _ => rfl⟩
      rw [Nat.toDigits_of_lt_base hn, digitChar_eq hn]
      rfl
    · obtain ⟨ds, hchars, hvalue, hzero⟩ := ih (n / 10) (by omega)
      have hmod : n % 10 < 10 := Nat.mod_lt n (by decide)
      refine ⟨⟨ds.first, ds.rest ++ [⟨n % 10, hmod⟩]⟩, ?_, ?_, fun hfirst => ?_⟩
      · rw [Nat.toDigits_of_base_le (by decide) (Nat.not_lt.1 hn), hchars, digitChar_eq hmod]
        simp [toList]
      · show valueFrom 0 (ds.toList ++ [⟨n % 10, hmod⟩]) = n
        rw [valueFrom_append_singleton]
        have : valueFrom 0 ds.toList = n / 10 := hvalue
        simp only
        omega
      · -- a leading zero would be the only digit of `n / 10`
        exfalso
        have hrest := hzero hfirst
        have hzero : ds.value = 0 := by
          rw [value, toList, hrest]
          simpa [valueFrom] using hfirst
        omega

end Digits

namespace Json

/-! ## digits -/

/-- no digit follows -/
def NoDigit (cs : List Char) : Prop := ∀ c ∈ cs.head?, Digit.ofChar? c = none

theorem noDigit_cons {c : Char} (hc : Digit.ofChar? c = none) (cs : List Char) : NoDigit (c :: cs) := by
  intro d hd
  obtain rfl : c = d := Option.some.inj hd
  exact hc

theorem Delimited.noDigit {cs : List Char} (h : Delimited cs) : NoDigit cs := by
  intro c hc
  rcases h c hc with rfl | rfl | rfl <;> decide

theorem digitRun_append (ds : List Digit) {rest : List Char} (h : NoDigit rest) :
    digitRun (ds.map Digit.char ++ rest) = (ds, rest) := by
  induction ds with
  | nil =>
    cases rest with
    | nil => rfl
    | cons c cs =>
      have hc : Digit.ofChar? c = none := h c rfl
      simp only [List.map_nil, List.nil_append, digitRun, hc]
  | cons d ds ih => simp only [List.map_cons, List.cons_append, digitRun, Digit.ofChar?_char, ih]

theorem digits1_append (atEnd : ReadError) (ds : Digits) {rest : List Char} (h : NoDigit rest) :
    digits1 atEnd (ds.toList.map Digit.char ++ rest) = .ok (ds, rest) := by
  rw [digits1, digitRun_append ds.toList h]
  rfl

/-! ## parts of a numeral -/

/-- a numeral ends here, or its exponent begins -/
theorem head_exponentChars (e : Option Exponent) {rest : List Char} (h : Delimited rest) :
    ∀ c ∈ (Numeral.exponentChars e ++ rest).head?, c = 'e' ∨ c = 'E' ∨ c = ',' ∨ c = ']' ∨ c = '\x7d' := by
  intro c hc
  cases e with
  | none => exact .inr (.inr (h c hc))
  | some e =>
    obtain rfl : (if e.capital then 'E' else 'e') = c := Option.some.inj hc
    split
    · exact .inr (.inl rfl)
    · exact .inl rfl

section

variable (atEnd : ReadError) {rest : List Char}

theorem wholePart_append (n : Nat) (h : NoDigit rest) :
    wholePart atEnd (Numeral.wholeChars n ++ rest) = .ok (n, rest) := by
  obtain ⟨ds, hchars, hvalue, hzero⟩ := Digits.exists_digits n
  have hlead : ¬(ds.first.val = 0 ∧ ds.rest ≠ []) := fun hz => hz.2 (hzero hz.1)
  rw [Numeral.wholeChars, hchars, wholePart, digits1_append atEnd ds h]
  simp only [if_neg hlead, hvalue]

theorem fractionPart_append (f : Option Digits) (hdigit : NoDigit rest) (hpoint : ∀ c ∈ rest.head?, c ≠ '.') :
    fractionPart atEnd (Numeral.fractionChars f ++ rest) = .ok (f, rest) := by
  cases f with
  | some ds => exact map_ok (digits1_append atEnd ds hdigit) some
  | none =>
    show fractionPart atEnd rest = _
    unfold fractionPart
    split
    · exact absurd rfl (hpoint '.' rfl)
    · rfl

theorem exponentSign_append (sign : ExponentSign) (d : Digit) (cs : List Char) :
    exponentSign (sign.chars ++ d.char :: cs) = .ok (sign, d.char :: cs) := by
  cases sign with
  | none =>
    show exponentSign (d.char :: cs) = _
    unfold exponentSign
    split
    · rename_i heq
      exact absurd (List.cons.inj heq).1 (Digit.char_ne_of_ofChar? (by decide) d)
    · rename_i heq
      exact absurd (List.cons.inj heq).1 (Digit.char_ne_of_ofChar? (by decide) d)
    · rfl
  | plus => rfl
  | minus => rfl

theorem exponentTail_append (e : Exponent) (h : NoDigit rest) :
    exponentTail atEnd e.capital (e.sign.chars ++ (e.digits.toList.map Digit.char ++ rest)) = .ok (some e, rest) := by
  have hsign : exponentSign (e.sign.chars ++ (e.digits.toList.map Digit.char ++ rest)) =
      .ok (e.sign, e.digits.toList.map Digit.char ++ rest) := exponentSign_append e.sign e.digits.first _
  rw [exponentTail, bind_ok hsign, bind_ok (digits1_append atEnd e.digits h)]
  rfl

theorem exponentPart_append (e : Option Exponent) (h : Delimited rest) :
    exponentPart atEnd (Numeral.exponentChars e ++ rest) = .ok (e, rest) := by
  cases e with
  | some e =>
    rw [← exponentTail_append atEnd e h.noDigit, ← List.append_assoc]
    show exponentPart atEnd ((if e.capital then 'E' else 'e') :: _) = _
    cases e.capital <;> rfl
  | none =>
    show exponentPart atEnd rest = _
    unfold exponentPart
    split
    · exact absurd (h 'e' rfl) (by decide)
    · exact absurd (h 'E' rfl) (by decide)
    · rfl

theorem unsignedNumeral_append (n : Numeral) (h : Delimited rest) :
    unsignedNumeral atEnd n.negative (Numeral.wholeChars n.whole ++
      (Numeral.fractionChars n.fraction ++ (Numeral.exponentChars n.exponent ++ rest))) = .ok (n, rest) := by
  have hexponent := head_exponentChars n.exponent h
  have hdigit : NoDigit (Numeral.exponentChars n.exponent ++ rest) := by
    intro c hc
    rcases hexponent c hc with rfl | rfl | rfl | rfl | rfl <;> decide
  have hpoint : ∀ c ∈ (Numeral.exponentChars n.exponent ++ rest).head?, c ≠ '.' := by
    intro c hc
    rcases hexponent c hc with rfl | rfl | rfl | rfl | rfl <;> decide
  have hfraction : NoDigit (Numeral.fractionChars n.fraction ++ (Numeral.exponentChars n.exponent ++ rest)) := by
    cases n.fraction with
    | none => exact hdigit
    | some ds => exact noDigit_cons (by decide) _
  rw [unsignedNumeral, bind_ok (wholePart_append atEnd n.whole hfraction),
    bind_ok (fractionPart_append atEnd n.fraction hdigit hpoint), bind_ok (exponentPart_append atEnd n.exponent h)]
  rfl

end

/-- a numeral is read back, up to what delimits it -/
theorem reads_numeral (atEnd : ReadError) (n : Numeral) : Reads (numeral atEnd) n.chars (.ok n) := by
  intro rest h
  have hread := unsignedNumeral_append atEnd n h
  unfold Numeral.chars
  simp only [List.append_assoc]
  cases hn : n.negative with
  | true =>
    rw [hn] at hread
    exact hread
  | false =>
    rw [hn] at hread
    obtain ⟨ds, hds, -⟩ := Digits.exists_digits n.whole
    rw [Numeral.wholeChars, hds] at hread ⊢
    show numeral atEnd (ds.first.char :: _) = _
    unfold numeral
    split
    · rename_i heq
      exact absurd (List.cons.inj heq).1 (Digit.char_ne_of_ofChar? (by decide) _)
    · exact hread

end Json

end ItemTree

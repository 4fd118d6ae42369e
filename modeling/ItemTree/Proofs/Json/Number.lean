import ItemTree.Proofs.Json.Skip
import Mathlib.Algebra.Ring.Int.Defs

/-!
# What numerals are understood as

The reader keeps an integer exact as long as 64 bits hold it, and takes any other numeral as a double.

* `Number.ofNumeral?_ofInt`, `Number.ofNumeral?_of_not_exact`: which of the two a written integer is;
* `reads_boundedNumeral`, `reads_read_number`: a numeral as a number, and as a value;
* `reads_readWord`: an integer where a word is wanted, which is taken, refused or not even a number (`wordOf`).
-/

namespace ItemTree.Json

/-! ## exact integers -/

/-- an integer that fits 64 bits, with or without a sign -/
def IsExact (n : Int) : Prop := -2 ^ 63 ≤ n ∧ n < 2 ^ 64

/-- an integer that fits 32 bits without a sign -/
def IsWord (n : Int) : Prop := 0 ≤ n ∧ n < 2 ^ 32

theorem IsWord.isExact {n : Int} (h : IsWord n) : IsExact n := by
  obtain ⟨hlow, hhigh⟩ := h
  constructor <;> omega

namespace Number

/-- sign and whole part of a written integer give it back -/
theorem value_ofInt (n : Int) :
    (if (Numeral.ofInt n).negative then -((Numeral.ofInt n).whole : Int) else (Numeral.ofInt n).whole) = n := by
  unfold Numeral.ofInt
  simp only [decide_eq_true_eq]
  split <;> omega

theorem ofNumeral?_ofInt {n : Int} (h : IsExact n) : ofNumeral? (.ofInt n) = some (.integer n) := by
  obtain ⟨hlow, hhigh⟩ := h
  have hzero : ¬((Numeral.ofInt n).negative ∧ (Numeral.ofInt n).whole = 0) := by
    simp only [Numeral.ofInt, decide_eq_true_eq]
    omega
  unfold ofNumeral?
  simp only [value_ofInt]
  exact if_pos ⟨rfl, rfl, hlow, hhigh, hzero⟩

/-- an integer that is too large is a double, if it is not even too large for one -/
theorem ofNumeral?_of_not_exact {n : Int} (h : ¬ IsExact n) :
    ofNumeral? (.ofInt n) = (Numeral.ofInt n).toDouble?.map .double := by
  unfold ofNumeral?
  simp only [value_ofInt]
  exact if_neg fun hn => h ⟨hn.2.2.1, hn.2.2.2.1⟩

/-- a fraction or an exponent makes a double of any numeral -/
theorem ofNumeral?_of_isSome {n : Numeral} (h : n.fraction.isSome ∨ n.exponent.isSome) :
    ofNumeral? n = n.toDouble?.map .double := by
  unfold ofNumeral?
  refine if_neg ?_
  rintro ⟨hfraction, hexponent, -⟩
  rcases h with h | h
  · rw [Option.isNone_iff_eq_none.1 hfraction] at h
    cases h
  · rw [Option.isNone_iff_eq_none.1 hexponent] at h
    cases h

end Number

/-! ## numerals as numbers and values -/

/-- a numeral with its number, or nothing where there is no number -/
def bounded (n : Numeral) : Except ReadError (Numeral × Number) :=
  match Number.ofNumeral? n with
  | some v => .ok (n, v)
  | none => .error .malformed

theorem reads_boundedNumeral (n : Numeral) : Reads boundedNumeral n.chars (bounded n) := by
  intro rest hrest
  unfold bounded
  rw [boundedNumeral, bind_ok (reads_numeral .ended n rest hrest)]
  cases Number.ofNumeral? n <;> rfl

theorem read_of_startsNumeral {c : Char} (hc : startsNumeral c = true) (depth : Nat) (cs : List Char) :
    read depth (c :: cs) = ((fun n => number n.1) <$> boundedNumeral : Reader Json) (c :: cs) := by
  have hne := ne_of_startsNumeral hc
  unfold read
  rw [skipBlanks_cons (isBlank_of_startsNumeral hc)]
  simp [hne 'n' rfl, hne 't' rfl, hne 'f' rfl, hne '"' rfl, hne '[' rfl, hne '\x7b' rfl, hc]

theorem reads_read_number (n : Numeral) (depth : Nat) :
    Reads (read depth) n.chars ((bounded n).map fun b => number b.1) := by
  intro rest hrest
  obtain ⟨c, cs, hchars, hstart⟩ := startsNumeral_chars n
  have hread := (reads_boundedNumeral n).map (fun b => number b.1) rest hrest
  rw [← hread, hchars]
  exact read_of_startsNumeral hstart depth (cs ++ rest)

/-! ## words -/

/-- what a word is from a written integer -/
def wordOf (n : Int) : Except ReadError UInt32 :=
  match Number.ofNumeral? (.ofInt n) with
  | none => .error .malformed
  | some (.double d) => .error (.refused (.wrongType (.float d) "u32"))
  | some (.integer n) =>
    if 0 ≤ n ∧ n < Int.pow 2 32 then .ok (UInt32.ofNat n.toNat) else .error (.refused (.outOfRange n "u32"))

theorem wordOf_of_isWord {n : Int} (h : IsWord n) : wordOf n = .ok (UInt32.ofNat n.toNat) := by
  unfold wordOf
  rw [Number.ofNumeral?_ofInt h.isExact]
  exact if_pos h

theorem wordOf_of_isExact {n : Int} (h : IsExact n) (hn : ¬ IsWord n) :
    wordOf n = .error (.refused (.outOfRange n "u32")) := by
  unfold wordOf
  rw [Number.ofNumeral?_ofInt h]
  exact if_neg hn

/-- nothing but a word is taken, not even a double of integer value -/
theorem isWord_of_wordOf {n : Int} {w : UInt32} (h : wordOf n = .ok w) : IsWord n := by
  by_contra hn
  by_cases hexact : IsExact n
  · rw [wordOf_of_isExact hexact hn] at h
    cases h
  · unfold wordOf at h
    rw [Number.ofNumeral?_of_not_exact hexact] at h
    cases hd : (Numeral.ofInt n).toDouble? with
    | none =>
      rw [hd] at h
      cases h
    | some d =>
      rw [hd] at h
      cases h

theorem reads_readWord (n : Int) : Reads readWord (integer n).chars (wordOf n) := by
  intro rest hrest
  have hread := reads_boundedNumeral (.ofInt n) rest hrest
  obtain ⟨c, cs, hchars, hstart⟩ := startsNumeral_chars (.ofInt n)
  show readWord ((Numeral.ofInt n).chars ++ rest) = _
  rw [hchars, List.cons_append] at hread ⊢
  unfold readWord
  simp only [skipBlanks_cons (isBlank_of_startsNumeral hstart), hstart, if_true]
  unfold bounded at hread
  unfold wordOf
  cases hn : Number.ofNumeral? (.ofInt n) with
  | none =>
    rw [hn] at hread
    exact bind_error hread _
  | some v =>
    rw [hn] at hread
    rw [bind_ok hread]
    cases v with
    | double d => rfl
    | integer m =>
      simp only
      split <;> rfl

end ItemTree.Json

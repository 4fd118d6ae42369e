import ItemTree.Ident.Checksum
import Mathlib.Data.Nat.Bitwise

/-!
# Checksums of texts that differ in a short window

Shifting is linear in exclusive or, so what has to be followed is the difference of two remainders. The polynomial
reaches the highest bit: a shift that leaves this bit clear has lost nothing and has only halved the difference
(`toNat_of_shift_lt`). Counted back over bytes this gives

* `addByte_left_injective`: different remainders stay different, whatever byte follows;
* `foldl_addByte_inj`: up to four bytes are told apart by the remainder after them;
* `crc32_ne`: so the checksums of two texts differ if the texts differ in a window of at most four bytes.
-/

namespace ItemTree.Checksum

/-! ## bits out -/

theorem shift_xor (c d : Word) : shift (c ^^^ d) = shift c ^^^ shift d := by
  unfold shift
  rw [BitVec.getLsbD_xor, BitVec.ushiftRight_xor_distrib]
  cases c.getLsbD 0 with
  | false =>
    cases d.getLsbD 0 with
    | false => rfl
    | true => exact BitVec.xor_assoc _ _ _
  | true =>
    cases d.getLsbD 0 with
    | false =>
      show c >>> 1 ^^^ d >>> 1 ^^^ polynomial = c >>> 1 ^^^ polynomial ^^^ d >>> 1
      rw [BitVec.xor_assoc, BitVec.xor_comm (d >>> 1), BitVec.xor_assoc]
    | true =>
      show c >>> 1 ^^^ d >>> 1 = c >>> 1 ^^^ polynomial ^^^ (d >>> 1 ^^^ polynomial)
      rw [BitVec.xor_assoc, BitVec.xor_comm (d >>> 1), ← BitVec.xor_assoc polynomial, BitVec.xor_self,
        BitVec.zero_xor]

theorem shifts_xor (n : Nat) (c d : Word) : shifts n (c ^^^ d) = shifts n c ^^^ shifts n d := by
  induction n with
  | zero => rfl
  | succ n ih => rw [shifts, shifts, shifts, ih, shift_xor]

/-- after a shift that clears the highest bit, the bit that went out was not set -/
theorem toNat_of_shift_lt {c : Word} (h : (shift c).toNat < 2 ^ 31) : c.toNat = 2 * (shift c).toNat := by
  unfold shift at h ⊢
  split at h
  · -- the polynomial was added, and with it the highest bit
    have hbit : (c >>> 1 ^^^ polynomial).getLsbD 31 = true := by
      rw [BitVec.getLsbD_xor, BitVec.getLsbD_ushiftRight, BitVec.getLsbD_of_ge c (1 + 31) (by decide)]
      decide
    rw [← BitVec.testBit_toNat] at hbit
    have hle := Nat.ge_two_pow_of_testBit hbit
    omega
  · rename_i hlow
    rw [← BitVec.testBit_toNat, Nat.testBit_zero, decide_eq_true_eq] at hlow
    rw [if_neg (by rwa [← BitVec.testBit_toNat, Nat.testBit_zero, decide_eq_true_eq]), BitVec.toNat_ushiftRight,
      Nat.shiftRight_eq_div_pow]
    omega

theorem toNat_of_shifts_lt {n : Nat} (hn : n ≤ 32) {c : Word} (h : (shifts n c).toNat < 2 ^ (32 - n)) :
    c.toNat = 2 ^ n * (shifts n c).toNat := by
  induction n with
  | zero => rw [shifts, Nat.pow_zero, Nat.one_mul]
  | succ n ih =>
    have hpow : 2 ^ (32 - n) = 2 * 2 ^ (32 - (n + 1)) := by
      rw [← Nat.pow_succ', show (32 - (n + 1)).succ = 32 - n by omega]
    have hle : 2 ^ (32 - (n + 1)) ≤ 2 ^ 31 := Nat.pow_le_pow_right (by decide) (by omega)
    rw [shifts] at h ⊢
    have hlast : (shifts n c).toNat = 2 * (shift (shifts n c)).toNat := toNat_of_shift_lt (by omega)
    rw [ih (by omega) (by omega), hlast, Nat.pow_succ, Nat.mul_assoc]

theorem shifts_injective {n : Nat} (hn : n ≤ 32) : Function.Injective (shifts n) := by
  intro c d h
  have hzero : shifts n (c ^^^ d) = 0#32 := by rw [shifts_xor, h, BitVec.xor_self]
  have hdiff : (c ^^^ d).toNat = 2 ^ n * (shifts n (c ^^^ d)).toNat := by
    apply toNat_of_shifts_lt hn
    rw [hzero]
    exact Nat.two_pow_pos _
  rw [hzero] at hdiff
  exact BitVec.xor_eq_zero_iff.1 (BitVec.toNat_eq.2 hdiff)

/-! ## bytes in -/

/-- a byte as a remainder -/
def ofByte (b : UInt8) : Word := BitVec.ofNat 32 b.toNat

theorem toNat_ofByte (b : UInt8) : (ofByte b).toNat = b.toNat := by
  have hb := b.toNat_lt
  unfold ofByte
  rw [BitVec.toNat_ofNat, Nat.mod_eq_of_lt (by omega)]

theorem ofByte_injective : Function.Injective ofByte := by
  intro a b h
  apply UInt8.toNat_inj.1
  rw [← toNat_ofByte, ← toNat_ofByte, h]

theorem toNat_xor_ofByte_lt (a b : UInt8) : (ofByte a ^^^ ofByte b).toNat < 2 ^ 8 := by
  rw [BitVec.toNat_xor, toNat_ofByte, toNat_ofByte]
  exact Nat.xor_lt_two_pow a.toNat_lt b.toNat_lt

theorem addByte_xor (c d : Word) (a b : UInt8) :
    addByte c a ^^^ addByte d b = shifts 8 (c ^^^ d ^^^ (ofByte a ^^^ ofByte b)) := by
  unfold addByte
  rw [← shifts_xor]
  congr 1
  show c ^^^ ofByte a ^^^ (d ^^^ ofByte b) = c ^^^ d ^^^ (ofByte a ^^^ ofByte b)
  rw [BitVec.xor_assoc, ← BitVec.xor_assoc (ofByte a), BitVec.xor_comm (ofByte a), BitVec.xor_assoc d,
    ← BitVec.xor_assoc c]

theorem addByte_left_injective (b : UInt8) : Function.Injective (addByte · b) := by
  intro c d h
  exact (BitVec.xor_left_inj _).1 (shifts_injective (by decide) h)

theorem foldl_addByte_left_injective (bytes : List UInt8) : Function.Injective (bytes.foldl addByte ·) := by
  induction bytes with
  | nil => exact Function.injective_id
  | cons b bytes ih => exact ih.comp (addByte_left_injective b)

/-- one byte counted back: a difference of `8 * n` bits after it was one of `8 * (n + 1)` bits before it -/
theorem xor_lt_of_addByte {n : Nat} (hn : n < 4) {c d : Word} {a b : UInt8}
    (h : (addByte c a ^^^ addByte d b).toNat < 2 ^ (8 * n)) :
    (c ^^^ d).toNat < 2 ^ (8 * (n + 1)) ∧ (c = d → a = b) := by
  have hle : 2 ^ (8 * n) ≤ 2 ^ (32 - 8) := Nat.pow_le_pow_right (by decide) (by omega)
  have hpow : 2 ^ (8 * (n + 1)) = 2 ^ 8 * 2 ^ (8 * n) := by rw [← Nat.pow_add, Nat.mul_add, Nat.add_comm]
  have hbytes := toNat_xor_ofByte_lt a b
  rw [addByte_xor] at h
  have hdiff := toNat_of_shifts_lt (n := 8) (by decide) (Nat.lt_of_lt_of_le h hle)
  constructor
  · have hall : (c ^^^ d ^^^ (ofByte a ^^^ ofByte b)).toNat < 2 ^ (8 * (n + 1)) := by omega
    have hback : c ^^^ d = c ^^^ d ^^^ (ofByte a ^^^ ofByte b) ^^^ (ofByte a ^^^ ofByte b) := by
      rw [BitVec.xor_assoc, BitVec.xor_self, BitVec.xor_zero]
    rw [hback, BitVec.toNat_xor]
    exact Nat.xor_lt_two_pow hall (by omega)
  · rintro rfl
    rw [BitVec.xor_self, BitVec.zero_xor] at hdiff
    have hzero : (ofByte a ^^^ ofByte b).toNat = 0 := by omega
    exact ofByte_injective (BitVec.xor_eq_zero_iff.1 (BitVec.toNat_eq.2 hzero))

/-- remainders that meet after `xs` and `ys` differed before them in as many low bits as these have -/
theorem foldl_addByte_inj {xs ys : List UInt8} (hlen : xs.length = ys.length) (hle : xs.length ≤ 4) {c d : Word}
    (h : xs.foldl addByte c = ys.foldl addByte d) :
    (c ^^^ d).toNat < 2 ^ (8 * xs.length) ∧ (c = d → xs = ys) := by
  induction xs generalizing ys c d with
  | nil =>
    obtain rfl := List.length_eq_zero_iff.1 hlen.symm
    obtain rfl : c = d := h
    rw [BitVec.xor_self]
    exact ⟨by decide, fun _ => rfl⟩
  | cons x xs ih =>
    obtain ⟨y, ys, rfl⟩ := List.exists_cons_of_length_eq_add_one hlen.symm
    simp only [List.length_cons, Nat.add_right_cancel_iff] at hlen hle
    obtain ⟨hlt, hrest⟩ := ih hlen (by omega) h
    obtain ⟨hlt', hbyte⟩ := xor_lt_of_addByte (by omega) hlt
    refine ⟨hlt', fun hcd => ?_⟩
    obtain rfl := hbyte hcd
    rw [hrest (by rw [hcd])]

/-- **Close texts have different checksums.** -/
theorem crc32_ne {xs ys : List UInt8} (hne : xs ≠ ys) (hlen : xs.length = ys.length) (hle : xs.length ≤ 4)
    (before after : List UInt8) : crc32 (before ++ xs ++ after) ≠ crc32 (before ++ ys ++ after) := by
  intro h
  unfold crc32 at h
  rw [BitVec.not_inj, List.foldl_append, List.foldl_append, List.foldl_append, List.foldl_append] at h
  exact hne ((foldl_addByte_inj hlen hle (foldl_addByte_left_injective after h)).2 rfl)

end ItemTree.Checksum

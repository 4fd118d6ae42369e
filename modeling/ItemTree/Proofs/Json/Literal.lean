import ItemTree.Json.Reader

/-!
# String literals are read back

A string literal is written character by character, and every character is read back from its own text: as it
stands, or from an escape (`escapeChar_forms`, `escapeChar_cases`). So a literal is read back whatever follows it
(`stringTail_append`).
-/

namespace ItemTree.Json

/-! ## one reader after another -/

section

variable {α β : Type} {r : Reader α} {cs rest : List Char}

theorem bind_ok {a : α} (h : r cs = .ok (a, rest)) (f : α → Reader β) : (r >>= f) cs = f a rest := by
  show r cs >>= _ = _
  rw [h]
  rfl

theorem bind_error {e : ReadError} (h : r cs = .error e) (f : α → Reader β) : (r >>= f) cs = .error e := by
  show r cs >>= _ = _
  rw [h]
  rfl

theorem map_ok {a : α} (h : r cs = .ok (a, rest)) (f : α → β) : (f <$> r) cs = .ok (f a, rest) := by
  show r cs >>= _ = _
  rw [h]
  rfl

end

/-! ## literals -/

theorem hexValue?_digitChar {n : Nat} (hn : n < 16) : hexValue? (Nat.digitChar n) = some n := by
  revert n
  decide

/-- a control character has two leading zeros and two digits -/
theorem hexUnit_hexPair {n : Nat} (hn : n < 0x20) (rest : List Char) :
    hexUnit ('0' :: '0' :: (hexPair n ++ rest)) = .ok (n, rest) := by
  have hzero : hexValue? '0' = some 0 := by decide
  have hhigh : hexValue? (Nat.digitChar (n / 16)) = some (n / 16) := hexValue?_digitChar (by omega)
  have hlow : hexValue? (Nat.digitChar (n % 16)) = some (n % 16) := hexValue?_digitChar (by omega)
  have hvalue : ((0 * 16 + 0) * 16 + n / 16) * 16 + n % 16 = n := by omega
  simp only [hexUnit, hexPair, List.cons_append, List.nil_append, hzero, hhigh, hlow, hvalue]

theorem unicodeEscape_hexPair {c : Char} (hc : c.toNat < 0x20) (rest : List Char) :
    unicodeEscape ('0' :: '0' :: (hexPair c.toNat ++ rest)) = .ok (c, rest) := by
  have hhigh : ¬(0xD800 ≤ c.toNat ∧ c.toNat ≤ 0xDBFF) := by omega
  have hlow : ¬(0xDC00 ≤ c.toNat ∧ c.toNat ≤ 0xDFFF) := by omega
  rw [unicodeEscape, bind_ok (hexUnit_hexPair hc rest), if_neg hhigh, if_neg hlow, Char.ofNat_toNat]
  rfl

/-- a character stands as it is, as an escape of one letter, or by its number -/
theorem escapeChar_forms (c : Char) :
    (escapeChar c = [c] ∧ c ≠ '"' ∧ c ≠ '\\' ∧ ¬ c.toNat < 0x20) ∨
      (∃ x, x ≠ 'u' ∧ shortEscape? x = some c ∧ escapeChar c = ['\\', x]) ∨
      (c.toNat < 0x20 ∧ escapeChar c = '\\' :: 'u' :: '0' :: '0' :: hexPair c.toNat) := by
  unfold escapeChar
  split
  · exact .inr (.inl ⟨'"', by decide, rfl, rfl⟩)
  · exact .inr (.inl ⟨'\\', by decide, rfl, rfl⟩)
  · exact .inr (.inl ⟨'b', by decide, rfl, rfl⟩)
  · exact .inr (.inl ⟨'f', by decide, rfl, rfl⟩)
  · exact .inr (.inl ⟨'n', by decide, rfl, rfl⟩)
  · exact .inr (.inl ⟨'r', by decide, rfl, rfl⟩)
  · exact .inr (.inl ⟨'t', by decide, rfl, rfl⟩)
  · rename_i hquote hback _ _ _ _ _
    split
    · rename_i hc
      exact .inr (.inr ⟨hc, rfl⟩)
    · rename_i hc
      exact .inl ⟨rfl, fun h => hquote h, fun h => hback h, hc⟩

/-- a character stands as it is, or as an escape that is read back -/
theorem escapeChar_cases (c : Char) :
    (escapeChar c = [c] ∧ c ≠ '"' ∧ c ≠ '\\' ∧ ¬ c.toNat < 0x20) ∨
      ∃ e, escapeChar c = '\\' :: e ∧ ∀ rest, escape (e ++ rest) = .ok (c, rest) := by
  rcases escapeChar_forms c with hc | ⟨x, hu, hx, hc⟩ | ⟨hcontrol, hc⟩
  · exact .inl hc
  · refine .inr ⟨[x], hc, fun rest => ?_⟩
    rw [List.singleton_append, escape, hx]
    exact hu
  · exact .inr ⟨_, hc, unicodeEscape_hexPair hcontrol⟩

theorem tailChars_cons (c : Char) (s : List Char) : tailChars (c :: s) = escapeChar c ++ tailChars s := by
  simp [tailChars]

theorem literalTail_append (s : List Char) {fuel : Nat} (hf : s.length < fuel) (rest : List Char) :
    literalTail fuel (tailChars s ++ rest) = .ok (s, rest) := by
  induction s generalizing fuel with
  | nil =>
    obtain ⟨f, rfl⟩ : ∃ f, fuel = f + 1 := ⟨fuel - 1, by omega⟩
    rfl
  | cons c s ih =>
    obtain ⟨f, rfl⟩ : ∃ f, fuel = f + 1 := ⟨fuel - 1, by simp at hf; omega⟩
    have hs : literalTail f (tailChars s ++ rest) = .ok (s, rest) := ih (by simpa using hf)
    rw [tailChars_cons, List.append_assoc]
    rcases escapeChar_cases c with ⟨hc, hquote, hback, hcontrol⟩ | ⟨e, hc, he⟩
    · rw [hc, List.singleton_append, literalTail]
      · rw [if_neg hcontrol, hs]
        rfl
      · exact hquote
      · exact hback
    · rw [hc, List.cons_append, literalTail, he]
      simp only [bind, Except.bind, hs]
      rfl

theorem length_lt_length_tailChars (s : List Char) : s.length < (tailChars s).length := by
  induction s with
  | nil => decide
  | cons c s ih =>
    have hc : 0 < (escapeChar c).length := by
      rcases escapeChar_cases c with ⟨hc, -⟩ | ⟨e, hc, -⟩ <;> simp [hc]
    rw [tailChars_cons, List.length_append, List.length_cons]
    omega

/-- a string is read back from its literal, whatever follows -/
theorem stringTail_append (s : String) (rest : List Char) : stringTail (tailChars s.toList ++ rest) = .ok (s, rest) := by
  have hlen := length_lt_length_tailChars s.toList
  have hread : literalTail ((tailChars s.toList ++ rest).length + 1) (tailChars s.toList ++ rest) =
      .ok (s.toList, rest) := literalTail_append s.toList (by rw [List.length_append]; omega) rest
  unfold stringTail
  rw [hread]
  show Except.ok (String.ofList s.toList, rest) = _
  rw [String.ofList_toList]

end ItemTree.Json

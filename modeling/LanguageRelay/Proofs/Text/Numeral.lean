import LanguageRelay.Text.Numeral
import Mathlib.Algebra.Group.Nat.Defs
/-!
# Numerals — the digits of a number read back

`Numeral.digits` writes a number, `Numeral.readInt?` reads what people write.
The reader allows for more (blanks, a sign, underscores, digits of any
script), but the plain digits of a number are among what it reads, and it
gives that number, as long as there are no more of them than it takes.
-/

namespace LanguageRelay

namespace Numeral

/-! ## Digits -/

/-- What holds of the ten digits holds of every digit of a number. -/
theorem digits_induct {p : Char → Prop} (h : ∀ d < 10, p (digitChar d)) (n : Nat) :
    ∀ c ∈ digits n, p c := by
  induction n using digits.induct with
  | case1 n hn =>
    rw [digits, if_pos hn]
    simpa using h n hn
  | case2 n hn ih =>
    rw [digits, if_neg hn]
    intro c hc
    rcases List.mem_append.1 hc with hc | hc
    · exact ih c hc
    · rw [List.mem_singleton.1 hc]
      exact h _ (Nat.mod_lt n (by decide))

/-- The digits of a number are ASCII digits. -/
theorem bounds_of_mem_digits {n : Nat} {c : Char} (h : c ∈ digits n) :
    48 ≤ c.toNat ∧ c.toNat ≤ 57 :=
  digits_induct (p := fun c => 48 ≤ c.toNat ∧ c.toNat ≤ 57) (by decide) n c h

/-- A digit has its value. -/
theorem digitValue?_digitChar {d : Nat} (h : d < 10) : digitValue? (digitChar d) = some d := by
  have hd : ∀ d < 10, digitValue? (digitChar d) = some d := by decide
  exact hd d h

/-- A digit is no underscore. -/
theorem digitChar_ne_underscore {d : Nat} (h : d < 10) : (digitChar d == '_') = false := by
  have hd : ∀ d < 10, (digitChar d == '_') = false := by decide
  exact hd d h

/-! ## Reading them -/

/-- One more digit makes the number ten times larger, and adds its value. -/
theorem readDigits_concat {afterDigit : Bool} {sofar v d : Nat} {cs : List Char}
    (h : readDigits afterDigit sofar cs = some v) (hd : d < 10) :
    readDigits afterDigit sofar (cs ++ [digitChar d]) = some (10 * v + d) := by
  induction cs generalizing afterDigit sofar with
  | nil =>
    cases afterDigit with
    | false => cases h
    | true =>
      cases h
      simp [readDigits, digitChar_ne_underscore hd, digitValue?_digitChar hd]
  | cons c cs ih =>
    rw [List.cons_append, readDigits]
    rw [readDigits] at h
    by_cases hc : c == '_'
    · rw [if_pos hc] at h ⊢
      cases afterDigit with
      | false => cases h
      | true => exact ih h
    · rw [if_neg hc] at h ⊢
      cases hv : digitValue? c with
      | none => rw [hv] at h; cases h
      | some e => rw [hv] at h; exact ih h

/-- The digits of a number are read as that number. -/
theorem readDigits_digits (n : Nat) : readDigits false 0 (digits n) = some n := by
  induction n using digits.induct with
  | case1 n hn =>
    rw [digits, if_pos hn]
    simp [readDigits, digitChar_ne_underscore hn, digitValue?_digitChar hn]
  | case2 n hn ih =>
    rw [digits, if_neg hn, readDigits_concat ih (Nat.mod_lt n (by decide))]
    congr 1
    omega

/-- There is nothing to trim off a number. -/
theorem dropWhile_isSpace_of_digits {cs : List Char} (h : ∀ c ∈ cs, isSpace c = false) :
    cs.dropWhile isSpace = cs := by
  cases cs with
  | nil => rfl
  | cons c cs => rw [List.dropWhile_cons_of_neg (by simp [h c List.mem_cons_self])]

/-- Blanks before a number do not matter. -/
theorem trimSpace_digits {blanks : List Char} (hb : ∀ c ∈ blanks, isSpace c = true) (n : Nat) :
    trimSpace (blanks ++ digits n) = digits n := by
  have hd : ∀ c ∈ digits n, isSpace c = false :=
    digits_induct (p := fun c => isSpace c = false) (by decide) n
  rw [trimSpace, List.dropWhile_append_of_pos hb, dropWhile_isSpace_of_digits hd,
    dropWhile_isSpace_of_digits (by simpa using hd), List.reverse_reverse]

/-- **The digits of a number read back**, with blanks before them. -/
theorem readInt?_digits {blanks : List Char} {n : Nat} (hb : ∀ c ∈ blanks, isSpace c = true)
    (hn : (digits n).length ≤ maxDigits) : readInt? (blanks ++ digits n) = some n := by
  have hv : ∀ c ∈ digits n, (digitValue? c).isSome :=
    digits_induct (p := fun c => (digitValue? c).isSome) (by decide) n
  have hs : ∀ c ∈ digits n, c ≠ '-' ∧ c ≠ '+' :=
    digits_induct (p := fun c => c ≠ '-' ∧ c ≠ '+') (by decide) n
  rw [readInt?, trimSpace_digits hb]
  rw [List.filter_eq_self.2 hv, if_neg (Nat.not_lt.2 hn)]
  have hr := readDigits_digits n
  split
  · rename_i he
    exact absurd rfl (hs '-' (he ▸ List.mem_cons_self)).1
  · rename_i he
    exact absurd rfl (hs '+' (he ▸ List.mem_cons_self)).2
  · rw [hr]
    rfl

/-! ## The value of digits -/

/-- The value of digits with one more behind them. -/
theorem value_concat (ds : List Char) (c : Char) :
    value (ds ++ [c]) = 10 * value ds + (c.toNat - 48) := by
  simp [value]

theorem toNat_digitChar {d : Nat} (h : d < 10) : (digitChar d).toNat = 48 + d := by
  have hd : ∀ d < 10, (digitChar d).toNat = 48 + d := by decide
  exact hd d h

/-- **The digits of a number have its value.** -/
theorem value_digits (n : Nat) : value (digits n) = n := by
  induction n using digits.induct with
  | case1 n hn =>
    rw [digits, if_pos hn]
    simp [value, toNat_digitChar hn]
  | case2 n hn ih =>
    rw [digits, if_neg hn, value_concat, ih, toNat_digitChar (Nat.mod_lt n (by decide))]
    omega

theorem isDigit_of_mem_digits {n : Nat} : ∀ c ∈ digits n, isDigit c = true :=
  digits_induct (p := fun c => isDigit c = true) (by decide) n

/-- A number is written with at least one digit. -/
theorem digits_ne_nil (n : Nat) : digits n ≠ [] := by
  rw [digits]
  split <;> simp

/-- Only zero is written with a zero in front. -/
theorem digits_eq_zero {n : Nat} {rest : List Char} (h : digits n = '0' :: rest) : n = 0 := by
  induction n using digits.induct generalizing rest with
  | case1 n hn =>
    rw [digits, if_pos hn] at h
    have hd : ∀ d < 10, digitChar d = '0' → d = 0 := by decide
    exact hd n hn (by simpa using (List.cons.inj h).1)
  | case2 n hn ih =>
    rw [digits, if_neg hn] at h
    obtain ⟨c, cs, hcs⟩ := List.exists_cons_of_ne_nil (digits_ne_nil (n / 10))
    rw [hcs, List.cons_append] at h
    have hzero : digits (n / 10) = '0' :: cs := by rw [hcs, (List.cons.inj h).1]
    have := ih hzero
    omega

/-- A power of ten has a digit more than its exponent says. -/
theorem length_digits_pow (k : Nat) : (digits (10 ^ k)).length = k + 1 := by
  induction k with
  | zero =>
    rw [digits]
    rfl
  | succ k ih =>
    have hpos : 0 < 10 ^ k := Nat.pos_of_ne_zero (by simp)
    rw [digits, if_neg (by omega), List.length_append, Nat.pow_succ,
      Nat.mul_div_cancel _ (by decide), ih]
    rfl

/-- A number has no more digits than that if it is less than the power of ten. -/
theorem length_digits_le_iff {n k : Nat} (hk : 0 < k) : (digits n).length ≤ k ↔ n < 10 ^ k := by
  induction n using digits.induct generalizing k with
  | case1 n hn =>
    rw [digits, if_pos hn]
    have hten : 10 ^ 1 ≤ 10 ^ k := Nat.pow_le_pow_right (by decide) hk
    exact iff_of_true hk (by omega)
  | case2 n hn ih =>
    rw [digits, if_neg hn, List.length_append, List.length_singleton]
    obtain ⟨k, rfl⟩ := Nat.exists_eq_succ_of_ne_zero (Nat.pos_iff_ne_zero.mp hk)
    rcases Nat.eq_zero_or_pos k with rfl | hpos
    · have := List.length_pos_iff.mpr (digits_ne_nil (n / 10))
      exact iff_of_false (by omega) (by omega)
    · rw [Nat.succ_eq_add_one, Nat.add_le_add_iff_right, ih hpos, Nat.pow_succ,
        Nat.div_lt_iff_lt_mul (by decide)]

end Numeral

end LanguageRelay

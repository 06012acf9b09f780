import Mathlib.Data.Sign.Basic
import Orisun.Proofs.TagMatching

/-!
# Number tokens are ordered by their exact values

`CompareJSONNumbers` returns the sign of the difference of two tokens' values and is silent exactly
where one of them is not a number.
-/

namespace Orisun

def NumberOf (token : String) (x : ℚ) : Prop :=
  ∃ t : NumberText, t.Valid ∧ token.toList = t.chars ∧ t.value = x

theorem numberOf_iff {token : String} {x : ℚ} : NumberOf token x ↔ numberValue token = some x := by
  constructor
  · rintro ⟨t, ht, hchars, rfl⟩
    rw [← ht.numberValue, ← hchars, String.ofList_toList]
  · intro h
    by_cases hpattern : jsonNumberPattern token.toList = true
    · obtain ⟨t, ht, hchars⟩ := exists_of_jsonNumberPattern hpattern
      have hvalue := ht.numberValue
      rw [← hchars, String.ofList_toList, h] at hvalue
      exact ⟨t, ht, hchars, (Option.some.inj hvalue).symm⟩
    · rw [(decimalParts_eq_none (Bool.eq_false_iff.2 hpattern)).2] at h
      cases h

theorem jsonNumberPattern_iff {token : String} :
    jsonNumberPattern token.toList = true ↔ ∃ x, NumberOf token x := by
  constructor
  · intro h
    obtain ⟨t, ht, hchars⟩ := exists_of_jsonNumberPattern h
    exact ⟨t.value, t, ht, hchars, rfl⟩
  · rintro ⟨x, t, ht, hchars, -⟩
    rw [hchars]
    exact ht.jsonNumberPattern

theorem sign_eq_sign_sub (x y : ℚ) : Decimal.sign x y = (SignType.sign (x - y) : ℤ) := by
  rcases lt_trichotomy x y with h | rfl | h
  · rw [Decimal.sign_of_lt h, sign_neg (sub_neg.2 h)]
    rfl
  · rw [Decimal.sign_self, sub_self, sign_zero]
    rfl
  · rw [Decimal.sign_of_gt h, sign_pos (sub_pos.2 h)]
    rfl

section Tokens

variable {a b c : String} {x y z : ℚ}

theorem compareJSONNumbers_numbers (hx : NumberOf a x) (hy : NumberOf b y) :
    compareJSONNumbers a b = some (SignType.sign (x - y) : ℤ) := by
  rw [compareJSONNumbers_eq, numberOf_iff.1 hx, numberOf_iff.1 hy, ← sign_eq_sign_sub]
  rfl

theorem compareJSONNumbers_eq_none : compareJSONNumbers a b = none ↔
    (¬∃ x, NumberOf a x) ∨ ¬∃ y, NumberOf b y := by
  simp only [compareJSONNumbers_eq, numberOf_iff]
  rcases numberValue a with _ | x
  · simp
  · rcases numberValue b with _ | y <;> simp

theorem exists_of_compareJSONNumbers {i : ℤ} (h : compareJSONNumbers a b = some i) :
    ∃ x y, NumberOf a x ∧ NumberOf b y ∧ i = (SignType.sign (x - y) : ℤ) := by
  have hnum : (∃ x, NumberOf a x) ∧ ∃ y, NumberOf b y := by
    by_contra hnot
    rw [not_and_or, ← compareJSONNumbers_eq_none, h] at hnot
    cases hnot
  obtain ⟨⟨x, hx⟩, y, hy⟩ := hnum
  rw [compareJSONNumbers_numbers hx hy] at h
  exact ⟨x, y, hx, hy, (Option.some.inj h).symm⟩

theorem sign_sub_eq_zero : ((SignType.sign (x - y) : ℤ) = 0) ↔ x = y := by
  rw [← sign_eq_sign_sub, Decimal.sign]
  split_ifs with hlt hgt
  · simp [hlt.ne]
  · simp [hgt.ne']
  · simp [le_antisymm (not_lt.1 hgt) (not_lt.1 hlt)]

theorem sign_sub_nonpos : ((SignType.sign (x - y) : ℤ) ≤ 0) ↔ x ≤ y := by
  rw [← sign_eq_sign_sub, Decimal.sign]
  split_ifs with hlt hgt
  · simp [hlt.le]
  · simpa using hgt
  · simpa using hgt

theorem value_of_zeros {t : NumberText} (h : ∀ c ∈ t.whole ++ t.fraction, c = '0') :
    t.value = 0 := by
  have hzero : Decimal.value ((t.whole ++ t.fraction).map digit) = 0 := by
    rw [List.eq_replicate_of_mem h, List.map_replicate, digit_zero, Decimal.value_replicate_zero]
  rw [NumberText.value, hzero]
  simp

end Tokens

theorem orisunCompareNumber_eq_compareJSONNumbers (a b : String) :
    orisunCompareNumber a b = compareJSONNumbers a b := by
  rw [orisunCompareNumber_eq, compareJSONNumbers_eq]

theorem orisunCompareNumberIn_ok {a b : String} :
    Postgres.orisunCompareNumberIn a b = .ok (compareJSONNumbers a b) ↔
      (jsonNumberPattern a.toList = true → Postgres.numericFits a = true ∧
        (jsonNumberPattern b.toList = true → Postgres.numericFits b = true)) := by
  have hnone : ∀ {token : String}, jsonNumberPattern token.toList = false →
      ¬∃ x, NumberOf token x := fun h hx => by
    rw [← jsonNumberPattern_iff, h] at hx
    cases hx
  unfold Postgres.orisunCompareNumberIn
  rw [orisunCompareNumber_eq_compareJSONNumbers]
  rcases ha : jsonNumberPattern a.toList with _ | _
  · simp [compareJSONNumbers_eq_none.2 (.inl (hnone ha))]
  · rcases hfa : Postgres.numericFits a with _ | _
    · simp
    · rcases hb : jsonNumberPattern b.toList with _ | _
      · simp [compareJSONNumbers_eq_none.2 (.inr (hnone hb))]
      · rcases hfb : Postgres.numericFits b with _ | _ <;> simp

/-- Both comparisons order the numbers by their exact values: the spellings of one value, and only
they, are equal, as are zeros of any sign and exponent, and the order is total. -/
theorem numbers_compare_exactly (a b : String) :
    (compareJSONNumbers a b = none ↔ (¬∃ x, NumberOf a x) ∨ ¬∃ y, NumberOf b y) ∧
    (∀ x y, NumberOf a x → NumberOf b y →
      compareJSONNumbers a b = some (SignType.sign (x - y) : ℤ) ∧
        (compareJSONNumbers a b = some 0 ↔ x = y)) ∧
    (∀ i, compareJSONNumbers a b = some i →
      compareJSONNumbers b a = some (-i) ∧ compareJSONNumbers a a = some 0 ∧
        ∀ c j, compareJSONNumbers b c = some j → i ≤ 0 → j ≤ 0 →
          ∃ k, compareJSONNumbers a c = some k ∧ k ≤ 0) ∧
    (∀ t t' : NumberText, t.Valid → t'.Valid → (∀ c ∈ t.whole ++ t.fraction, c = '0') →
      (∀ c ∈ t'.whole ++ t'.fraction, c = '0') → a.toList = t.chars → b.toList = t'.chars →
        compareJSONNumbers a b = some 0) ∧
    (Postgres.orisunCompareNumberIn a b = .ok (compareJSONNumbers a b) ↔
      (jsonNumberPattern a.toList = true → Postgres.numericFits a = true ∧
        (jsonNumberPattern b.toList = true → Postgres.numericFits b = true))) := by
  refine ⟨compareJSONNumbers_eq_none, ?_, ?_, ?_, orisunCompareNumberIn_ok⟩
  · intro x y hx hy
    rw [compareJSONNumbers_numbers hx hy]
    exact ⟨rfl, by rw [Option.some_inj, sign_sub_eq_zero]⟩
  · intro i h
    obtain ⟨x, y, hx, hy, rfl⟩ := exists_of_compareJSONNumbers h
    refine ⟨?_, ?_, ?_⟩
    · rw [compareJSONNumbers_numbers hy hx, ← sign_eq_sign_sub, ← sign_eq_sign_sub,
        Decimal.neg_sign]
    · rw [compareJSONNumbers_numbers hx hx, Option.some_inj, sign_sub_eq_zero]
    · intro c j hj hi0 hj0
      obtain ⟨y', z, hy', hz, rfl⟩ := exists_of_compareJSONNumbers hj
      obtain rfl : y = y' := by
        rw [numberOf_iff] at hy hy'
        exact Option.some.inj (hy.symm.trans hy')
      refine ⟨_, compareJSONNumbers_numbers hx hz, ?_⟩
      rw [sign_sub_nonpos] at hi0 hj0 ⊢
      exact hi0.trans hj0
  · intro t t' ht ht' hzero hzero' hchars hchars'
    rw [compareJSONNumbers_numbers ⟨t, ht, hchars, value_of_zeros hzero⟩
      ⟨t', ht', hchars', value_of_zeros hzero'⟩, Option.some_inj, sign_sub_eq_zero]

theorem magnitudeFits_nines {n : ℕ} (h : n = Postgres.maxNumericDigits) :
    Postgres.magnitudeFits (String.ofList (nines n).chars) = false := by
  have hpos : 0 < n := h ▸ (by decide)
  have hdigits : ((nines n).whole ++ (nines n).fraction).dropWhile (· == '0') = ['1'] := rfl
  have hsum : (10 : ℤ) ^ n - 1 + 1 = ((10 ^ n : ℕ) : ℤ) := by
    push_cast
    ring
  have hout : Postgres.numericHolds (10 ^ n - 1 + 1) = false := by
    rw [Bool.eq_false_iff, ne_eq, Postgres.numericHolds_iff, hsum, Int.natAbs_natCast, h]
    exact lt_irrefl _
  rw [Postgres.magnitudeFits_eq (valid_nines hpos), hdigits, exponentValue_nines hpos,
    List.length_singleton, Nat.cast_one, hout]
  rfl

/-- `numeric` holds the exponent of nines but not the magnitude of the number. -/
theorem greatest_exponent_raises : ∃ b, jsonNumberPattern b.toList = true ∧
    Postgres.exponentFits "1" = true ∧ Postgres.exponentFits b = true ∧
    compareJSONNumbers "1" b = some (-1) ∧
    Postgres.orisunCompareNumberIn "1" b = .error .numericOutOfRange := by
  obtain ⟨n, hn⟩ : ∃ n, n = Postgres.maxNumericDigits := ⟨_, rfl⟩
  have hpos : 0 < n := hn ▸ (by decide)
  have hpattern : jsonNumberPattern (String.ofList (nines n).chars).toList = true := by
    rw [String.toList_ofList]
    exact (valid_nines hpos).jsonNumberPattern
  have hfits : Postgres.numericFits (String.ofList (nines n).chars) = false := by
    rw [Postgres.numericFits, magnitudeFits_nines hn, Bool.and_false]
  have hexponent : Postgres.exponentFits (String.ofList (nines n).chars) = true := by
    rw [exponentFits_nines, hn, decide_eq_true_iff]
  exact ⟨_, hpattern, by decide, hexponent, compareJSONNumbers_nines hpos,
    orisunCompareNumberIn_nines hpos hfits⟩

end Orisun

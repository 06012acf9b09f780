import Mathlib.Tactic.IntervalCases
import Orisun.Proofs.Number

/-!
# A number kept as `numeric`

`numeric` has no exponent: the point is moved over the digits of the token, with zeros where there
are none, and leading zeros are dropped.
-/

namespace Orisun.Postgres

variable {t : NumberText}

def movedPoint (t : NumberText) : ℤ := t.whole.length + exponentValue t.exponent.tail

/-- The digits before the moved point, zeros in front included. -/
def integerDigits (t : NumberText) : List Char :=
  (t.whole ++ t.fraction).take (movedPoint t).toNat
    ++ List.replicate ((movedPoint t).toNat - (t.whole ++ t.fraction).length) '0'

def fractionDigits (t : NumberText) : List Char :=
  List.replicate (-movedPoint t).toNat '0' ++ (t.whole ++ t.fraction).drop (movedPoint t).toNat

def printed (t : NumberText) : NumberText where
  negative := t.negative && (t.whole ++ t.fraction).any (· != '0')
  whole :=
    if (integerDigits t).dropWhile (· == '0') = [] then ['0']
    else (integerDigits t).dropWhile (· == '0')
  fraction := fractionDigits t
  exponent := []

theorem length_fractionDigits (t : NumberText) : (fractionDigits t).length
    = ((t.fraction.length : ℤ) - exponentValue t.exponent.tail).toNat := by
  simp only [fractionDigits, List.length_append, List.length_replicate, List.length_drop,
    movedPoint]
  omega

theorem numericIn_eq (h : t.Valid) : numericIn (String.ofList t.chars)
    = if ((integerDigits t).dropWhile (· == '0')).length > maxNumericDigits
        || (fractionDigits t).length > maxNumericScale then none
      else some (String.ofList (printed t).chars) := by
  unfold numericIn
  rw [String.toList_ofList]
  dsimp only
  rw [h.unsigned_chars, h.mantissa, NumberText.drop_mantissa, h.takeWhile_point,
    h.dropWhile_point, NumberText.tail_point, h.head_chars, ← length_fractionDigits]
  refine if_congr Iff.rfl rfl ?_
  simp only [NumberText.chars, NumberText.unsigned, printed, List.append_nil,
    List.length_eq_zero_iff, List.isEmpty_iff, List.append_assoc]
  rfl

theorem isDigit_integerDigits (h : t.Valid) : ∀ c ∈ integerDigits t, isDigit c = true := by
  intro c hc
  rcases List.mem_append.1 hc with hc | hc
  · exact h.digits c (List.mem_of_mem_take hc)
  · rw [List.eq_of_mem_replicate hc]
    decide

theorem isDigit_fractionDigits (h : t.Valid) : ∀ c ∈ fractionDigits t, isDigit c = true := by
  intro c hc
  rcases List.mem_append.1 hc with hc | hc
  · rw [List.eq_of_mem_replicate hc]
    decide
  · exact h.digits c (List.mem_of_mem_drop hc)

theorem valid_printed (h : t.Valid) : (printed t).Valid where
  whole := by
    unfold printed
    dsimp only
    split_ifs with hnil
    · exact .inl rfl
    · obtain ⟨d, ds, hd⟩ := List.exists_cons_of_ne_nil hnil
      have hdigit : ∀ c ∈ d :: ds, isDigit c = true := fun c hc =>
        isDigit_integerDigits h c ((List.dropWhile_sublist _).subset (hd ▸ hc))
      have hhead := List.head?_dropWhile_not (· == '0') (integerDigits t)
      rw [hd] at hhead
      exact .inr ⟨d, ds, hd, by simpa using hhead, hdigit d (List.mem_cons_self ..),
        fun c hc => hdigit c (List.mem_cons_of_mem d hc)⟩
  fraction := isDigit_fractionDigits h
  exponent := rfl

theorem value_replicate (n : ℕ) : Decimal.value ((List.replicate n '0').map digit) = 0 := by
  rw [List.map_replicate, digit_zero, Decimal.value_replicate_zero]

theorem value_moved (t : NumberText) :
    Decimal.value ((integerDigits t ++ fractionDigits t).map digit)
      = Decimal.value ((t.whole ++ t.fraction).map digit)
        * 10 ^ ((movedPoint t).toNat - (t.whole ++ t.fraction).length) := by
  unfold integerDigits fractionDigits
  generalize t.whole ++ t.fraction = digits
  generalize movedPoint t = p
  by_cases hp : p.toNat ≤ digits.length
  · rw [Nat.sub_eq_zero_of_le hp, List.replicate_zero, List.append_nil, pow_zero, mul_one]
    rcases le_or_gt p 0 with hneg | hpos
    · rw [Int.toNat_of_nonpos hneg, List.take_zero, List.drop_zero, List.nil_append,
        List.map_append, Decimal.value_append, value_replicate, zero_mul, zero_add]
    · rw [Int.toNat_of_nonpos (show -p ≤ 0 by omega), List.replicate_zero, List.nil_append,
        List.take_append_drop]
  · rw [List.take_of_length_le (by omega), List.drop_of_length_le (by omega),
      Int.toNat_of_nonpos (show -p ≤ 0 by omega), List.replicate_zero, List.append_nil,
      List.append_nil, List.map_append, Decimal.value_append, value_replicate, add_zero,
      List.length_map, List.length_replicate]

theorem value_whole_printed (t : NumberText) : Decimal.value ((printed t).whole.map digit)
    = Decimal.value ((integerDigits t).map digit) := by
  rw [value_dropWhile_zero (integerDigits t)]
  unfold printed
  dsimp only
  split_ifs with hnil
  · rw [hnil]
    rfl
  · rfl

theorem value_printed (t : NumberText) : (printed t).value = t.value := by
  have hmoved : Decimal.value (((printed t).whole ++ (printed t).fraction).map digit)
      = Decimal.value ((t.whole ++ t.fraction).map digit)
        * 10 ^ ((movedPoint t).toNat - (t.whole ++ t.fraction).length) := by
    rw [← value_moved, List.map_append, List.map_append, Decimal.value_append,
      Decimal.value_append, value_whole_printed]
    rfl
  have hscale : ((((movedPoint t).toNat - (t.whole ++ t.fraction).length : ℕ) : ℤ)
      + (exponentValue (printed t).exponent.tail - ((printed t).fraction.length : ℤ)))
      = exponentValue t.exponent.tail - t.fraction.length := by
    have hlength : (printed t).fraction.length = _ := length_fractionDigits t
    have hexponent : exponentValue (printed t).exponent.tail = 0 := rfl
    rw [hlength, hexponent, movedPoint, List.length_append]
    omega
  have hmagnitude : (Decimal.value (((printed t).whole ++ (printed t).fraction).map digit) : ℚ)
        * 10 ^ (exponentValue (printed t).exponent.tail - ((printed t).fraction.length : ℤ))
      = (Decimal.value ((t.whole ++ t.fraction).map digit) : ℚ)
        * 10 ^ (exponentValue t.exponent.tail - (t.fraction.length : ℤ)) := by
    rw [hmoved]
    push_cast
    rw [mul_assoc, ← zpow_natCast, ← zpow_add₀ (by norm_num), hscale]
  unfold NumberText.value
  dsimp only
  rw [hmagnitude, show (printed t).negative
    = (t.negative && (t.whole ++ t.fraction).any (· != '0')) from rfl]
  rcases hany : (t.whole ++ t.fraction).any (· != '0') with _ | _
  · -- a zero has no sign, and no digit of it counts
    have hzero : t.whole ++ t.fraction = List.replicate (t.whole ++ t.fraction).length '0' :=
      List.eq_replicate_of_mem fun c hc => by
        by_contra hne
        rw [List.any_eq_false] at hany
        exact hany c hc (by simpa using hne)
    rw [hzero, value_replicate]
    simp
  · rw [Bool.and_true]

variable {token out : String}

theorem numberValue_numericIn (h : jsonNumberPattern token.toList = true)
    (hout : numericIn token = some out) : numberValue out = numberValue token := by
  obtain ⟨t, ht, hchars⟩ := exists_of_jsonNumberPattern h
  have htoken : token = String.ofList t.chars := by rw [← hchars, String.ofList_toList]
  rw [htoken, numericIn_eq ht] at hout
  split_ifs at hout
  cases hout
  rw [htoken, (valid_printed ht).numberValue, ht.numberValue, value_printed]

theorem exponentFits_numericIn (h : jsonNumberPattern token.toList = true)
    (hout : numericIn token = some out) : exponentFits out = true := by
  obtain ⟨t, ht, hchars⟩ := exists_of_jsonNumberPattern h
  have htoken : token = String.ofList t.chars := by rw [← hchars, String.ofList_toList]
  rw [htoken, numericIn_eq ht] at hout
  split_ifs at hout
  cases hout
  have hfree : ∀ c ∈ (printed t).chars, (c != 'e' && c != 'E') = true := by
    intro c hc
    rcases List.mem_append.1 hc with hc | hc
    · split_ifs at hc
      · rw [List.mem_singleton.1 hc]
        decide
      · cases hc
    · refine (valid_printed ht).letterFree c ?_
      rwa [NumberText.unsigned, show (printed t).exponent = [] from rfl, List.append_nil] at hc
  unfold exponentFits
  rw [String.toList_ofList, List.dropWhile_eq_nil_iff.2 hfree]
  decide

variable {n : ℤ}

theorem numericHolds_iff : numericHolds n = true ↔ n.natAbs < 10 ^ maxNumericDigits :=
  decide_eq_true_iff

theorem numericHolds_of_le (h : n.natAbs ≤ maxNumericDigits + maxNumericScale) :
    numericHolds n = true := by
  have hsmall : maxNumericDigits + maxNumericScale < 10 ^ 6 := by decide
  have hlarge : 10 ^ 6 ≤ 10 ^ maxNumericDigits := Nat.pow_le_pow_right (by omega) (by decide)
  exact numericHolds_iff.2 (h.trans_lt (hsmall.trans_le hlarge))

theorem magnitudeFits_eq (h : t.Valid) : magnitudeFits (String.ofList t.chars)
    = (((t.whole ++ t.fraction).dropWhile (· == '0')).isEmpty ||
      numericHolds (exponentValue t.exponent.tail
        + ((t.whole ++ t.fraction).dropWhile (· == '0')).length) &&
      numericHolds (exponentValue t.exponent.tail
        + ((t.whole ++ t.fraction).dropWhile (· == '0')).length - t.fraction.length)) := by
  unfold magnitudeFits
  rw [String.toList_ofList]
  dsimp only
  rw [h.unsigned_chars, h.mantissa, NumberText.drop_mantissa, h.dropWhile_point, h.filter_point,
    NumberText.length_point]

theorem magnitudeFits_numericIn (h : jsonNumberPattern token.toList = true)
    (hout : numericIn token = some out) : magnitudeFits out = true := by
  obtain ⟨t, ht, hchars⟩ := exists_of_jsonNumberPattern h
  have htoken : token = String.ofList t.chars := by rw [← hchars, String.ofList_toList]
  rw [htoken, numericIn_eq ht] at hout
  split_ifs at hout with hlong
  cases hout
  simp only [Bool.or_eq_true, decide_eq_true_eq, not_or, not_lt] at hlong
  have hwhole : (printed t).whole.length ≤ maxNumericDigits := by
    unfold printed
    dsimp only
    split_ifs
    · decide
    · exact hlong.1
  have hfraction : (printed t).fraction.length ≤ maxNumericScale := hlong.2
  have hdigits : (((printed t).whole ++ (printed t).fraction).dropWhile (· == '0')).length
      ≤ (printed t).whole.length + (printed t).fraction.length := by
    rw [← List.length_append]
    exact (List.dropWhile_sublist _).length_le
  have hexponent : exponentValue (printed t).exponent.tail = 0 := rfl
  rw [magnitudeFits_eq (valid_printed ht), hexponent, zero_add, Bool.or_eq_true, Bool.and_eq_true]
  refine .inr ⟨numericHolds_of_le ?_, numericHolds_of_le ?_⟩ <;> omega

theorem numericFits_numericIn (h : jsonNumberPattern token.toList = true)
    (hout : numericIn token = some out) : numericFits out = true := by
  rw [numericFits, exponentFits_numericIn h hout, magnitudeFits_numericIn h hout]
  rfl

theorem head_toDigits_ne_zero : ∀ n : ℕ, 0 < n → (Nat.toDigits 10 n).head? ≠ some '0' := by
  intro n
  induction n using Nat.strong_induction_on with
  | _ n ih =>
    intro hn
    by_cases h10 : n < 10
    · rw [Nat.toDigits_of_lt_base h10]
      interval_cases n <;> decide
    · rw [Nat.toDigits_of_base_le (by omega) (by omega), List.head?_append_of_ne_nil _
        Nat.toDigits_ne_nil]
      exact ih (n / 10) (by omega) (by omega)

theorem isDigit_of_mem_toDigits {n : ℕ} {c : Char} (h : c ∈ Nat.toDigits 10 n) :
    isDigit c = true := by
  have hc := Nat.isDigit_of_mem_toDigits (by omega) le_rfl h
  simpa [isDigit, Char.isDigit, Char.le_def] using hc

def integerText (negative : Bool) (n : ℕ) : NumberText := ⟨negative, Nat.toDigits 10 n, [], []⟩

theorem valid_integerText (negative : Bool) (n : ℕ) : (integerText negative n).Valid where
  whole := by
    rcases Nat.eq_zero_or_pos n with rfl | hn
    · exact .inl (Nat.toDigits_zero 10)
    · obtain ⟨d, ds, hd⟩ := List.exists_cons_of_ne_nil (@Nat.toDigits_ne_nil n 10)
      have hhead := head_toDigits_ne_zero n hn
      rw [hd] at hhead
      have hdigit : ∀ c ∈ d :: ds, isDigit c = true := fun c hc =>
        isDigit_of_mem_toDigits (hd ▸ hc)
      exact .inr ⟨d, ds, hd, by simpa using hhead, hdigit d (List.mem_cons_self ..),
        fun c hc => hdigit c (List.mem_cons_of_mem d hc)⟩
  fraction := by simp [integerText]
  exponent := rfl

theorem integerDigits_integerText (negative : Bool) (n : ℕ) :
    integerDigits (integerText negative n) = Nat.toDigits 10 n := by
  have hpoint : movedPoint (integerText negative n) = (Nat.toDigits 10 n).length := by
    show ((Nat.toDigits 10 n).length : ℤ) + 0 = _
    omega
  rw [integerDigits, hpoint, Int.toNat_natCast]
  simp [integerText]

theorem fractionDigits_integerText (negative : Bool) (n : ℕ) :
    fractionDigits (integerText negative n) = [] := by
  rw [← List.length_eq_zero_iff, length_fractionDigits]
  rfl

theorem toDigits_dropWhile {n : ℕ} (hn : 0 < n) :
    (Nat.toDigits 10 n).dropWhile (· == '0') = Nat.toDigits 10 n := by
  obtain ⟨d, ds, hd⟩ := List.exists_cons_of_ne_nil (@Nat.toDigits_ne_nil n 10)
  have hhead := head_toDigits_ne_zero n hn
  rw [hd] at hhead ⊢
  exact List.dropWhile_cons_of_neg (by simpa using hhead)

theorem printed_integerText {negative : Bool} {n : ℕ} (h : negative = true → 0 < n) :
    printed (integerText negative n) = integerText negative n := by
  have hwhole : (if (Nat.toDigits 10 n).dropWhile (· == '0') = [] then ['0']
      else (Nat.toDigits 10 n).dropWhile (· == '0')) = Nat.toDigits 10 n := by
    rcases Nat.eq_zero_or_pos n with rfl | hn
    · rw [Nat.toDigits_zero]
      rfl
    · rw [toDigits_dropWhile hn, if_neg Nat.toDigits_ne_nil]
  have hsign : (negative && (Nat.toDigits 10 n).any (· != '0')) = negative := by
    rcases negative with _ | _
    · rfl
    · obtain ⟨d, ds, hd⟩ := List.exists_cons_of_ne_nil (@Nat.toDigits_ne_nil n 10)
      have hhead := head_toDigits_ne_zero n (h rfl)
      rw [hd] at hhead ⊢
      have hne : d ≠ '0' := by simpa using hhead
      simp [hne]
  unfold printed
  rw [integerDigits_integerText, fractionDigits_integerText]
  show (⟨negative && (Nat.toDigits 10 n ++ []).any _, _, [], []⟩ : NumberText) = _
  rw [List.append_nil, hsign, hwhole]
  rfl

theorem numericIn_toString (hn : n.natAbs < 10 ^ 19) :
    numericIn (toString n) = some (toString n) := by
  have hkeep : ∀ negative, (negative = true → 0 < n.natAbs) →
      numericIn (String.ofList (integerText negative n.natAbs).chars)
        = some (String.ofList (integerText negative n.natAbs).chars) := by
    intro negative hneg
    have hlength : ((Nat.toDigits 10 n.natAbs).dropWhile (· == '0')).length ≤ 19 :=
      ((List.dropWhile_sublist _).length_le).trans
        ((Nat.length_toDigits_le_iff (by omega) (by omega)).2 hn)
    rw [numericIn_eq (valid_integerText _ _), integerDigits_integerText,
      fractionDigits_integerText, printed_integerText hneg, if_neg]
    have hshort : ¬ ((Nat.toDigits 10 n.natAbs).dropWhile (· == '0')).length
        > maxNumericDigits := by
      rw [maxNumericDigits]
      omega
    simp [hshort]
  rcases n with n | n
  · have htext : toString (Int.ofNat n) = String.ofList (integerText false n).chars := by
      rw [show toString (Int.ofNat n) = toString n from rfl, Nat.toString_eq_ofList_toDigits]
      simp [NumberText.chars, NumberText.unsigned, integerText]
    rw [htext]
    exact hkeep false (by simp)
  · have htext : toString (Int.negSucc n) = String.ofList (integerText true (n + 1)).chars := by
      rw [show toString (Int.negSucc n) = "-" ++ toString (n + 1) from rfl,
        Nat.toString_eq_ofList_toDigits]
      show String.ofList ['-'] ++ String.ofList (Nat.toDigits 10 (n + 1)) = _
      rw [← String.ofList_append]
      simp [NumberText.chars, NumberText.unsigned, integerText]
    rw [htext]
    exact hkeep true fun _ => Nat.succ_pos n

end Orisun.Postgres

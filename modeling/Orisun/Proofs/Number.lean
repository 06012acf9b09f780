import Mathlib.Data.List.TakeWhile
import Orisun.TagMatching

/-!
# Number tokens compare as their decimal values

A token is a sign, digits before and after the point, and an exponent.
-/

namespace Orisun

def digit (c : Char) : ℕ := c.toNat - 48

theorem isDigit_iff {c : Char} : isDigit c = true ↔ 48 ≤ c.toNat ∧ c.toNat ≤ 57 := by
  simp only [isDigit, Bool.and_eq_true, decide_eq_true_eq, Char.le_def]
  rfl

theorem digit_le (c : Char) (h : isDigit c = true) : digit c ≤ 9 := by
  rw [isDigit_iff] at h
  unfold digit
  omega

theorem digits_map {ds : List Char} (h : ∀ c ∈ ds, isDigit c = true) :
    Decimal.Digits (ds.map digit) := by
  intro d hd
  obtain ⟨c, hc, rfl⟩ := List.mem_map.1 hd
  exact digit_le c (h c hc)

theorem digit_lt_iff {a b : Char} (ha : isDigit a = true) (hb : isDigit b = true) :
    digit a < digit b ↔ a < b := by
  rw [isDigit_iff] at ha hb
  rw [Char.lt_def, UInt32.lt_iff_toNat_lt]
  show a.toNat - 48 < b.toNat - 48 ↔ a.toNat < b.toNat
  omega

theorem digitsValue_eq (ds : List Char) : digitsValue ds = Decimal.value (ds.map digit) := by
  rw [digitsValue, Decimal.value, List.foldl_map]
  rfl

theorem digit_zero : digit '0' = 0 := rfl

theorem compareDigits_eq : ∀ {a b : List Char}, (∀ c ∈ a, isDigit c = true) →
    (∀ c ∈ b, isDigit c = true) →
    compareDigits a b = Decimal.compare (a.map digit) (b.map digit)
  | [], [], _, _ => by simp [compareDigits, Decimal.compare]
  | a :: as, [], ha, hb => by
    obtain ⟨h, ht⟩ := List.forall_mem_cons.1 ha
    have hlt : a > '0' ↔ 0 < digit a := (digit_lt_iff (by decide) h).symm
    simp only [compareDigits, List.map_cons, List.map_nil, Decimal.compare, hlt]
    rw [compareDigits_eq ht hb, List.map_nil]
  | [], b :: bs, ha, hb => by
    obtain ⟨h, ht⟩ := List.forall_mem_cons.1 hb
    have hlt : '0' < b ↔ 0 < digit b := (digit_lt_iff (by decide) h).symm
    simp only [compareDigits, List.map_cons, List.map_nil, Decimal.compare, hlt]
    rw [compareDigits_eq ha ht, List.map_nil]
  | a :: as, b :: bs, ha, hb => by
    obtain ⟨h, ht⟩ := List.forall_mem_cons.1 ha
    obtain ⟨h', ht'⟩ := List.forall_mem_cons.1 hb
    simp only [compareDigits, List.map_cons, Decimal.compare, gt_iff_lt, digit_lt_iff h h',
      digit_lt_iff h' h]
    rw [compareDigits_eq ht ht']

theorem sign_text_eq : ∀ {a b : List Char}, (∀ c ∈ a, isDigit c = true) →
    (∀ c ∈ b, isDigit c = true) → a.length = b.length →
    (if a < b then -1 else if b < a then 1 else 0 : ℤ)
      = Decimal.sign (Decimal.fraction (a.map digit)) (Decimal.fraction (b.map digit))
  | [], [], _, _, _ => by simp
  | a :: as, b :: bs, ha, hb, hl => by
    obtain ⟨h, ht⟩ := List.forall_mem_cons.1 ha
    obtain ⟨h', ht'⟩ := List.forall_mem_cons.1 hb
    rw [List.map_cons, List.map_cons, Decimal.sign_fraction_cons (digits_map ht) (digits_map ht'),
      ← sign_text_eq ht ht' (Nat.succ.inj hl)]
    simp only [List.cons_lt_cons_iff, digit_lt_iff h h', digit_lt_iff h' h]
    rcases lt_trichotomy a b with hab | rfl | hab
    · simp [hab]
    · simp
    · simp [hab, hab.not_gt, hab.ne']

theorem comparePadded_eq {a b : List Char} (ha : ∀ c ∈ a, isDigit c = true)
    (hb : ∀ c ∈ b, isDigit c = true) : comparePadded a b
      = Decimal.sign (Decimal.fraction (a.map digit)) (Decimal.fraction (b.map digit)) := by
  have hpad : ∀ {ds : List Char} (n : ℕ), (∀ c ∈ ds, isDigit c = true) →
      ∀ c ∈ ds ++ List.replicate n '0', isDigit c = true := by
    intro ds n hds c hc
    rcases List.mem_append.1 hc with hc | hc
    · exact hds c hc
    · rw [List.eq_of_mem_replicate hc]
      decide
  unfold comparePadded
  rw [sign_text_eq (hpad _ ha) (hpad _ hb) (by simp)]
  simp only [List.map_append, List.map_replicate, digit_zero,
    Decimal.fraction_append_replicate]

/-- A number's text: its digits before and after the point, and what follows from the letter of its
exponent on. -/
structure NumberText where
  negative : Bool
  whole : List Char
  fraction : List Char
  exponent : List Char

namespace NumberText

def unsigned (t : NumberText) : List Char :=
  t.whole ++ (if t.fraction = [] then [] else '.' :: t.fraction) ++ t.exponent

def chars (t : NumberText) : List Char := (if t.negative then ['-'] else []) ++ t.unsigned

/-- The text is one of the grammar. -/
structure Valid (t : NumberText) : Prop where
  whole : t.whole = ['0'] ∨ ∃ d ds, t.whole = d :: ds ∧ d ≠ '0' ∧ isDigit d = true ∧
    ∀ c ∈ ds, isDigit c = true
  fraction : ∀ c ∈ t.fraction, isDigit c = true
  exponent : exponentPattern t.exponent = true

end NumberText

variable {s : List Char}

theorem eq_nil_or_letter (h : exponentPattern s = true) :
    s = [] ∨ ∃ c r, s = c :: r ∧ (c = 'e' ∨ c = 'E') := by
  cases s with
  | nil => exact .inl rfl
  | cons c r =>
    simp only [exponentPattern, Bool.and_eq_true, Bool.or_eq_true, beq_iff_eq] at h
    exact .inr ⟨c, r, rfl, h.1.1⟩

theorem exists_of_fractionPattern (h : fractionPattern s = true) :
    ∃ fraction exponent, s = (if fraction = [] then [] else '.' :: fraction) ++ exponent ∧
      (∀ c ∈ fraction, isDigit c = true) ∧ exponentPattern exponent = true := by
  unfold fractionPattern at h
  split at h
  · rename_i d s
    rw [Bool.and_eq_true] at h
    refine ⟨d :: s.takeWhile isDigit, s.dropWhile isDigit, ?_, ?_, h.2⟩
    · rw [if_neg (List.cons_ne_nil _ _), List.cons_append, List.cons_append,
        List.takeWhile_append_dropWhile]
    · exact List.forall_mem_cons.2 ⟨h.1, fun c hc => List.mem_takeWhile_imp hc⟩
  · exact ⟨[], s, by simp, by simp, h⟩

def unsignedPattern : List Char → Bool
  | '0' :: s => fractionPattern s
  | d :: s => isDigit d && fractionPattern (s.dropWhile isDigit)
  | [] => false

theorem jsonNumberPattern_of_ne (h : s.head? ≠ some '-') :
    jsonNumberPattern s = unsignedPattern s := by
  unfold jsonNumberPattern
  split
  · exact absurd rfl h
  · rfl

theorem exists_of_unsignedPattern {u : List Char} (h : unsignedPattern u = true)
    (negative : Bool) : ∃ t : NumberText, t.Valid ∧ t.negative = negative ∧ u = t.unsigned := by
  unfold unsignedPattern at h
  split at h
  · rename_i s
    obtain ⟨fraction, exponent, rfl, hf, he⟩ := exists_of_fractionPattern h
    exact ⟨⟨negative, ['0'], fraction, exponent⟩, ⟨.inl rfl, hf, he⟩, rfl, by
      simp [NumberText.unsigned]⟩
  · rename_i d s hd
    rw [Bool.and_eq_true] at h
    obtain ⟨fraction, exponent, hs, hf, he⟩ := exists_of_fractionPattern h.2
    refine ⟨⟨negative, d :: s.takeWhile isDigit, fraction, exponent⟩,
      ⟨.inr ⟨d, _, rfl, hd, h.1, fun c hc => List.mem_takeWhile_imp hc⟩, hf, he⟩, rfl, ?_⟩
    show d :: s = d :: s.takeWhile isDigit ++ _ ++ exponent
    rw [List.append_assoc, ← hs, List.cons_append, List.takeWhile_append_dropWhile]
  · cases h

theorem exists_of_jsonNumberPattern (h : jsonNumberPattern s = true) :
    ∃ t : NumberText, t.Valid ∧ s = t.chars := by
  by_cases hs : s.head? = some '-'
  · obtain ⟨u, rfl⟩ : ∃ u, s = '-' :: u := by
      cases s with
      | nil => cases hs
      | cons c u => exact ⟨u, by rw [Option.some.inj hs]⟩
    obtain ⟨t, ht, hneg, rfl⟩ := exists_of_unsignedPattern h true
    exact ⟨t, ht, by simp [NumberText.chars, hneg]⟩
  · rw [jsonNumberPattern_of_ne hs] at h
    obtain ⟨t, ht, hneg, rfl⟩ := exists_of_unsignedPattern h false
    exact ⟨t, ht, by simp [NumberText.chars, hneg]⟩

namespace NumberText

variable {t : NumberText}

theorem Valid.digits (h : t.Valid) : ∀ c ∈ t.whole ++ t.fraction, isDigit c = true := by
  intro c hc
  rcases List.mem_append.1 hc with hc | hc
  · rcases h.whole with hw | ⟨d, ds, hw, -, hd, hds⟩
    · rw [hw, List.mem_singleton] at hc
      rw [hc]
      decide
    · rw [hw] at hc
      rcases List.mem_cons.1 hc with rfl | hc
      · exact hd
      · exact hds c hc
  · exact h.fraction c hc

def point (t : NumberText) : List Char := if t.fraction = [] then [] else '.' :: t.fraction

theorem isDigit_ne {c d : Char} (hc : isDigit c = true) (hd : isDigit d = false) : c ≠ d := by
  rintro rfl
  rw [hc] at hd
  cases hd

theorem Valid.head_whole (h : t.Valid) : ∃ d ds, t.whole = d :: ds ∧ isDigit d = true := by
  rcases h.whole with hw | ⟨d, ds, hw, -, hd, -⟩
  · exact ⟨'0', [], hw, by decide⟩
  · exact ⟨d, ds, hw, hd⟩

theorem Valid.head_chars (h : t.Valid) : (t.chars.head? == some '-') = t.negative := by
  obtain ⟨d, ds, hw, hd⟩ := h.head_whole
  have hne : d ≠ '-' := isDigit_ne hd (by decide)
  rcases hneg : t.negative with _ | _
  · simp [chars, unsigned, hneg, hw, hne]
  · simp [chars, hneg]

theorem Valid.unsigned_chars (h : t.Valid) :
    (if t.chars.head? == some '-' then t.chars.tail else t.chars) = t.unsigned := by
  rw [h.head_chars]
  rcases hneg : t.negative with _ | _ <;> simp [chars, hneg]

theorem Valid.letterFree (h : t.Valid) :
    ∀ c ∈ t.whole ++ t.point, (c != 'e' && c != 'E') = true := by
  have hdigit : ∀ {c}, isDigit c = true → (c != 'e' && c != 'E') = true := fun hc => by
    simp [isDigit_ne hc (show isDigit 'e' = false by decide),
      isDigit_ne hc (show isDigit 'E' = false by decide)]
  intro c hc
  rcases List.mem_append.1 hc with hc | hc
  · exact hdigit (h.digits c (List.mem_append_left _ hc))
  · unfold point at hc
    split_ifs at hc
    · cases hc
    · rcases List.mem_cons.1 hc with rfl | hc
      · decide
      · exact hdigit (h.fraction c hc)

theorem Valid.takeWhile_exponent (h : t.Valid) :
    t.exponent.takeWhile (fun c => c != 'e' && c != 'E') = [] := by
  rcases eq_nil_or_letter h.exponent with he | ⟨c, r, he, rfl | rfl⟩ <;> rw [he] <;> rfl

theorem Valid.mantissa (h : t.Valid) :
    t.unsigned.takeWhile (fun c => c != 'e' && c != 'E') = t.whole ++ t.point := by
  show (t.whole ++ t.point ++ t.exponent).takeWhile _ = _
  rw [List.takeWhile_append_of_pos h.letterFree, h.takeWhile_exponent, List.append_nil]

theorem drop_mantissa (t : NumberText) :
    t.unsigned.drop ((t.whole ++ t.point).length + 1) = t.exponent.tail := by
  show (t.whole ++ t.point ++ t.exponent).drop _ = _
  rw [← List.drop_drop, List.drop_left, List.drop_one]

theorem Valid.pointFree (h : t.Valid) : ∀ c ∈ t.whole, (c != '.') = true := fun c hc => by
  simp [isDigit_ne (h.digits c (List.mem_append_left _ hc)) (show isDigit '.' = false by decide)]

theorem Valid.takeWhile_point (h : t.Valid) :
    (t.whole ++ t.point).takeWhile (· != '.') = t.whole := by
  rw [List.takeWhile_append_of_pos h.pointFree]
  unfold point
  split_ifs <;> simp

theorem Valid.dropWhile_point (h : t.Valid) :
    (t.whole ++ t.point).dropWhile (· != '.') = t.point := by
  rw [List.dropWhile_append_of_pos h.pointFree]
  unfold point
  split_ifs <;> simp

theorem tail_point (t : NumberText) : t.point.tail = t.fraction := by
  unfold point
  split_ifs with hf
  · rw [hf]
    rfl
  · rfl

theorem length_point (t : NumberText) : t.point.length - 1 = t.fraction.length := by
  rw [← t.tail_point, List.length_tail]

theorem Valid.filter_point (h : t.Valid) :
    (t.whole ++ t.point).filter (· != '.') = t.whole ++ t.fraction := by
  have hfraction : t.fraction.filter (· != '.') = t.fraction :=
    List.filter_eq_self.2 fun c hc => by
      simp [isDigit_ne (h.fraction c hc) (show isDigit '.' = false by decide)]
  rw [List.filter_append, List.filter_eq_self.2 h.pointFree]
  unfold point
  split_ifs with hf
  · rw [hf]
    rfl
  · rw [List.filter_cons_of_neg (by decide), hfraction]

/-- The value of a text: its digits, moved by its exponent and the digits after the point. -/
def value (t : NumberText) : ℚ :=
  let magnitude := (Decimal.value ((t.whole ++ t.fraction).map digit) : ℚ)
    * 10 ^ (exponentValue t.exponent.tail - (t.fraction.length : ℤ))
  if t.negative then -magnitude else magnitude

theorem Valid.dropWhile_exponent (h : t.Valid) : t.exponent.dropWhile isDigit = t.exponent := by
  rcases eq_nil_or_letter h.exponent with he | ⟨c, r, he, rfl | rfl⟩ <;> rw [he] <;> rfl

theorem Valid.fractionPattern_point (h : t.Valid) :
    fractionPattern (t.point ++ t.exponent) = true := by
  unfold point
  rcases hf : t.fraction with _ | ⟨d, ds⟩
  · rw [if_pos rfl, List.nil_append]
    rcases eq_nil_or_letter h.exponent with he | ⟨c, r, he, rfl | rfl⟩ <;>
      have hexponent := h.exponent <;> rw [he] at hexponent ⊢ <;> exact hexponent
  · obtain ⟨hd, hds⟩ := List.forall_mem_cons.1 (hf ▸ h.fraction)
    show (isDigit d && exponentPattern ((ds ++ t.exponent).dropWhile isDigit)) = true
    rw [List.dropWhile_append_of_pos hds, h.dropWhile_exponent, hd, h.exponent]
    rfl

theorem Valid.unsignedPattern (h : t.Valid) : unsignedPattern t.unsigned = true := by
  have hfraction := h.fractionPattern_point
  show Orisun.unsignedPattern (t.whole ++ t.point ++ t.exponent) = true
  rw [List.append_assoc]
  rcases h.whole with hw | ⟨d, ds, hw, hd0, hd, hds⟩
  · rw [hw]
    exact hfraction
  · rw [hw, List.cons_append, Orisun.unsignedPattern.eq_2 _ _ hd0, hd]
    have hdrop : (ds ++ (t.point ++ t.exponent)).dropWhile isDigit = t.point ++ t.exponent := by
      rw [List.dropWhile_append_of_pos hds]
      unfold point
      split_ifs
      · exact h.dropWhile_exponent
      · rfl
    rw [hdrop, hfraction]
    rfl

theorem Valid.jsonNumberPattern (h : t.Valid) : jsonNumberPattern t.chars = true := by
  have hunsigned := h.unsignedPattern
  rcases hneg : t.negative with _ | _
  · have hhead : t.chars.head? ≠ some '-' := by
      have := h.head_chars
      rw [hneg] at this
      simpa using this
    rw [jsonNumberPattern_of_ne hhead]
    simpa [chars, hneg] using hunsigned
  · have hchars : t.chars = '-' :: t.unsigned := by simp [chars, hneg]
    rw [hchars]
    exact hunsigned

theorem Valid.numberValue (h : t.Valid) : numberValue (String.ofList t.chars) = some t.value := by
  unfold Orisun.numberValue
  rw [String.toList_ofList]
  dsimp only
  rw [h.jsonNumberPattern, if_neg (by simp), h.unsigned_chars, h.mantissa, drop_mantissa,
    h.filter_point, h.dropWhile_point, tail_point, h.head_chars, digitsValue_eq]
  rfl

end NumberText

namespace DecimalParts

def value (p : DecimalParts) : ℚ :=
  let magnitude := Decimal.fraction (p.digits.map digit) * 10 ^ p.magnitude
  if p.negative then -magnitude else magnitude

/-- The digits are those from the first that is not zero on, and a zero has no sign. -/
structure Normal (p : DecimalParts) : Prop where
  digits : ∀ c ∈ p.digits, isDigit c = true
  head : ∀ d ds, p.digits = d :: ds → 0 < digit d
  zero : p.digits = [] → p.negative = false

end DecimalParts

theorem value_dropWhile_zero : ∀ ds : List Char,
    Decimal.value (ds.map digit) = Decimal.value ((ds.dropWhile (· == '0')).map digit)
  | [] => rfl
  | d :: ds => by
    by_cases hd : d = '0'
    · rw [List.dropWhile_cons_of_pos (by simp [hd]), ← value_dropWhile_zero ds, List.map_cons,
        Decimal.value_cons, hd, digit_zero, zero_mul, zero_add]
    · rw [List.dropWhile_cons_of_neg (by simp [hd])]

theorem digit_pos {c : Char} (hc : isDigit c = true) (h0 : c ≠ '0') : 0 < digit c := by
  rcases Nat.eq_zero_or_pos (digit c) with h | h
  · refine absurd ?_ h0
    rw [isDigit_iff] at hc
    have hnat : c.toNat = '0'.toNat := by
      show c.toNat = 48
      unfold digit at h
      omega
    exact Char.toNat_inj.1 hnat
  · exact h

theorem NumberText.Valid.decimalParts {t : NumberText} (h : t.Valid) :
    ∃ p, decimalParts t.chars = some p ∧ p.Normal ∧ p.value = t.value := by
  set digits := (t.whole ++ t.fraction).dropWhile (· == '0') with hdigits
  have hall : ∀ c ∈ digits, isDigit c = true := fun c hc =>
    h.digits c ((List.dropWhile_sublist _).subset hc)
  have hvalue : (Decimal.value ((t.whole ++ t.fraction).map digit) : ℚ)
      = Decimal.fraction (digits.map digit) * 10 ^ digits.length := by
    rw [value_dropWhile_zero, ← hdigits, Decimal.value_eq_fraction, List.length_map]
  have hparts : Orisun.decimalParts t.chars = if digits.isEmpty
      then some ⟨[], exponentValue t.exponent.tail, false⟩
      else some ⟨digits, exponentValue t.exponent.tail
        + ((digits.length : ℤ) - t.fraction.length), t.negative⟩ := by
    unfold Orisun.decimalParts
    rw [h.jsonNumberPattern, if_neg (by simp)]
    dsimp only
    rw [h.unsigned_chars, h.mantissa, drop_mantissa, h.filter_point, h.dropWhile_point,
      length_point, h.head_chars]
  rw [hparts]
  rcases hd : digits with _ | ⟨d, ds⟩
  · refine ⟨_, rfl, ⟨by simp, by simp, fun _ => rfl⟩, ?_⟩
    have hzero : (Decimal.value ((t.whole ++ t.fraction).map digit) : ℚ) = 0 := by
      rw [hvalue, hd]
      simp [Decimal.fraction]
    unfold DecimalParts.value value
    rw [hzero]
    simp [Decimal.fraction]
  · refine ⟨_, rfl, ⟨hd ▸ hall, fun e es he => ?_, by simp⟩, ?_⟩
    · obtain ⟨rfl, -⟩ := List.cons.inj he
      refine digit_pos (hall d (hd ▸ List.mem_cons_self ..)) fun h0 => ?_
      have hhead := List.head?_dropWhile_not (· == '0') (t.whole ++ t.fraction)
      rw [← hdigits, hd] at hhead
      simp [h0] at hhead
    · rw [← hd]
      have hmagnitude : exponentValue t.exponent.tail + ((digits.length : ℤ) - t.fraction.length)
          = digits.length + (exponentValue t.exponent.tail - t.fraction.length) := by omega
      unfold DecimalParts.value value
      dsimp only
      rw [hvalue, mul_assoc, ← zpow_natCast, ← zpow_add₀ (by norm_num), hmagnitude]

namespace DecimalParts

def scaled (p : DecimalParts) : ℚ := Decimal.fraction (p.digits.map digit) * 10 ^ p.magnitude

theorem value_eq (p : DecimalParts) : p.value = if p.negative then -p.scaled else p.scaled := rfl

theorem scaled_nonneg (p : DecimalParts) : 0 ≤ p.scaled :=
  mul_nonneg (Decimal.fraction_nonneg _) (by positivity)

theorem Normal.scaled_pos {p : DecimalParts} (h : p.Normal) (hp : p.digits ≠ []) : 0 < p.scaled := by
  obtain ⟨d, ds, hd⟩ := List.exists_cons_of_ne_nil hp
  have hpos := Decimal.fraction_pos (h.head d ds hd) (ds.map digit)
  rw [scaled, hd, List.map_cons]
  positivity

theorem scaled_of_nil {p : DecimalParts} (hp : p.digits = []) : p.scaled = 0 := by
  simp [scaled, hp, Decimal.fraction]

end DecimalParts

section Compare

variable {cmp : List Char → List Char → ℤ} {a b : DecimalParts}

theorem sign_scaled_eq (ha : a.Normal) (hb : b.Normal)
    (hcmp : cmp a.digits b.digits = Decimal.sign
      (Decimal.fraction (a.digits.map digit)) (Decimal.fraction (b.digits.map digit))) :
    (if a.digits.isEmpty && b.digits.isEmpty then 0
      else if a.digits.isEmpty then -1
      else if b.digits.isEmpty then 1
      else if a.magnitude < b.magnitude then -1
      else if b.magnitude < a.magnitude then 1
      else cmp a.digits b.digits) = Decimal.sign a.scaled b.scaled := by
  rcases hda : a.digits with _ | ⟨d, ds⟩ <;> rcases hdb : b.digits with _ | ⟨e, es⟩
  · simp [DecimalParts.scaled_of_nil hda, DecimalParts.scaled_of_nil hdb]
  · have hpos := hb.scaled_pos (by simp [hdb])
    rw [DecimalParts.scaled_of_nil hda, Decimal.sign_of_lt hpos]
    simp
  · have hpos := ha.scaled_pos (by simp [hda])
    rw [DecimalParts.scaled_of_nil hdb, Decimal.sign_of_gt hpos]
    simp
  · have hsign := Decimal.sign_scaled (hda ▸ digits_map ha.digits) (hdb ▸ digits_map hb.digits)
      (ha.head d ds hda) (hb.head e es hdb) a.magnitude b.magnitude
    rw [hda, hdb] at hcmp
    simp only [List.isEmpty_cons, Bool.and_self, Bool.false_eq_true, if_false, hcmp]
    rw [DecimalParts.scaled, DecimalParts.scaled, hda, hdb]
    exact hsign.symm

theorem compareParts_eq (ha : a.Normal) (hb : b.Normal)
    (hcmp : cmp a.digits b.digits = Decimal.sign
      (Decimal.fraction (a.digits.map digit)) (Decimal.fraction (b.digits.map digit))) :
    compareParts cmp a b = Decimal.sign a.value b.value := by
  have hscaled := sign_scaled_eq ha hb hcmp
  have hpos : ∀ {p : DecimalParts}, p.Normal → p.negative = true → 0 < p.scaled := fun hp hneg =>
    hp.scaled_pos fun hnil => by simp [hp.zero hnil] at hneg
  have ha0 := a.scaled_nonneg
  have hb0 := b.scaled_nonneg
  unfold compareParts
  dsimp only
  rw [hscaled, DecimalParts.value_eq, DecimalParts.value_eq]
  rcases hna : a.negative <;> rcases hnb : b.negative
  · simp
  · have := hpos hb hnb
    simp [Decimal.sign_of_gt (show -b.scaled < a.scaled by linarith)]
  · have := hpos ha hna
    simp [Decimal.sign_of_lt (show -a.scaled < b.scaled by linarith)]
  · simp [Decimal.sign_neg]

end Compare

theorem exists_parts {token : String} (h : jsonNumberPattern token.toList = true) :
    ∃ p, decimalParts token.toList = some p ∧ p.Normal ∧ numberValue token = some p.value := by
  obtain ⟨t, ht, hchars⟩ := exists_of_jsonNumberPattern h
  obtain ⟨p, hp, hnormal, hvalue⟩ := ht.decimalParts
  have htoken : token = String.ofList t.chars := by rw [← hchars, String.ofList_toList]
  refine ⟨p, hchars ▸ hp, hnormal, ?_⟩
  rw [htoken, ht.numberValue, hvalue]

theorem decimalParts_eq_none {token : String} (h : jsonNumberPattern token.toList = false) :
    decimalParts token.toList = none ∧ numberValue token = none := by
  constructor
  · unfold decimalParts
    rw [h]
    rfl
  · unfold numberValue
    dsimp only
    rw [h]
    rfl

theorem compare_tokens {cmp : List Char → List Char → ℤ}
    (hcmp : ∀ {x y : List Char}, (∀ c ∈ x, isDigit c = true) → (∀ c ∈ y, isDigit c = true) →
      cmp x y = Decimal.sign (Decimal.fraction (x.map digit)) (Decimal.fraction (y.map digit)))
    (a b : String) :
    ((decimalParts a.toList).bind fun pa => (decimalParts b.toList).bind fun pb =>
        some (compareParts cmp pa pb))
      = (numberValue a).bind fun x => (numberValue b).bind fun y => some (Decimal.sign x y) := by
  rcases hpa : jsonNumberPattern a.toList with _ | _
  · simp [decimalParts_eq_none hpa]
  rcases hpb : jsonNumberPattern b.toList with _ | _
  · obtain ⟨pa, hda, -, hva⟩ := exists_parts hpa
    simp [decimalParts_eq_none hpb, hda, hva]
  obtain ⟨pa, hda, hna, hva⟩ := exists_parts hpa
  obtain ⟨pb, hdb, hnb, hvb⟩ := exists_parts hpb
  simp only [hda, hdb, hva, hvb, Option.bind_some]
  rw [compareParts_eq hna hnb (hcmp hna.digits hnb.digits)]

theorem compareJSONNumbers_eq (a b : String) : compareJSONNumbers a b
    = (numberValue a).bind fun x => (numberValue b).bind fun y => some (Decimal.sign x y) :=
  compare_tokens (fun hx hy => (compareDigits_eq hx hy).trans
    (Decimal.compare_eq_sign (digits_map hx) (digits_map hy))) a b

theorem orisunCompareNumber_eq (a b : String) : orisunCompareNumber a b
    = (numberValue a).bind fun x => (numberValue b).bind fun y => some (Decimal.sign x y) :=
  compare_tokens comparePadded_eq a b

end Orisun

import Mathlib.Algebra.Order.Field.Power
import Mathlib.Tactic.FieldSimp
import Mathlib.Tactic.Linarith
import Mathlib.Tactic.Positivity
import Mathlib.Tactic.Ring

/-!
# Decimal digits

A string of digits as the fraction behind a decimal point, and as a natural number. Strings of
digits compare as fractions at the first place they differ at, however long they are. With a first
digit that is not zero, numbers of different magnitudes compare as their magnitudes do.
-/

namespace Decimal

def sign {α : Type*} [LinearOrder α] (x y : α) : ℤ := if x < y then -1 else if y < x then 1 else 0

section Sign

variable {α : Type*} [LinearOrder α] {x y : α}

theorem sign_of_lt (h : x < y) : sign x y = -1 := if_pos h

theorem sign_of_gt (h : y < x) : sign x y = 1 := by
  rw [sign, if_neg h.not_gt, if_pos h]

@[simp]
theorem sign_self (x : α) : sign x x = 0 := by simp [sign]

theorem neg_sign (x y : α) : -sign x y = sign y x := by
  rcases lt_trichotomy x y with h | rfl | h
  · rw [sign_of_lt h, sign_of_gt h, neg_neg]
  · simp
  · rw [sign_of_gt h, sign_of_lt h]

theorem sign_congr {β : Type*} [LinearOrder β] {f : α → β} (h : ∀ {x y}, f x < f y ↔ x < y)
    (x y : α) : sign (f x) (f y) = sign x y := by
  simp only [sign, h]

end Sign

theorem sign_neg (x y : ℚ) : sign (-x) (-y) = -sign x y := by
  rw [neg_sign]
  simp only [sign, neg_lt_neg_iff]

theorem sign_mul_right {c : ℚ} (hc : 0 < c) (x y : ℚ) : sign (x * c) (y * c) = sign x y :=
  sign_congr (f := (· * c)) (fun {_ _} => mul_lt_mul_iff_left₀ hc) x y

def fraction : List ℕ → ℚ
  | [] => 0
  | d :: ds => (d + fraction ds) / 10

def value (ds : List ℕ) : ℕ := ds.foldl (fun n d => 10 * n + d) 0

/-- The strings as they differ at the first place, where a missing digit counts as zero. -/
def compare : List ℕ → List ℕ → ℤ
  | [], [] => 0
  | a :: as, [] => if 0 < a then 1 else compare as []
  | [], b :: bs => if 0 < b then -1 else compare [] bs
  | a :: as, b :: bs => if a < b then -1 else if b < a then 1 else compare as bs

def Digits (ds : List ℕ) : Prop := ∀ d ∈ ds, d ≤ 9

variable {d : ℕ}

theorem Digits.head {ds : List ℕ} (h : Digits (d :: ds)) : d ≤ 9 := h d (List.mem_cons_self ..)

theorem Digits.tail {ds : List ℕ} (h : Digits (d :: ds)) : Digits ds :=
  fun e he => h e (List.mem_cons_of_mem d he)

theorem fraction_nonneg : ∀ ds, 0 ≤ fraction ds
  | [] => le_rfl
  | d :: ds => by
    have := fraction_nonneg ds
    rw [fraction]
    positivity

theorem fraction_lt_one : ∀ {ds}, Digits ds → fraction ds < 1
  | [], _ => one_pos
  | d :: ds, h => by
    have ih := fraction_lt_one h.tail
    have hd : (d : ℚ) ≤ 9 := by exact_mod_cast h.head
    rw [fraction]
    linarith

theorem one_tenth_le_fraction (hd : 0 < d) (ds : List ℕ) : 1 / 10 ≤ fraction (d :: ds) := by
  have h1 : (1 : ℚ) ≤ d := by exact_mod_cast hd
  have := fraction_nonneg ds
  rw [fraction]
  linarith

variable {a b : ℕ} {as bs : List ℕ}

theorem sign_fraction_cons (ha : Digits as) (hb : Digits bs) :
    sign (fraction (a :: as)) (fraction (b :: bs))
      = if a < b then -1 else if b < a then 1 else sign (fraction as) (fraction bs) := by
  have ha1 := fraction_lt_one ha
  have hb1 := fraction_lt_one hb
  have ha0 := fraction_nonneg as
  have hb0 := fraction_nonneg bs
  rw [fraction, fraction]
  rcases lt_trichotomy a b with h | rfl | h
  · have hab : (a : ℚ) + 1 ≤ b := by exact_mod_cast h
    rw [if_pos h, sign_of_lt (by linarith)]
  · rw [if_neg (lt_irrefl a), if_neg (lt_irrefl a)]
    have hmono : ∀ {x y : ℚ}, ((a : ℚ) + x) / 10 < (a + y) / 10 ↔ x < y := fun {x y} => by
      constructor <;> intro h <;> linarith
    exact sign_congr (f := fun x => ((a : ℚ) + x) / 10) hmono _ _
  · have hab : (b : ℚ) + 1 ≤ a := by exact_mod_cast h
    rw [if_neg h.not_gt, if_pos h, sign_of_gt (by linarith)]

theorem fraction_zero_cons (ds : List ℕ) : fraction (0 :: ds) = fraction ds / 10 := by
  simp [fraction]

theorem fraction_append_replicate : ∀ (ds : List ℕ) (n : ℕ),
    fraction (ds ++ List.replicate n 0) = fraction ds
  | [], 0 => rfl
  | [], n + 1 => by
    rw [List.replicate_succ, List.nil_append, fraction_zero_cons]
    have ih := fraction_append_replicate [] n
    rw [List.nil_append] at ih
    rw [ih]
    simp [fraction]
  | d :: ds, n => by
    rw [List.cons_append, fraction, fraction, fraction_append_replicate ds n]

theorem compare_eq_sign : ∀ {a b : List ℕ}, Digits a → Digits b →
    compare a b = sign (fraction a) (fraction b)
  | [], [], _, _ => by simp [compare]
  | a :: as, [], ha, hb => by
    -- a missing digit is a zero in front of no digits
    have hpad := sign_fraction_cons (a := a) (b := 0) ha.tail hb
    rw [fraction_zero_cons, show fraction [] / 10 = fraction [] by simp [fraction]] at hpad
    rw [compare, compare_eq_sign ha.tail hb, hpad, if_neg (Nat.not_lt_zero a)]
  | [], b :: bs, ha, hb => by
    have hpad := sign_fraction_cons (a := 0) (b := b) ha hb.tail
    rw [fraction_zero_cons, show fraction [] / 10 = fraction [] by simp [fraction]] at hpad
    rw [compare, compare_eq_sign ha hb.tail, hpad, if_neg (Nat.not_lt_zero b)]
  | a :: as, b :: bs, ha, hb => by
    rw [compare, compare_eq_sign ha.tail hb.tail, sign_fraction_cons ha.tail hb.tail]

theorem fraction_pos (hd : 0 < d) (ds : List ℕ) : 0 < fraction (d :: ds) :=
  lt_of_lt_of_le (by norm_num) (one_tenth_le_fraction hd ds)

theorem scaled_lt (ha : Digits (a :: as)) (hb : 0 < b) {m n : ℤ} (h : m < n) :
    fraction (a :: as) * 10 ^ m < fraction (b :: bs) * 10 ^ n := by
  have hm : (0 : ℚ) < 10 ^ m := by positivity
  have hpow : (10 : ℚ) ^ m * 10 ≤ 10 ^ n := by
    rw [← zpow_add_one₀ (by norm_num)]
    exact zpow_le_zpow_right₀ (by norm_num) h
  have hlow := one_tenth_le_fraction hb bs
  calc fraction (a :: as) * 10 ^ m < 1 * 10 ^ m := by
        exact mul_lt_mul_of_pos_right (fraction_lt_one ha) hm
    _ = 1 / 10 * (10 ^ m * 10) := by ring
    _ ≤ fraction (b :: bs) * 10 ^ n := by
        exact mul_le_mul hlow hpow (by positivity) (fraction_nonneg _)

theorem sign_scaled (ha : Digits (a :: as)) (hb : Digits (b :: bs)) (ha0 : 0 < a) (hb0 : 0 < b)
    (m n : ℤ) :
    sign (fraction (a :: as) * 10 ^ m) (fraction (b :: bs) * 10 ^ n)
      = if m < n then -1 else if n < m then 1
        else sign (fraction (a :: as)) (fraction (b :: bs)) := by
  rcases lt_trichotomy m n with h | rfl | h
  · rw [if_pos h, sign_of_lt (scaled_lt ha hb0 h)]
  · rw [if_neg (lt_irrefl m), if_neg (lt_irrefl m), sign_mul_right (by positivity)]
  · rw [if_neg h.not_gt, if_pos h, sign_of_gt (scaled_lt hb ha0 h)]

theorem value_append (a b : List ℕ) : value (a ++ b) = value a * 10 ^ b.length + value b := by
  have hfold : ∀ (ds : List ℕ) (n : ℕ),
      ds.foldl (fun n d => 10 * n + d) n = n * 10 ^ ds.length + value ds := by
    intro ds
    induction ds with
    | nil => simp [value]
    | cons d ds ih =>
      intro n
      have hvalue : value (d :: ds) = d * 10 ^ ds.length + value ds := by
        rw [value, List.foldl_cons, ih]
        simp
      rw [List.foldl_cons, ih, hvalue, List.length_cons]
      ring
  rw [value, List.foldl_append, hfold]
  rfl

theorem value_cons (d : ℕ) (ds : List ℕ) : value (d :: ds) = d * 10 ^ ds.length + value ds := by
  rw [← List.singleton_append, value_append]
  simp [value]

theorem value_replicate_zero (n : ℕ) : value (List.replicate n 0) = 0 := by
  induction n with
  | zero => rfl
  | succ n ih => rw [List.replicate_succ, value_cons, ih, zero_mul]

theorem value_replicate_nine (n : ℕ) : value (List.replicate n 9) + 1 = 10 ^ n := by
  induction n with
  | zero => rfl
  | succ n ih =>
    rw [List.replicate_succ, value_cons, List.length_replicate, add_assoc, ih, pow_succ]
    omega

theorem value_eq_fraction : ∀ ds : List ℕ, (value ds : ℚ) = fraction ds * 10 ^ ds.length
  | [] => by simp [value, fraction]
  | d :: ds => by
    have ih := value_eq_fraction ds
    rw [value_cons, fraction, List.length_cons]
    push_cast
    rw [ih]
    field_simp
    ring

end Decimal

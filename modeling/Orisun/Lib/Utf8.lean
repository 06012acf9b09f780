import Mathlib.Data.String.Basic

/-!
# The order of texts by their bytes

UTF-8 keeps the order of code points: texts compare by their bytes as they do by their characters.
-/

namespace Utf8

def encode (c : Char) : List ℕ := (String.utf8EncodeChar c).map UInt8.toNat

def bytes (s : List Char) : List ℕ := s.flatMap encode

theorem toNat_lt (c : Char) : c.val.toNat < 0x110000 := by
  rcases c.valid with h | ⟨-, h⟩
  · exact lt_trans h (by decide)
  · exact h

theorem exists_digits {k : ℕ} (hk : k < 0x110000) : ∃ a b c d, k = 262144 * a + 4096 * b + 64 * c + d ∧
    b < 64 ∧ c < 64 ∧ d < 64 ∧ (k / 262144 % 8 + 240) % 256 = a + 240 ∧
    (k / 4096 % 64 + 128) % 256 = b + 128 ∧ (k / 64 % 64 + 128) % 256 = c + 128 ∧
    (k % 64 + 128) % 256 = d + 128 :=
  ⟨k / 262144, k / 4096 % 64, k / 64 % 64, k % 64, by omega, by omega, by omega, by omega, by omega,
    by omega, by omega, by omega⟩

theorem encode_append_lt {c d : Char} (h : c < d) (r r' : List ℕ) :
    encode c ++ r < encode d ++ r' := by
  have hlt : c.val.toNat < d.val.toNat := h
  have hd := toNat_lt d
  unfold encode String.utf8EncodeChar
  dsimp only
  generalize c.val.toNat = m at hlt
  generalize d.val.toNat = n at hlt hd
  obtain ⟨a, b, c, d, hm, hb, hc, hd', h1, h2, h3, h4⟩ := exists_digits (hlt.trans hd)
  obtain ⟨a', b', c', d', hn, hb', hc', hd'', h1', h2', h3', h4'⟩ := exists_digits hd
  split_ifs <;> simp only [List.map_cons, List.map_nil, List.cons_append, List.nil_append,
    List.cons_lt_cons_iff, UInt8.toNat_ofNat', Nat.reducePow, h1, h2, h3, h4, h1', h2', h3', h4'] <;>
    clear h1 h2 h3 h4 h1' h2' h3' h4' <;> omega

theorem encode_ne_nil (c : Char) : encode c ≠ [] := by
  rw [encode, Ne, List.map_eq_nil_iff]
  exact String.utf8EncodeChar_ne_nil

theorem append_lt_append_iff {a : List ℕ} : ∀ {r r' : List ℕ}, a ++ r < a ++ r' ↔ r < r' := by
  intro r r'
  induction a with
  | nil => rfl
  | cons x a ih => simp [ih]

theorem bytes_lt_bytes_iff : ∀ {s t : List Char}, bytes s < bytes t ↔ s < t
  | [], [] => by simp [bytes]
  | [], d :: t => by
    obtain ⟨x, xs, hx⟩ := List.exists_cons_of_ne_nil (encode_ne_nil d)
    simp [bytes, hx]
  | c :: s, [] => by simp [bytes]
  | c :: s, d :: t => by
    rw [List.cons_lt_cons_iff]
    show encode c ++ bytes s < encode d ++ bytes t ↔ _
    rcases lt_trichotomy c d with h | rfl | h
    · exact ⟨fun _ => .inl h, fun _ => encode_append_lt h _ _⟩
    · rw [append_lt_append_iff, bytes_lt_bytes_iff]
      simp
    · refine ⟨fun hlt => absurd hlt (encode_append_lt h _ _).not_gt, ?_⟩
      rintro (hcd | ⟨rfl, -⟩)
      · exact absurd hcd h.not_gt
      · exact absurd h (lt_irrefl _)

end Utf8

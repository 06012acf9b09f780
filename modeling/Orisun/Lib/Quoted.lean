import Mathlib.Data.List.Basic

/-!
# Quoted strings

A string between double quotes with its quotes, backslashes and control characters escaped. A
quoted string shows where it ends, so it can be read back from in front of any text
(`quote_append_inj`).
-/

namespace Quoted

/-- The letter a character is escaped by, where it has a short escape. -/
def shortEscape : Char → Option Char
  | '"' => some '"'
  | '\\' => some '\\'
  | '\x08' => some 'b'
  | '\x0c' => some 'f'
  | '\n' => some 'n'
  | '\r' => some 'r'
  | '\t' => some 't'
  | _ => none

def hexDigit (n : ℕ) : Char := "0123456789abcdef".toList.getD n '0'

def escapeChar (c : Char) : List Char :=
  match shortEscape c with
  | some e => ['\\', e]
  | none =>
    if c.toNat < 32 then ['\\', 'u', '0', '0', hexDigit (c.toNat / 16), hexDigit (c.toNat % 16)]
    else [c]

def quote (s : List Char) : List Char := '"' :: (s.flatMap escapeChar ++ ['"'])

variable {c : Char}

theorem shortEscape_some {e : Char} (h : shortEscape c = some e) :
    (c, e) ∈ [('"', '"'), ('\\', '\\'), ('\x08', 'b'), ('\x0c', 'f'), ('\n', 'n'), ('\r', 'r'),
      ('\t', 't')] := by
  unfold shortEscape at h
  split at h <;> simp only [Option.some.injEq, reduceCtorEq] at h <;> subst h <;> decide

theorem shortEscape_inj {d e : Char} (hc : shortEscape c = some e) (hd : shortEscape d = some e) :
    c = d := by
  have h1 := shortEscape_some hc
  have h2 := shortEscape_some hd
  simp only [List.mem_cons, Prod.mk.injEq, List.not_mem_nil, or_false] at h1 h2
  rcases h1 with ⟨rfl, rfl⟩ | ⟨rfl, rfl⟩ | ⟨rfl, rfl⟩ | ⟨rfl, rfl⟩ | ⟨rfl, rfl⟩ | ⟨rfl, rfl⟩ |
    ⟨rfl, rfl⟩ <;> exact Eq.symm (by simpa using h2)

theorem shortEscape_ne_u : shortEscape c ≠ some 'u' := by
  intro h
  have := shortEscape_some h
  simp at this

theorem hexDigit_inj : ∀ m < 16, ∀ n < 16, hexDigit m = hexDigit n → m = n := by decide

theorem shortEscape_quote : shortEscape '"' = some '"' := rfl

theorem shortEscape_backslash : shortEscape '\\' = some '\\' := rfl

theorem escapeChar_append_inj {d : Char} {r r' : List Char}
    (h : escapeChar c ++ r = escapeChar d ++ r') : c = d ∧ r = r' := by
  unfold escapeChar at h
  rcases hc : shortEscape c with _ | e <;> rcases hd : shortEscape d with _ | e' <;>
    rw [hc, hd] at h <;> simp only at h
  · split_ifs at h with h1 h2 h2
    · simp only [List.cons_append, List.nil_append, List.cons.injEq, true_and] at h
      obtain ⟨h16, hm, rfl⟩ := h
      have h3 := hexDigit_inj _ (by omega) _ (by omega) h16
      have h4 := hexDigit_inj _ (by omega) _ (by omega) hm
      exact ⟨Char.toNat_inj.1 (by omega), rfl⟩
    · simp only [List.cons_append, List.nil_append, List.cons.injEq] at h
      rw [← h.1, shortEscape_backslash] at hd
      simp at hd
    · simp only [List.cons_append, List.nil_append, List.cons.injEq] at h
      rw [h.1, shortEscape_backslash] at hc
      simp at hc
    · simpa using h
  · split_ifs at h with h1
    · simp only [List.cons_append, List.nil_append, List.cons.injEq, true_and] at h
      exact absurd (h.1 ▸ hd) shortEscape_ne_u
    · simp only [List.cons_append, List.nil_append, List.cons.injEq] at h
      rw [h.1, shortEscape_backslash] at hc
      simp at hc
  · split_ifs at h with h1
    · simp only [List.cons_append, List.nil_append, List.cons.injEq, true_and] at h
      exact absurd (h.1 ▸ hc) shortEscape_ne_u
    · simp only [List.cons_append, List.nil_append, List.cons.injEq] at h
      rw [← h.1, shortEscape_backslash] at hd
      simp at hd
  · simp only [List.cons_append, List.nil_append, List.cons.injEq, true_and] at h
    obtain ⟨rfl, rfl⟩ := h
    exact ⟨shortEscape_inj hc hd, rfl⟩

theorem escapeChar_ne_quote (c : Char) (r r' : List Char) :
    escapeChar c ++ r ≠ '"' :: r' := by
  intro h
  unfold escapeChar at h
  rcases hc : shortEscape c with _ | e <;> rw [hc] at h <;> simp only at h
  · split_ifs at h
    · simp at h
    · simp only [List.cons_append, List.nil_append, List.cons.injEq] at h
      rw [h.1, shortEscape_quote] at hc
      simp at hc
  · simp at h

theorem body_append_inj : ∀ {s s' r r' : List Char},
    s.flatMap escapeChar ++ '"' :: r = s'.flatMap escapeChar ++ '"' :: r' → s = s' ∧ r = r'
  | [], [], r, r', h => by simpa using h
  | [], c :: s', r, r', h => by
    simp only [List.flatMap_nil, List.nil_append, List.flatMap_cons, List.append_assoc] at h
    exact absurd h.symm (escapeChar_ne_quote _ _ _)
  | c :: s, [], r, r', h => by
    simp only [List.flatMap_nil, List.nil_append, List.flatMap_cons, List.append_assoc] at h
    exact absurd h (escapeChar_ne_quote _ _ _)
  | c :: s, d :: s', r, r', h => by
    simp only [List.flatMap_cons, List.append_assoc] at h
    obtain ⟨hc, ht⟩ := escapeChar_append_inj h
    obtain ⟨hs, hr⟩ := body_append_inj ht
    exact ⟨by rw [hc, hs], hr⟩

theorem quote_append_inj {s s' r r' : List Char} (h : quote s ++ r = quote s' ++ r') :
    s = s' ∧ r = r' := by
  simp only [quote, List.cons_append, List.append_assoc, List.nil_append, List.cons.injEq,
    true_and] at h
  exact body_append_inj h

end Quoted

import Mathlib.Data.String.Basic

/-!
# Texts that delimit themselves

A code is self-delimiting if what follows a code word never makes two of them look alike. A text
under its own length is (`encode_selfDelimiting`), and so is every sequence of such words, hence a
concatenation of them determines the list it was made from (`SelfDelimiting.concat_injective`).
-/

namespace Netstring

variable {α β : Type*}

/-- From a text that starts with a code word, the word and the rest can be read back. -/
def SelfDelimiting (f : α → String) : Prop :=
  ∀ a b r r', f a ++ r = f b ++ r' → a = b ∧ r = r'

def encode (s : String) : String := toString s.utf8ByteSize ++ ":" ++ s

theorem digits_ne_colon {n : ℕ} {c : Char} (h : c ∈ (toString n).toList) : c ≠ ':' := by
  rw [Nat.toString_eq_ofList_toDigits, String.toList_ofList] at h
  rintro rfl
  exact absurd (Nat.isDigit_of_mem_toDigits (by decide) (by decide) h) (by decide)

theorem append_cons_inj {c : Char} : ∀ {u v r r' : List Char}, (∀ d ∈ u, d ≠ c) →
    (∀ d ∈ v, d ≠ c) → u ++ c :: r = v ++ c :: r' → u = v ∧ r = r'
  | [], [], r, r', _, _, h => ⟨rfl, (List.cons.inj h).2⟩
  | [], d :: v, r, r', _, hv, h => absurd (List.cons.inj h).1.symm (hv d (List.mem_cons_self ..))
  | d :: u, [], r, r', hu, _, h => absurd (List.cons.inj h).1 (hu d (List.mem_cons_self ..))
  | d :: u, e :: v, r, r', hu, hv, h => by
    obtain ⟨hd, ht⟩ := List.cons.inj h
    obtain ⟨hu', hr⟩ := append_cons_inj (fun x hx => hu x (List.mem_cons_of_mem d hx))
      (fun x hx => hv x (List.mem_cons_of_mem e hx)) ht
    exact ⟨by rw [hd, hu'], hr⟩

theorem append_inj_of_size {s s' r r' : String} (hs : s.utf8ByteSize = s'.utf8ByteSize)
    (h : s ++ r = s' ++ r') : s = s' ∧ r = r' := by
  have hl : s.toList ++ r.toList = s'.toList ++ r'.toList := by
    simpa using congrArg String.toList h
  have hempty : ∀ {t t' : String} {u : List Char}, t'.utf8ByteSize = t.utf8ByteSize →
      t'.toList = t.toList ++ u → u = [] := by
    intro t t' u hsize ht
    have ht' : t' = t ++ String.ofList u := String.toList_injective (by simpa using ht)
    rw [ht', String.utf8ByteSize_append] at hsize
    have hu : String.ofList u = "" := String.utf8ByteSize_eq_zero_iff.1 (by omega)
    simpa using congrArg String.toList hu
  rcases List.append_eq_append_iff.1 hl with ⟨u, hu, hr⟩ | ⟨u, hu, hr⟩
  · obtain rfl := hempty hs.symm hu
    exact ⟨String.toList_injective (by simpa using hu.symm),
      String.toList_injective (by simpa using hr)⟩
  · obtain rfl := hempty hs hu
    exact ⟨String.toList_injective (by simpa using hu),
      String.toList_injective (by simpa using hr.symm)⟩

theorem toString_inj {m n : ℕ} (h : toString m = toString n) : m = n := by
  rw [Nat.toString_eq_ofList_toDigits, Nat.toString_eq_ofList_toDigits] at h
  have hd := congrArg (fun s => Nat.ofDigitChars 10 s.toList 0) h
  simpa using hd

theorem encode_selfDelimiting : SelfDelimiting encode := by
  intro s s' r r' h
  have hl : (toString s.utf8ByteSize).toList ++ ':' :: (s ++ r).toList
      = (toString s'.utf8ByteSize).toList ++ ':' :: (s' ++ r').toList := by
    have := congrArg String.toList h
    simpa [encode] using this
  obtain ⟨hn, hr⟩ := append_cons_inj (fun _ => digits_ne_colon) (fun _ => digits_ne_colon) hl
  have hsize : s.utf8ByteSize = s'.utf8ByteSize := toString_inj (String.toList_injective hn)
  exact append_inj_of_size hsize (String.toList_injective hr)

theorem SelfDelimiting.pair {f : α → String} {g : β → String} (hf : SelfDelimiting f)
    (hg : SelfDelimiting g) : SelfDelimiting fun p : α × β => f p.1 ++ g p.2 := by
  rintro ⟨a, b⟩ ⟨a', b'⟩ r r' h
  simp only [String.append_assoc] at h
  obtain ⟨ha, h'⟩ := hf _ _ _ _ h
  obtain ⟨hb, hr⟩ := hg _ _ _ _ h'
  exact ⟨by rw [ha, hb], hr⟩

def concat (f : α → String) (l : List α) : String := l.foldr (fun a s => f a ++ s) ""

theorem concat_cons_ne {f : α → String} (hne : ∀ a, f a ≠ "") (a : α) (l : List α) :
    concat f (a :: l) ≠ "" := by
  intro h
  have hl := congrArg String.toList h
  simp only [concat, List.foldr_cons, String.toList_append, String.toList_empty,
    List.append_eq_nil_iff] at hl
  exact hne a (String.toList_injective (by simpa using hl.1))

theorem SelfDelimiting.concat_injective {f : α → String} (hf : SelfDelimiting f)
    (hne : ∀ a, f a ≠ "") : ∀ {l l' : List α}, concat f l = concat f l' → l = l'
  | [], [], _ => rfl
  | [], b :: l', h => absurd h.symm (concat_cons_ne hne b l')
  | a :: l, [], h => absurd h (concat_cons_ne hne a l)
  | a :: l, b :: l', h => by
    obtain ⟨hab, hl⟩ := hf a b (concat f l) (concat f l') h
    rw [hab, @SelfDelimiting.concat_injective f hf hne l l' hl]

end Netstring

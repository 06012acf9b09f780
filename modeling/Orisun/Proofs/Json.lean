import Orisun.Json

/-!
# What a document's text tells

Every value but a number prints to text that shows where it ends, so the text of a value without
numbers is read back from in front of any other text (`chars_append_inj`), and two such values
with one text are one value (`text_inj`).
-/

namespace Orisun

namespace Json

open Quoted

theorem chars_head {j : Json} (h : j.NumberFree) :
    ∃ c cs, j.chars = c :: cs ∧ c ∉ [']', '}', ','] := by
  rcases j with _ | b | t | s | js | fs
  · exact ⟨'n', _, rfl, by decide⟩
  · cases b
    · exact ⟨'f', _, rfl, by decide⟩
    · exact ⟨'t', _, rfl, by decide⟩
  · exact absurd h (by simp [NumberFree])
  · exact ⟨'"', _, rfl, by decide⟩
  · rcases js with _ | ⟨j, js⟩
    · exact ⟨'[', _, rfl, by decide⟩
    · exact ⟨'[', _, by rw [chars], by decide⟩
  · rcases fs with _ | ⟨⟨k, j⟩, fs⟩
    · exact ⟨'{', _, rfl, by decide⟩
    · exact ⟨'{', _, by rw [chars], by decide⟩

mutual

theorem chars_append_inj : ∀ (j j' : Json) {r r' : List Char}, j.NumberFree → j'.NumberFree →
    j.chars ++ r = j'.chars ++ r' → j = j' ∧ r = r'
  | .null, j', r, r', _, h', h => by
    rcases j' with _ | b | t | s | js | fs
    · simpa [chars] using h
    · cases b <;> simp [chars] at h
    · exact absurd h' (by simp [NumberFree])
    · simp [chars, quote] at h
    · rcases js with _ | ⟨j, js⟩ <;> simp [chars] at h
    · rcases fs with _ | ⟨⟨k, j⟩, fs⟩ <;> simp [chars] at h
  | .bool b, j', r, r', _, h', h => by
    rcases j' with _ | b' | t | s | js | fs
    · cases b <;> simp [chars] at h
    · cases b <;> cases b' <;> simp [chars] at h ⊢ <;> exact h
    · exact absurd h' (by simp [NumberFree])
    · cases b <;> simp [chars, quote] at h
    · rcases js with _ | ⟨j, js⟩ <;> cases b <;> simp [chars] at h
    · rcases fs with _ | ⟨⟨k, j⟩, fs⟩ <;> cases b <;> simp [chars] at h
  | .number _, _, _, _, hn, _, _ => absurd hn (by simp [NumberFree])
  | .string s, j', r, r', _, h', h => by
    rcases j' with _ | b' | t | s' | js | fs
    · simp [chars, quote] at h
    · cases b' <;> simp [chars, quote] at h
    · exact absurd h' (by simp [NumberFree])
    · simp only [chars] at h
      obtain ⟨hs, hr⟩ := quote_append_inj h
      exact ⟨by rw [String.toList_inj.1 hs], hr⟩
    · rcases js with _ | ⟨j, js⟩ <;> simp [chars, quote] at h
    · rcases fs with _ | ⟨⟨k, j⟩, fs⟩ <;> simp [chars, quote] at h
  | .array [], j', r, r', _, h', h => by
    rcases j' with _ | b' | t | s' | js | fs
    · simp [chars] at h
    · cases b' <;> simp [chars] at h
    · exact absurd h' (by simp [NumberFree])
    · simp [chars, quote] at h
    · rcases js with _ | ⟨j, js⟩
      · simpa [chars] using h
      · obtain ⟨c, cs, hc, hcl⟩ := chars_head (j := j) (by
          simp only [NumberFree, NumberFreeItems] at h'
          exact h'.1)
        simp [chars, hc] at h
        exact absurd h.1.symm (by simp at hcl; exact hcl.1)
    · rcases fs with _ | ⟨⟨k, j⟩, fs⟩ <;> simp [chars] at h
  | .array (i :: is), j', r, r', hn, h', h => by
    simp only [NumberFree, NumberFreeItems] at hn
    rcases j' with _ | b' | t | s' | js | fs
    · simp [chars] at h
    · cases b' <;> simp [chars] at h
    · exact absurd h' (by simp [NumberFree])
    · simp [chars, quote] at h
    · rcases js with _ | ⟨j, js⟩
      · obtain ⟨c, cs, hc, hcl⟩ := chars_head hn.1
        simp [chars, hc] at h
        exact absurd h.1 (by simp at hcl; exact hcl.1)
      · simp only [NumberFree, NumberFreeItems] at h'
        simp only [chars, List.cons_append, List.append_assoc, List.cons.injEq, true_and] at h
        obtain ⟨hj, ht⟩ := chars_append_inj i j hn.1 h'.1 h
        obtain ⟨hjs, hr⟩ := itemChars_append_inj is js hn.2 h'.2 ht
        exact ⟨by rw [hj, hjs], hr⟩
    · rcases fs with _ | ⟨⟨k, j⟩, fs⟩ <;> simp [chars] at h
  | .object [], j', r, r', _, h', h => by
    rcases j' with _ | b' | t | s' | js | fs
    · simp [chars] at h
    · cases b' <;> simp [chars] at h
    · exact absurd h' (by simp [NumberFree])
    · simp [chars, quote] at h
    · rcases js with _ | ⟨j, js⟩ <;> simp [chars] at h
    · rcases fs with _ | ⟨⟨k, j⟩, fs⟩
      · simpa [chars] using h
      · simp [chars, quote] at h
  | .object ((k, i) :: is), j', r, r', hn, h', h => by
    simp only [NumberFree, NumberFreeFields] at hn
    rcases j' with _ | b' | t | s' | js | fs
    · simp [chars] at h
    · cases b' <;> simp [chars] at h
    · exact absurd h' (by simp [NumberFree])
    · simp [chars, quote] at h
    · rcases js with _ | ⟨j, js⟩ <;> simp [chars] at h
    · rcases fs with _ | ⟨⟨k', j⟩, fs⟩
      · simp [chars, quote] at h
      · simp only [NumberFree, NumberFreeFields] at h'
        simp only [chars, List.cons_append, List.append_assoc, List.cons.injEq, true_and] at h
        obtain ⟨hk, h⟩ := quote_append_inj h
        simp only [List.cons.injEq, true_and] at h
        obtain ⟨hj, ht⟩ := chars_append_inj i j hn.1 h'.1 h
        obtain ⟨hfs, hr⟩ := fieldChars_append_inj is fs hn.2 h'.2 ht
        exact ⟨by rw [String.toList_inj.1 hk, hj, hfs], hr⟩

theorem itemChars_append_inj : ∀ (js js' : List Json) {r r' : List Char}, NumberFreeItems js →
    NumberFreeItems js' → itemChars js ++ r = itemChars js' ++ r' → js = js' ∧ r = r'
  | [], [], r, r', _, _, h => by simpa [itemChars] using h
  | [], j :: js, r, r', _, _, h => by simp [itemChars] at h
  | j :: js, [], r, r', _, _, h => by simp [itemChars] at h
  | j :: js, j' :: js', r, r', hn, hn', h => by
    simp only [NumberFreeItems] at hn hn'
    simp only [itemChars, List.cons_append, List.append_assoc, List.cons.injEq, true_and] at h
    obtain ⟨hj, ht⟩ := chars_append_inj j j' hn.1 hn'.1 h
    obtain ⟨hjs, hr⟩ := itemChars_append_inj js js' hn.2 hn'.2 ht
    exact ⟨by rw [hj, hjs], hr⟩

theorem fieldChars_append_inj : ∀ (fs fs' : List (String × Json)) {r r' : List Char},
    NumberFreeFields fs → NumberFreeFields fs' → fieldChars fs ++ r = fieldChars fs' ++ r' →
      fs = fs' ∧ r = r'
  | [], [], r, r', _, _, h => by simpa [fieldChars] using h
  | [], (k, j) :: fs, r, r', _, _, h => by simp [fieldChars] at h
  | (k, j) :: fs, [], r, r', _, _, h => by simp [fieldChars] at h
  | (k, j) :: fs, (k', j') :: fs', r, r', hn, hn', h => by
    simp only [NumberFreeFields] at hn hn'
    simp only [fieldChars, List.cons_append, List.append_assoc, List.cons.injEq, true_and] at h
    obtain ⟨hk, h⟩ := quote_append_inj h
    simp only [List.cons.injEq, true_and] at h
    obtain ⟨hj, ht⟩ := chars_append_inj j j' hn.1 hn'.1 h
    obtain ⟨hfs, hr⟩ := fieldChars_append_inj fs fs' hn.2 hn'.2 ht
    exact ⟨by rw [String.toList_inj.1 hk, hj, hfs], hr⟩

end

theorem text_inj {j j' : Json} (hn : j.NumberFree) (hn' : j'.NumberFree)
    (h : j.text = j'.text) : j = j' := by
  have hc : j.chars = j'.chars := by
    simpa only [text, String.toList_ofList] using congrArg String.toList h
  exact (@chars_append_inj j j' [] [] hn hn' (by rw [hc])).1

end Json

end Orisun

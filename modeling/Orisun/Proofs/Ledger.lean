import Orisun.Ledger

/-!
# A ledger grows by accepted saves

A save whose commit position is above the others' and whose write is new is the next entry.
-/

namespace Orisun

variable {entry : LedgerEntry}

theorem LedgerEntry.Placed.rows_ne (h : entry.Placed) : entry.rows ≠ [] := by
  intro hnil
  have hlast := h.last
  rw [hnil] at hlast
  cases hlast

theorem LedgerEntry.Placed.ordered (h : entry.Placed) :
    entry.rows.Pairwise fun row row' => row.position < row'.position := by
  refine h.prepares.imp_of_mem fun {row row'} hrow hrow' hlt => ?_
  rw [Position.lt_iff, h.commit row hrow, h.commit row' hrow']
  exact .inr ⟨rfl, hlt⟩

theorem LedgerEntry.Placed.sentinels (h : entry.Placed) {row : LedgerRow} (hrow : row ∈ entry.rows) :
    row.position ≠ ⟨0, 0⟩ ∧ row.position ≠ notExistsPosition := by
  have hcommit := h.commit row hrow
  have hpos := h.positive
  constructor
  · intro he
    rw [he] at hcommit
    simp only at hcommit
    omega
  · intro he
    rw [he] at hcommit
    simp only [notExistsPosition] at hcommit
    omega

theorem Ledger.nil : Ledger [] [] [] :=
  ⟨rfl, rfl, by simp, .nil, .nil, by simp, by simp⟩

variable {entries : List LedgerEntry}

theorem Ledger.append {rows : List LedgerRow} {writes : List ℤ} (h : Ledger rows writes entries)
    (he : entry.Placed)
    (habove : ∀ e ∈ entries, e.position.commitPosition < entry.position.commitPosition)
    (hnew : entry.position.preparePosition ∉ writes) :
    Ledger (rows ++ entry.rows) (writes ++ [entry.position.preparePosition])
      (entries ++ [entry]) where
  stored := by
    rw [h.stored, List.flatMap_append, List.flatMap_singleton]
  written := by
    rw [h.written, List.map_append, List.map_singleton]
  placed := by
    exact List.forall_mem_append.2 ⟨h.placed, by simpa using he⟩
  commits := List.pairwise_append.2 ⟨h.commits, List.pairwise_singleton .., by simpa using habove⟩
  ordered := by
    refine List.pairwise_append.2 ⟨h.ordered, he.ordered, fun row hrow row' hrow' => ?_⟩
    rw [h.stored] at hrow
    obtain ⟨e, hmem, hrow⟩ := List.mem_flatMap.1 hrow
    rw [Position.lt_iff, (h.placed e hmem).commit row hrow, he.commit row' hrow']
    exact .inl (habove e hmem)
  sentinels := by
    intro row hrow
    rcases List.mem_append.1 hrow with hrow | hrow
    · exact h.sentinels row hrow
    · exact he.sentinels hrow
  oneWrite := by
    intro row hrow
    rw [List.count_append]
    rcases List.mem_append.1 hrow with hrow | hrow
    · have hone := h.oneWrite row hrow
      have hne : row.writeId ≠ entry.position.preparePosition := by
        intro heq
        rw [heq, List.count_eq_zero_of_not_mem hnew] at hone
        cases hone
      rw [hone, List.count_singleton, if_neg (by simpa using hne.symm)]
    · rw [(he.writeId row hrow).1, List.count_eq_zero_of_not_mem hnew, List.count_singleton_self]

theorem Answers.append {as bs : List (ℕ × Option Position)} {entries' : List LedgerEntry}
    (h : Answers as entries) (h' : Answers bs entries') :
    Answers (as ++ bs) (entries ++ entries') := by
  unfold Answers at h h' ⊢
  rw [List.filterMap_append, List.map_append, h, h']

theorem answers_none {as : List (ℕ × Option Position)} (h : ∀ a ∈ as, a.2 = none) :
    Answers as [] := by
  unfold Answers
  rw [List.map_nil, List.filterMap_eq_nil_iff]
  intro a ha
  rw [h a ha]
  rfl

variable {n : ℕ}

theorem Answers.exists_entry {p : Position} (h : Answers [(n, some p)] entries) :
    ∃ entry, entries = [entry] ∧ entry.position = p := by
  unfold Answers at h
  obtain ⟨entry, rfl, he⟩ := List.map_eq_singleton_iff.1 h.symm
  exact ⟨entry, rfl, (Prod.mk.inj he).2⟩

theorem answers_one {p : Position} (hn : entry.rows.length = n) (hp : entry.position = p) :
    Answers [(n, some p)] [entry] := by
  subst hn hp
  rfl

end Orisun

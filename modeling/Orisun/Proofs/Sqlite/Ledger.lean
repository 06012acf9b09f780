import Orisun.Proofs.Ledger
import Orisun.Proofs.Sqlite.Clients
import Orisun.Sqlite.Ledger

/-!
# The positions of a SQLite boundary

An accepted save takes the next ids and commits at the last of them; the ids of a save that fails
are taken by the next one.
-/

namespace Orisun.Sqlite

variable {sch : Schema}

variable {rows : List EventRow}

theorem positionedRows_writeId {firstId transactionId : ℤ} {now : String} {start : ℕ}
    {events : List PreparedEventDocument}
    (h : positionedRows firstId transactionId now start events = some rows) {row : EventRow}
    (hrow : row ∈ rows) : row.writeId = transactionId ∧
      row.data.get? "__writeId" = some (.string (writeIdText transactionId transactionId)) := by
  obtain ⟨e, -, he⟩ := Attempt.exists_of_mem_mapM h row hrow
  simp only [positionedRow, positionedDocument, Option.map_eq_some_iff, Option.bind_eq_bind,
    Option.bind_eq_some_iff, Option.pure_def, Option.some.injEq] at he
  obtain ⟨data, ⟨object, -, metadata, -, rfl⟩, rfl⟩ := he
  refine ⟨rfl, ?_⟩
  simp only [Json.get?, Fields.concat, List.foldl_cons, List.foldl_nil]
  rw [Fields.lookup_insert_of_ne _ (by decide), Fields.lookup_insert_of_ne _ (by decide),
    Fields.lookup_insert_of_ne _ (by decide), Fields.lookup_insert_of_ne _ (by decide),
    Fields.lookup_insert_self]

variable {db : Database} {s : Save}

theorem placed_rows (hn : 1 ≤ db.nextId) (hne : s.inserts ≠ []) (h : db.rows s = some rows) :
    LedgerEntry.Placed ⟨rows.map EventRow.row, ⟨db.lastId s, db.lastId s⟩⟩ := by
  have hpos : rows.map EventRow.position = _ := position_positionedRows h
  have hlen := List.length_pos_of_ne_nil hne
  refine ⟨?_, ?_, ?_, ?_, ?_⟩
  · simp only [List.forall_mem_map]
    exact fun row hrow => (mem_rows h hrow).1
  · have hids : rows.map EventRow.globalId = _ := globalId_positionedRows h
    rw [List.pairwise_map]
    have hsorted : (rows.map EventRow.globalId).Pairwise (· < ·) := by
      rw [hids, List.pairwise_map]
      exact (List.pairwise_lt_range' 1).imp fun hlt => by omega
    exact List.pairwise_map.1 hsorted
  · obtain ⟨n, hn⟩ := Nat.exists_eq_succ_of_ne_zero hlen.ne'
    have hlast := congrArg List.getLast? hpos
    rw [hn, List.range'_1_concat, List.map_append, List.map_singleton, List.getLast?_concat,
      List.getLast?_map] at hlast
    rw [List.getLast?_map, Option.map_map]
    refine Eq.trans hlast ?_
    simp only [Option.some.injEq, Position.mk.injEq, true_and, Database.lastId, hn]
    omega
  · simp only [Database.lastId]
    omega
  · simp only [List.forall_mem_map]
    exact fun row hrow => positionedRows_writeId h hrow

/-- The database is the ledger of the entries, and its ids have no gaps. -/
structure Database.Keeps (db : Database) (entries : List LedgerEntry) : Prop where
  sound : db.Sound
  nextId : 1 ≤ db.nextId
  ledger : Ledger (db.tables.events.map EventRow.row) (db.tables.writes.map WriteRow.writeId) entries
  ids : db.tables.events.map EventRow.globalId = idsBelow db.nextId

theorem Database.Keeps.commit_lt {entries : List LedgerEntry} (h : db.Keeps entries)
    {entry : LedgerEntry} (he : entry ∈ entries) :
    entry.position.commitPosition < db.nextId := by
  have hplaced := h.ledger.placed entry he
  obtain ⟨row, hrow⟩ := List.exists_mem_of_ne_nil _ hplaced.rows_ne
  have hmem : row ∈ db.tables.events.map EventRow.row := by
    rw [h.ledger.stored]
    exact List.mem_flatMap.2 ⟨entry, he, hrow⟩
  obtain ⟨r, hr, rfl⟩ := List.mem_map.1 hmem
  rw [← hplaced.commit _ hrow]
  exact h.sound.below r hr

theorem idsBelow_append {nextId : ℤ} (hn : 1 ≤ nextId) (n : ℕ) :
    idsBelow nextId ++ (List.range' 0 n).map (fun i : ℕ => nextId + (i : ℤ))
      = idsBelow (nextId + n) := by
  have hadd : (nextId + n - 1).toNat = (nextId - 1).toNat + n := by omega
  unfold idsBelow
  rw [hadd, List.range_add, List.map_append, List.map_map, ← List.range_eq_range']
  refine congrArg₂ _ rfl (List.map_congr_left fun i _ => ?_)
  simp only [Function.comp_apply]
  omega

theorem Database.Keeps.accept {entries : List LedgerEntry} (h : db.Keeps entries)
    (ha : db.acceptedRows sch s = some rows) :
    (db.accept s rows).Keeps
      (entries ++ [⟨rows.map EventRow.row, ⟨db.lastId s, db.lastId s⟩⟩]) := by
  obtain ⟨⟨-, -, -, hne, -⟩, hrows, -, hwrite, -⟩ := Database.acceptedRows_eq_some.1 ha
  have hplaced := placed_rows h.nextId hne hrows
  have hlen := List.length_pos_of_ne_nil hne
  have hids : rows.map EventRow.globalId = _ := globalId_positionedRows hrows
  have hnext : db.lastId s + 1 = db.nextId + s.inserts.length := by
    unfold Database.lastId
    omega
  refine ⟨h.sound.accept ha, ?_, ?_, ?_⟩
  · have := h.nextId
    simp only [Database.accept, hnext]
    omega
  · simp only [Database.accept, List.map_append, List.map_singleton]
    refine h.ledger.append hplaced (fun e he => ?_) hwrite
    have := h.commit_lt he
    simp only [Database.lastId]
    omega
  · simp only [Database.accept, List.map_append, hids, h.ids, hnext]
    exact idsBelow_append h.nextId _

theorem Database.Keeps.saveSteps : ∀ {saves : List Save} {db : Database}
    {entries : List LedgerEntry}, db.Keeps entries →
      ∃ new, (Sqlite.saveSteps sch db (saves.map prepareSQLiteSave)).1.Keeps (entries ++ new) ∧
        Answers (answers saves (Sqlite.saveSteps sch db (saves.map prepareSQLiteSave)).2) new
  | [], db, entries, h => ⟨[], by rwa [List.append_nil], answers_none (by simp [answers])⟩
  | s :: saves, db, entries, h => by
    rcases hstep : saveStep sch db (prepareSQLiteSave s) with ⟨db1, e | p⟩
    · obtain rfl := saveStep_error hstep
      obtain ⟨new, hkeeps, hanswers⟩ := @Database.Keeps.saveSteps saves db1 entries h
      simp only [List.map_cons, Sqlite.saveSteps, hstep]
      refine ⟨new, hkeeps, ?_⟩
      have hnone : Answers [(s.inserts.length, none)] [] := answers_none (by simp)
      exact hnone.append hanswers
    · obtain ⟨rows, ha, rfl, rfl⟩ := saveStep_ok h.sound.placed h.nextId hstep
      obtain ⟨new, hkeeps, hanswers⟩ := @Database.Keeps.saveSteps saves _ _ (h.accept ha)
      simp only [List.map_cons, Sqlite.saveSteps, hstep]
      refine ⟨_ :: new, by simpa using hkeeps, ?_⟩
      obtain ⟨-, hrows, -⟩ := Database.acceptedRows_eq_some.1 ha
      have hlen := congrArg List.length (globalId_positionedRows hrows)
      have hone : Answers [(s.inserts.length, some ⟨db.lastId s, db.lastId s⟩)]
          [⟨rows.map EventRow.row, ⟨db.lastId s, db.lastId s⟩⟩] :=
        answers_one (by simpa using hlen) rfl
      exact hone.append hanswers

theorem int64_eq {x : ℤ} (h : -2 ^ 63 ≤ x) (h' : x < 2 ^ 63) : int64 x = x := by
  unfold int64
  rw [Int.bmod_def]
  split_ifs <;> omega

theorem positionsWith_int64 {firstId : ℤ} {n : ℕ} (h1 : 1 ≤ firstId) (hmax : firstId ≤ maxInt64)
    (hn : (n : ℤ) < 2 ^ 63) : positionsWith int64 firstId n = positionsWith id firstId n := by
  have hlen : int64 n = n := int64_eq (by omega) hn
  have hroom : int64 (maxInt64 - firstId) = maxInt64 - firstId := by
    unfold maxInt64 at *
    exact int64_eq (by omega) (by omega)
  unfold positionsWith
  rw [hlen, hroom]
  simp only [id_eq]
  by_cases hguard : n = 0 ∨ (n : ℤ) > maxInt64 - firstId
  · rw [if_pos hguard, if_pos hguard]
  · rw [if_neg hguard, if_neg hguard]
    push Not at hguard
    unfold maxInt64 at *
    have hsum : int64 (firstId + n) = firstId + n := int64_eq (by omega) (by omega)
    have hlast : int64 (firstId + n - 1) = firstId + n - 1 := int64_eq (by omega) (by omega)
    have hnext : int64 (firstId + n - 1 + 1) = firstId + n - 1 + 1 :=
      int64_eq (by omega) (by omega)
    rw [hsum, hlast, hnext]
    refine congrArg some (congrArg (Prod.mk _) (congrArg (·, _) (List.map_congr_left fun i hi => ?_)))
    have hi := List.mem_range.1 hi
    rw [int64_eq (x := (i : ℤ)) (by omega) (by omega), int64_eq (by omega) (by omega)]

theorem positionsWith_accept (ha : db.acceptedRows sch s = some rows) :
    positionsWith id db.nextId s.inserts.length
      = some (db.lastId s, rows.map EventRow.globalId, (db.accept s rows).nextId) := by
  obtain ⟨⟨-, -, -, hne, hmax⟩, hrows, -⟩ := Database.acceptedRows_eq_some.1 ha
  have hlen := List.length_pos_of_ne_nil hne
  unfold positionsWith
  rw [if_neg (by simp only [id_eq]; omega), globalId_positionedRows hrows, List.range_eq_range']
  rfl

end Orisun.Sqlite

import Orisun.Lib.Latest

/-!
# Logs that grow upwards

A log is a list whose elements have positions in a linear order. It grows when elements are appended
above everything it has. Where a query stands is the latest position of its matches, and between a
log and what it has grown to, a query has moved exactly if one of the new elements matches it
(`standing_append_eq_iff`).
-/

namespace GrowingLog

variable {α P : Type*} [LinearOrder P] {pos : α → P} {bot : P}

/-- Every new element lies above every element of the log. -/
def Above (pos : α → P) (log new : List α) : Prop := ∀ x ∈ log, ∀ y ∈ new, pos x < pos y

theorem Above.append {log new new' : List α} (h : Above pos log new)
    (h' : Above pos (log ++ new) new') : Above pos log (new ++ new') := by
  intro x hx y hy
  rcases List.mem_append.1 hy with hy | hy
  · exact h x hx y hy
  · exact h' x (List.mem_append_left new hx) y hy

def Grows (pos : α → P) (log log' : List α) : Prop :=
  ∃ new, log' = log ++ new ∧ Above pos log new

theorem Grows.refl (log : List α) : Grows pos log log :=
  ⟨[], (List.append_nil log).symm, by simp [Above]⟩

theorem Grows.trans {l l' l'' : List α} (h : Grows pos l l') (h' : Grows pos l' l'') :
    Grows pos l l'' := by
  obtain ⟨new, rfl, hn⟩ := h
  obtain ⟨new', rfl, hn'⟩ := h'
  exact ⟨new ++ new', List.append_assoc .., hn.append hn'⟩

theorem Grows.mem {l l' : List α} (h : Grows pos l l') {x : α} (hx : x ∈ l) : x ∈ l' := by
  obtain ⟨new, rfl, -⟩ := h
  exact List.mem_append_left new hx

/-- The latest position of an element that `p` holds of. -/
def standing (pos : α → P) (bot : P) (p : α → Bool) (log : List α) : P :=
  Latest.latest bot ((log.filter p).map pos)

theorem standing_append_eq_iff {p : α → Bool} {log new : List α} (hb : ∀ y ∈ new, bot < pos y)
    (h : Above pos log new) :
    standing pos bot p (log ++ new) = standing pos bot p log ↔ ∀ y ∈ new, p y = false := by
  unfold standing
  rw [List.filter_append, List.map_append, Latest.latest_append_eq_iff, List.map_eq_nil_iff,
    List.filter_eq_nil_iff]
  · simp only [Bool.not_eq_true]
  · intro q hq
    obtain ⟨y, hy, rfl⟩ := List.mem_map.1 hq
    exact hb y (List.mem_filter.1 hy).1
  · intro q hq q' hq'
    obtain ⟨x, hx, rfl⟩ := List.mem_map.1 hq
    obtain ⟨y, hy, rfl⟩ := List.mem_map.1 hq'
    exact h x (List.mem_filter.1 hx).1 y (List.mem_filter.1 hy).1

def Sorted (pos : α → P) (log : List α) : Prop := log.Pairwise fun x y => pos x < pos y

def after (pos : α → P) (c : Option P) (log : List α) : List α :=
  log.filter fun x => c.all fun p => p < pos x

def since (pos : α → P) (c : Option P) (log : List α) : List α :=
  log.filter fun x => c.all fun p => p ≤ pos x

@[simp] theorem after_none (log : List α) : after pos none log = log := by
  simp [after]

@[simp] theorem after_nil (c : Option P) : after pos c [] = [] := rfl

theorem after_append (c : Option P) (log new : List α) :
    after pos c (log ++ new) = after pos c log ++ after pos c new := List.filter_append ..

theorem mem_after {p : P} {log : List α} {x : α} :
    x ∈ after pos (some p) log ↔ x ∈ log ∧ p < pos x := by
  simp [after]

theorem after_eq_self {p : P} {log : List α} (h : ∀ x ∈ log, p < pos x) :
    after pos (some p) log = log := by
  unfold after
  simpa using h

theorem after_eq_nil {p : P} {log : List α} (h : ∀ x ∈ log, pos x ≤ p) :
    after pos (some p) log = [] := by
  unfold after
  simpa using h

theorem sorted_cons {x : α} {log : List α} :
    Sorted pos (x :: log) ↔ (∀ y ∈ log, pos x < pos y) ∧ Sorted pos log := List.pairwise_cons

theorem Sorted.filter {log : List α} (h : Sorted pos log) (q : α → Bool) :
    Sorted pos (log.filter q) := List.Pairwise.filter q h

theorem Sorted.append {log new : List α} (h : Sorted pos log) (hn : Sorted pos new)
    (hab : Above pos log new) : Sorted pos (log ++ new) := List.pairwise_append.2 ⟨h, hn, hab⟩

theorem after_cut {xs ys : List α} {e : α} (h : Sorted pos (xs ++ e :: ys)) :
    after pos (some (pos e)) (xs ++ e :: ys) = ys := by
  obtain ⟨-, hys, hxs⟩ := List.pairwise_append.1 h
  rw [after_append, after_eq_nil fun x hx => (hxs x hx e (List.mem_cons_self ..)).le,
    List.nil_append, after, List.filter_cons_of_neg (by simp)]
  exact after_eq_self (List.pairwise_cons.1 hys).1

theorem after_cons {ys : List α} {e : α} (h : Sorted pos (e :: ys)) :
    after pos (some (pos e)) (e :: ys) = ys := @after_cut _ _ _ pos [] ys e h

def upTo (pos : α → P) (p : P) (log : List α) : List α := log.filter fun x => pos x ≤ p

theorem upTo_eq_self {p : P} {log : List α} (h : ∀ x ∈ log, pos x ≤ p) : upTo pos p log = log := by
  unfold upTo
  simpa using h

theorem upTo_eq_nil {p : P} {log : List α} (h : ∀ x ∈ log, p < pos x) : upTo pos p log = [] := by
  unfold upTo
  simpa using h

theorem upTo_append (p : P) (log new : List α) :
    upTo pos p (log ++ new) = upTo pos p log ++ upTo pos p new := List.filter_append ..

theorem upTo_append_after {p : P} : ∀ {log : List α}, Sorted pos log →
    upTo pos p log ++ after pos (some p) log = log
  | [], _ => rfl
  | x :: log, h => by
    obtain ⟨hx, hlog⟩ := sorted_cons.1 h
    by_cases hp : pos x ≤ p
    · have ih := @upTo_append_after p log hlog
      unfold upTo after at ih ⊢
      rw [List.filter_cons_of_pos (by simpa using hp), List.filter_cons_of_neg (by simpa using hp),
        List.cons_append, ih]
    · have hlt : ∀ y ∈ x :: log, p < pos y := by
        refine List.forall_mem_cons.2 ⟨not_le.1 hp, fun y hy => ?_⟩
        exact (not_le.1 hp).trans (hx y hy)
      rw [upTo_eq_nil hlt, after_eq_self hlt, List.nil_append]

theorem upTo_cut {xs ys : List α} {e : α} (h : Sorted pos (xs ++ e :: ys)) :
    upTo pos (pos e) (xs ++ e :: ys) = xs ++ [e] := by
  have hcut := @upTo_append_after _ _ _ pos (pos e) _ h
  rw [after_cut h] at hcut
  rw [← List.singleton_append, ← List.append_assoc] at hcut ⊢
  exact List.append_cancel_right hcut

theorem upTo_find? {p : P} {log : List α} {e : α} (h : Sorted pos log)
    (he : log.find? (fun x => decide (p < pos x)) = some e) :
    upTo pos (pos e) log = upTo pos p log ++ [e] := by
  obtain ⟨hpe, xs, ys, rfl, hxs⟩ := List.find?_eq_some_iff_append.1 he
  have hys : ∀ y ∈ e :: ys, p < pos y := by
    refine List.forall_mem_cons.2 ⟨by simpa using hpe, fun y hy => ?_⟩
    have hlt := (List.pairwise_cons.1 (List.pairwise_append.1 h).2.1).1 y hy
    exact lt_trans (by simpa using hpe) hlt
  rw [upTo_cut h, upTo_append, upTo_eq_self (by simpa using hxs), upTo_eq_nil hys, List.append_nil]

theorem after_after {c : Option P} {p : P} {log : List α} (h : ∀ q ∈ c, q ≤ p) :
    after pos (some p) (after pos c log) = after pos (some p) log := by
  unfold after
  rw [List.filter_filter]
  refine List.filter_congr fun x _ => ?_
  rcases c with _ | q
  · simp
  · simp only [Option.all_some, Bool.and_eq_left_iff_imp, decide_eq_true_eq]
    exact fun hp => lt_of_le_of_lt (h q rfl) hp

theorem length_after_lt {c : Option P} {e : α} {log : List α} (he : e ∈ log)
    (h : ∀ q ∈ c, q < pos e) :
    (after pos (some (pos e)) log).length < (after pos c log).length := by
  rw [← after_after fun q hq => (h q hq).le]
  refine List.length_filter_lt_length_iff_exists.2 ⟨e, ?_, by simp⟩
  rcases c with _ | q
  · simpa using he
  · exact mem_after.2 ⟨he, h q rfl⟩

theorem since_eq {c : Option P} : ∀ {log : List α}, Sorted pos log →
    ∃ row, since pos c log = row ++ after pos c log ∧
      (row = [] ∨ ∃ e, row = [e] ∧ c = some (pos e))
  | [], _ => ⟨[], rfl, .inl rfl⟩
  | x :: log, h => by
    obtain ⟨hx, hlog⟩ := List.pairwise_cons.1 h
    rcases c with _ | p
    · exact ⟨[], by simp [since, after], .inl rfl⟩
    · obtain ⟨row, hrow, hcase⟩ := @since_eq (some p) log hlog
      unfold since after at hrow ⊢
      rcases lt_trichotomy p (pos x) with hp | rfl | hp
      · refine ⟨[], ?_, .inl rfl⟩
        rw [List.nil_append]
        refine List.filter_congr fun y hy => ?_
        have hy' : p < pos y := by
          rcases List.mem_cons.1 hy with rfl | hy
          · exact hp
          · exact hp.trans (hx y hy)
        simp [hy', hy'.le]
      · refine ⟨[x], ?_, .inr ⟨x, rfl, rfl⟩⟩
        rw [List.filter_cons_of_pos (by simp), List.filter_cons_of_neg (by simp)]
        refine congrArg (x :: ·) (List.filter_congr fun y hy => ?_)
        simp [hx y hy, (hx y hy).le]
      · refine ⟨row, ?_, hcase⟩
        rw [List.filter_cons_of_neg (by simp [hp]), List.filter_cons_of_neg (by simp [hp.le]), hrow]

theorem filter_isPrefix {q : α → Bool} : ∀ {log : List α},
    log.Pairwise (fun x y => q y = true → q x = true) → log.filter q <+: log
  | [], _ => List.prefix_rfl
  | x :: log, h => by
    obtain ⟨hx, hlog⟩ := List.pairwise_cons.1 h
    by_cases hq : q x = true
    · rw [List.filter_cons_of_pos hq]
      exact (List.prefix_cons_inj x).2 (filter_isPrefix hlog)
    · have hnone : (x :: log).filter q = [] := by
        rw [List.filter_eq_nil_iff]
        intro y hy hqy
        rcases List.mem_cons.1 hy with rfl | hy
        · exact hq hqy
        · exact hq (hx y hy hqy)
      rw [hnone]
      exact List.nil_prefix

theorem filter_grows {q q' : α → Bool} {log log' : List α} (hlog : log <+: log')
    (hq : ∀ x, q x = true → q' x = true)
    (h : log.Pairwise fun x y => q y = true → q x = true)
    (h' : log'.Pairwise fun x y => q' y = true → q' x = true) :
    log.filter q <+: log'.filter q' := by
  refine List.prefix_of_prefix_length_le ((filter_isPrefix h).trans hlog) (filter_isPrefix h') ?_
  calc (log.filter q).length ≤ (log.filter q').length :=
        (List.monotone_filter_right log hq).length_le
    _ ≤ (log'.filter q').length := (hlog.sublist.filter q').length_le

end GrowingLog

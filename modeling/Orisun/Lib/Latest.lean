import Mathlib.Order.MinMax
import Mathlib.Data.List.Basic

/-!
# The latest of a list

`latest bot l` is the greatest element of `l`, or `bot` where `l` is empty or lies below it. It is
the least upper bound of `bot` and `l` (`latest_le_iff`), so it depends only on which elements the
list has, and the latest of several lists together is the greatest of their latest ones. In a log
that only grows upwards, the latest changes exactly when something is added
(`latest_append_eq_iff`).
-/

namespace Latest

variable {α β : Type*} [LinearOrder α] {bot : α}

/-- The greatest of `bot` and the elements of the list. -/
def latest (bot : α) (l : List α) : α := l.foldl max bot

@[simp] theorem latest_nil : latest bot [] = bot := rfl

theorem latest_le_iff : ∀ {l : List α} {bot b : α},
    latest bot l ≤ b ↔ bot ≤ b ∧ ∀ x ∈ l, x ≤ b
  | [], bot, b => by simp [latest]
  | x :: l, bot, b => by
    have ih : latest (max bot x) l ≤ b ↔ max bot x ≤ b ∧ ∀ y ∈ l, y ≤ b := latest_le_iff
    simp only [latest, List.foldl_cons] at ih ⊢
    rw [ih, max_le_iff, List.forall_mem_cons, and_assoc]

variable {l : List α}

theorem le_latest {x : α} (h : x ∈ l) : x ≤ latest bot l :=
  (latest_le_iff.1 le_rfl).2 x h

theorem bot_le_latest (l : List α) : bot ≤ latest bot l := (latest_le_iff.1 le_rfl).1

theorem latest_eq_iff {b : α} :
    latest bot l = b ↔ ∀ c, b ≤ c ↔ bot ≤ c ∧ ∀ x ∈ l, x ≤ c := by
  constructor
  · rintro rfl c
    exact latest_le_iff
  · intro h
    exact eq_of_forall_ge_iff fun c => by rw [latest_le_iff, h c]

variable {l' : List α}

theorem latest_congr (h : ∀ x, x ∈ l ↔ x ∈ l') :
    latest bot l = latest bot l' :=
  latest_eq_iff.2 fun c => by simp only [latest_le_iff, h]

theorem latest_append (l l' : List α) :
    latest bot (l ++ l') = max (latest bot l) (latest bot l') := by
  refine latest_eq_iff.2 fun c => ?_
  rw [max_le_iff, latest_le_iff, latest_le_iff, List.forall_mem_append]
  tauto

theorem latest_flatMap (f : β → List α) (l : List β) :
    latest bot (l.flatMap f) = latest bot (l.map fun b => latest bot (f b)) := by
  refine latest_eq_iff.2 fun c => ?_
  simp only [latest_le_iff, List.mem_map, List.mem_flatMap]
  constructor
  · rintro ⟨h0, h⟩
    refine ⟨h0, ?_⟩
    rintro x ⟨b, hb, hx⟩
    exact (latest_le_iff.1 (h _ ⟨b, hb, rfl⟩)).2 x hx
  · rintro ⟨h0, h⟩
    refine ⟨h0, ?_⟩
    rintro _ ⟨b, hb, rfl⟩
    exact latest_le_iff.2 ⟨h0, fun x hx => h x ⟨b, hb, hx⟩⟩

/-- The later of an element and one that may be missing. -/
def keep (x : α) : Option α → α
  | some y => max x y
  | none => x

theorem latest_eq_keep : ∀ (l : List α) (bot : α), latest bot l = keep bot l.max?
  | [], bot => rfl
  | x :: l, bot => by
    have ih : latest (max bot x) l = max bot (latest x l) := by
      refine latest_eq_iff.2 fun c => ?_
      rw [max_le_iff, max_le_iff, latest_le_iff, and_assoc]
    rw [List.max?_cons']
    exact ih

theorem foldl_keep (f : β → List α) : ∀ (l : List β) (bot : α),
    l.foldl (fun x b => keep x (f b).max?) bot = latest bot (l.flatMap f)
  | [], bot => rfl
  | b :: l, bot => by
    rw [List.foldl_cons, foldl_keep f l, ← latest_eq_keep, List.flatMap_cons]
    simp only [latest, List.foldl_append]

theorem latest_filterMap (f : β → Option α) : ∀ (l : List β) (bot : α),
    latest bot (l.filterMap f) = l.foldl (fun x b => keep x (f b)) bot
  | [], bot => rfl
  | b :: l, bot => by
    rw [List.foldl_cons, ← latest_filterMap f l, List.filterMap_cons]
    rcases f b with _ | y <;> rfl

theorem latest_mem : ∀ {l : List α} {bot : α}, latest bot l = bot ∨ latest bot l ∈ l
  | [], bot => .inl rfl
  | x :: l, bot => by
    have ih : latest (max bot x) l = max bot x ∨ latest (max bot x) l ∈ l := latest_mem
    simp only [latest, List.foldl_cons, List.mem_cons] at ih ⊢
    rcases ih with ih | ih
    · rw [ih]
      rcases max_choice bot x with h | h
      · exact .inl h
      · exact .inr (.inl h)
    · exact .inr (.inr ih)

theorem latest_append_of_lt (hne : l' ≠ []) (hl : ∀ x ∈ l, ∀ y ∈ l', x < y) :
    latest bot (l ++ l') = latest bot l' := by
  obtain ⟨y, hy⟩ := List.exists_mem_of_ne_nil l' hne
  rw [latest_append, max_eq_right]
  refine latest_le_iff.2 ⟨bot_le_latest l', fun x hx => ?_⟩
  exact (hl x hx y hy).le.trans (le_latest hy)

theorem latest_append_eq_iff (hb : ∀ y ∈ l', bot < y) (hl : ∀ x ∈ l, ∀ y ∈ l', x < y) :
    latest bot (l ++ l') = latest bot l ↔ l' = [] := by
  constructor
  · intro h
    by_contra hne
    obtain ⟨y, hy⟩ := List.exists_mem_of_ne_nil l' hne
    have hle : y ≤ latest bot l := h ▸ le_latest (List.mem_append_right l hy)
    rcases @latest_mem _ _ l bot with hm | hm
    · exact absurd (hm ▸ hle) (not_le.2 (hb y hy))
    · exact absurd hle (not_le.2 (hl _ hm y hy))
  · rintro rfl
    rw [List.append_nil]

end Latest

import Orisun.LockNames

/-!
# Which locks conflict

Two lock names are equal only within one boundary, unless the name of one boundary goes on from that
of another with the separator. Names of boundaries may contain the separator.
-/

namespace Orisun.LockNames

variable {boundaries : Set String}

theorem lockName_subscription (b n : String) :
    (Locker.subscription b n).lockName.toList = b.toList ++ '_' :: '_' :: n.toList := by
  simp [Locker.lockName]

variable {b b' : String}

theorem clashes_iff : Clashes b b' ↔
    ∃ y, b'.toList = b.toList ++ '_' :: y ∧ (y = [] ∨ y.head? = some '_') := by
  constructor
  · rintro (⟨z, hz⟩ | rfl)
    · exact ⟨'_' :: z, by simp [← hz], .inr rfl⟩
    · exact ⟨[], by simp, .inl rfl⟩
  · rintro ⟨y, hy, rfl | hhead⟩
    · right
      rw [← String.toList_inj, hy]
      simp
    · left
      obtain ⟨z, rfl⟩ : ∃ z, y = '_' :: z := by
        rcases y with _ | ⟨c, z⟩
        · simp at hhead
        · exact ⟨z, by rw [Option.some.inj hhead]⟩
      exact ⟨z, by simp [hy]⟩

theorem clashes_of_append {y n n' : List Char} (hb : b'.toList = b.toList ++ y) (hne : y ≠ [])
    (h : '_' :: '_' :: n = y ++ '_' :: '_' :: n') : Clashes b b' := by
  rcases y with _ | ⟨c, y⟩
  · exact absurd rfl hne
  · obtain ⟨rfl, hrest⟩ := List.cons.inj h
    refine clashes_iff.2 ⟨y, hb, ?_⟩
    rcases y with _ | ⟨d, y⟩
    · exact .inl rfl
    · obtain ⟨rfl, -⟩ := List.cons.inj hrest
      exact .inr rfl

theorem subscription_inj {n n' : String} (h : (Locker.subscription b n).lockName =
      (Locker.subscription b' n').lockName) (hb : ¬Clashes b b') (hb' : ¬Clashes b' b) :
    b = b' ∧ n = n' := by
  rw [← String.toList_inj, lockName_subscription, lockName_subscription] at h
  rcases List.append_eq_append_iff.1 h with ⟨y, hy, hrest⟩ | ⟨y, hy, hrest⟩
  · rcases eq_or_ne y [] with rfl | hne
    · rw [List.append_nil, String.toList_inj] at hy
      simp only [List.nil_append, List.cons.injEq, true_and, String.toList_inj] at hrest
      exact ⟨hy.symm, hrest⟩
    · exact absurd (clashes_of_append hy hne hrest) hb
  · rcases eq_or_ne y [] with rfl | hne
    · rw [List.append_nil, String.toList_inj] at hy
      simp only [List.nil_append, List.cons.injEq, true_and, String.toList_inj] at hrest
      exact ⟨hy, hrest.symm⟩
    · exact absurd (clashes_of_append hy hne hrest) hb'

theorem relay_ne {n : String} (hb : ¬Clashes b b') :
    (Locker.subscription b n).lockName ≠ (Locker.relay b').lockName := by
  intro h
  rw [← String.toList_inj, lockName_subscription] at h
  exact hb (clashes_iff.2 ⟨'_' :: n.toList, h.symm, .inr rfl⟩)

theorem lockName_inj (hno : ∀ b ∈ boundaries, ∀ b' ∈ boundaries, ¬Clashes b b') {l l' : Locker}
    (hl : l.boundary ∈ boundaries) (hl' : l'.boundary ∈ boundaries)
    (h : l.lockName = l'.lockName) : l = l' := by
  rcases l with ⟨b, n⟩ | b <;> rcases l' with ⟨b', n'⟩ | b'
  · obtain ⟨rfl, rfl⟩ := subscription_inj h (hno b hl b' hl') (hno b' hl' b hl)
    rfl
  · exact absurd h (relay_ne (hno b hl b' hl'))
  · exact absurd h.symm (relay_ne (hno b' hl' b hl))
  · exact congrArg Locker.relay h

theorem exists_of_clashes (h : Clashes b b') : ∃ l l' : Locker,
    l.boundary = b ∧ l'.boundary = b' ∧ l ≠ l' ∧ l.lockName = l'.lockName := by
  rcases h with ⟨z, hz⟩ | rfl
  · refine ⟨.subscription b (String.ofList z), .relay b', rfl, rfl, by simp, ?_⟩
    rw [← String.toList_inj, lockName_subscription]
    simpa [Locker.lockName] using hz
  · refine ⟨.subscription b "_", .subscription (b ++ "_") "", rfl, rfl, ?_, ?_⟩
    · intro h
      have := (Locker.subscription.inj h).2
      exact absurd this (by decide)
    · rw [← String.toList_inj, lockName_subscription, lockName_subscription]
      simp

/-- The lease of a name is had by a locker of that name. -/
def Bucket.Inv (boundaries : Set String) (b : Bucket) : Prop :=
  ∀ name l, b.owner name = some l → l.lockName = name ∧ l.boundary ∈ boundaries

theorem Bucket.Inv.step {b b' : Bucket} (h : b.Inv boundaries) {a : Action}
    (ha : a.isOf boundaries) (hs : b.step a = some b') : b'.Inv boundaries := by
  intro name l hl
  rcases a with m | released <;> simp only [Bucket.step] at hs
  · split at hs
    · cases hs
      simp only [Function.update_apply] at hl
      split_ifs at hl with hname
      · cases hl
        exact ⟨hname.symm, ha⟩
      · exact h name l hl
    · simp at hs
  · cases hs
    simp only [Function.update_apply] at hl
    split_ifs at hl
    exact h name l hl

/-- Lockers of the boundaries have names of their own, and in every run a lease that one of them
wants is held by no other, exactly if no two boundaries clash. -/
theorem locks_conflict_iff (boundaries : Set String) :
    ((∀ l l' : Locker, l.boundary ∈ boundaries → l'.boundary ∈ boundaries →
        l.lockName = l'.lockName → l = l') ∧
      ∀ as b, (∀ a ∈ as, a.isOf boundaries) →
        Transition.run Bucket.step ⟨fun _ => none⟩ as = some b →
        ∀ l l' : Locker, l.boundary ∈ boundaries → b.owner l.lockName = some l' → l' = l) ↔
    ∀ b ∈ boundaries, ∀ b' ∈ boundaries, ¬Clashes b b' := by
  constructor
  · rintro ⟨hinj, -⟩ b hb b' hb' hclash
    obtain ⟨l, l', rfl, rfl, hne, heq⟩ := exists_of_clashes hclash
    exact hne (hinj l l' hb hb' heq)
  · intro hno
    refine ⟨fun l l' hl hl' h => lockName_inj hno hl hl' h, fun as b hall hr l l' hl howner => ?_⟩
    have h0 : Bucket.Inv boundaries ⟨fun _ => none⟩ := by simp [Bucket.Inv]
    have h := Transition.run_invariant_along (I := Bucket.Inv boundaries)
      (fun _ _ _ h ha hs => h.step ha hs) h0 (Transition.along_of_mem _ fun a ha _ => hall a ha) hr
    obtain ⟨hname, hl'⟩ := h l.lockName l' howner
    exact lockName_inj hno hl' hl hname

/-- A subscriber of one boundary holds the lease of another's relay, and two subscribers of different
boundaries want one lease. -/
theorem locks_of_two_boundaries :
    Admin.validateName "orders" = .ok () ∧ Admin.validateName "orders__eu" = .ok () ∧
    (Locker.subscription "orders" "eu").lockName = (Locker.relay "orders__eu").lockName ∧
    (Locker.subscription "orders" "eu__billing").lockName =
      (Locker.subscription "orders__eu" "billing").lockName ∧
    ((Transition.run Bucket.step ⟨fun _ => none⟩
        [.acquire (.subscription "orders" "eu")]).bind fun b =>
      b.step (.acquire (.relay "orders__eu"))).isNone = true := by
  decide +kernel

end Orisun.LockNames

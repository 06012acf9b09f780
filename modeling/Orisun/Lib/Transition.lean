import Mathlib.Data.List.Basic

/-!
# Transition systems whose steps compute

A system is a function that takes a state and an action to the next state, or to `none` where the
action cannot be taken. A run is a list of actions; what every step preserves holds at the end of
every run (`run_invariant`), and where only the steps of some kind preserve it, at the end of
every run made of such steps (`run_invariant_along`).
-/

namespace Transition

variable {σ α : Type*} (step : σ → α → Option σ)

/-- The state after the actions, if each of them can be taken. -/
def run : σ → List α → Option σ
  | s, [] => some s
  | s, a :: as => (step s a).bind fun t => run t as

/-- Each action of the run is taken where `P` allows it. -/
def Along (P : σ → α → Prop) : σ → List α → Prop
  | _, [] => True
  | s, a :: as => P s a ∧ ∀ t, step s a = some t → Along P t as

/-- What `Along` asks, where the condition is evaluated. -/
def checkAlong (p : σ → α → Bool) : σ → List α → Bool
  | _, [] => true
  | s, a :: as => p s a && (step s a).all fun t => checkAlong p t as

variable {step}

@[simp] theorem run_nil (s : σ) : run step s [] = some s := rfl

variable {t : σ}

theorem run_cons {s : σ} {a : α} {as : List α} :
    run step s (a :: as) = some t ↔ ∃ u, step s a = some u ∧ run step u as = some t := by
  simp only [run, Option.bind_eq_some_iff]

variable {P : σ → α → Prop} {I : σ → Prop}

theorem run_invariant_along (hI : ∀ s a t, I s → P s a → step s a = some t → I t) :
    ∀ {as : List α} {s t : σ}, I s → Along step P s as → run step s as = some t → I t
  | [], s, t, h, _, hr => by
    simp only [run_nil, Option.some.injEq] at hr
    exact hr ▸ h
  | a :: as, s, t, h, hP, hr => by
    obtain ⟨u, hu, hr⟩ := run_cons.1 hr
    exact run_invariant_along hI (hI s a u h hP.1 hu) (hP.2 u hu) hr

theorem along_of_mem : ∀ {as : List α} (s : σ), (∀ a ∈ as, ∀ s, P s a) →
    Along step P s as
  | [], _, _ => trivial
  | a :: as, s, h => ⟨h a (by simp) s, fun t _ =>
      along_of_mem t fun b hb => h b (List.mem_cons_of_mem a hb)⟩

theorem along_append : ∀ {as bs : List α} {s : σ}, Along step P s as →
    (∀ t, run step s as = some t → Along step P t bs) → Along step P s (as ++ bs)
  | [], _, s, _, h => h s rfl
  | _ :: _, _, _, ha, h => ⟨ha.1, fun t ht =>
      along_append (ha.2 t ht) fun u hu => h u (run_cons.2 ⟨t, ht, hu⟩)⟩

theorem along_of_checkAlong {p : σ → α → Bool} (hp : ∀ s a, p s a = true → P s a) :
    ∀ {as : List α} {s : σ}, checkAlong step p s as = true → Along step P s as
  | [], _, _ => trivial
  | a :: as, s, h => by
    obtain ⟨ha, has⟩ := Bool.and_eq_true_iff.1 h
    refine ⟨hp s a ha, fun t ht => along_of_checkAlong hp ?_⟩
    rwa [ht] at has

theorem exists_run (s : σ) (as : List α) (p : σ → Bool) (h : (run step s as).any p = true) :
    ∃ t, run step s as = some t ∧ p t = true :=
  (Option.any_eq_true _ _).1 h

theorem run_invariant (hI : ∀ s a t, I s → step s a = some t → I t) {as : List α} {s : σ} (h : I s)
    (hr : run step s as = some t) : I t :=
  run_invariant_along (fun s a t hs (_ : True) => hI s a t hs) h
    (along_of_mem s fun _ _ _ => trivial) hr

end Transition

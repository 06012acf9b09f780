import Mathlib.Data.Nat.Notation

/-!
# Transactions and savepoints on a connection that may fail

A connection is in autocommit mode, where every statement is durable at once, or has a transaction
open. A savepoint outside of a transaction opens one, which its release commits. Any statement may
fail, and a failure may roll the whole transaction back, which puts the connection back into
autocommit mode. An interrupt lasts: it fails every later statement but those of a rollback.
-/

namespace Savepoints

structure Fault where
  interrupt : Bool
  rollsBack : Bool

structure Faults where
  fault : ℕ → Option Fault
  persists : ∀ n f, fault n = some f → f.interrupt = true →
    ∃ f', fault (n + 1) = some f' ∧ f'.interrupt = true

/-- An open transaction: what it sees, and what its savepoints go back to. One that was not begun
itself is open for its first savepoint. -/
structure Transaction (δ : Type) where
  view : δ
  stack : List δ
  begun : Bool
  kept : (begun || !stack.isEmpty) = true

structure Conn (δ : Type) where
  durable : δ
  tx : Option (Transaction δ)
  executed : ℕ

inductive Failure (ε : Type) where
  | statement (e : ε)
  | storage (interrupt : Bool)

inductive Result (ε α : Type) where
  | ok (a : α)
  | error (e : Failure ε)
  | panicked

/-- What was run has succeeded, and left a connection of some kind. -/
def succeeds {δ ε α : Type} (p : Conn δ → Bool) : Conn δ × Result ε α → Bool
  | (c, .ok _) => p c
  | _ => false

def Run (δ ε α : Type) : Type := Conn δ → Conn δ × Result ε α

variable {δ ε α β : Type}

namespace Run

protected def pure (a : α) : Run δ ε α := fun c => (c, .ok a)

def fail (e : ε) : Run δ ε α := fun c => (c, .error (.statement e))

protected def bind (x : Run δ ε α) (f : α → Run δ ε β) : Run δ ε β := fun c =>
  match x c with
  | (c, .ok a) => f a c
  | (c, .error e) => (c, .error e)
  | (c, .panicked) => (c, .panicked)

end Run

instance : Monad (Run δ ε) where
  pure := Run.pure
  bind := Run.bind

namespace Conn

def current (c : Conn δ) : δ := (c.tx.map Transaction.view).getD c.durable

def put (c : Conn δ) (d : δ) : Conn δ :=
  match c.tx with
  | some t => { c with tx := some { t with view := d } }
  | none => { c with durable := d }

def tick (c : Conn δ) : Conn δ := { c with executed := c.executed + 1 }

def failed (c : Conn δ) (f : Fault) : Conn δ :=
  { c with executed := c.executed + 1, tx := if f.rollsBack then none else c.tx }

def savepoint (c : Conn δ) : Option (Conn δ) :=
  match c.tx with
  | some t => some { c with tx := some ⟨t.view, t.view :: t.stack, t.begun, by simp⟩ }
  | none => some { c with tx := some ⟨c.durable, [c.durable], false, rfl⟩ }

def release (c : Conn δ) : Option (Conn δ) :=
  match c.tx with
  | some ⟨view, _ :: stack, begun, _⟩ =>
    if h : (begun || !stack.isEmpty) = true then some { c with tx := some ⟨view, stack, begun, h⟩ }
    else some { c with durable := view, tx := none }
  | _ => none

def rollbackTo (c : Conn δ) : Option (Conn δ) :=
  match c.tx with
  | some ⟨_, saved :: stack, begun, h⟩ => some { c with tx := some ⟨saved, saved :: stack, begun, h⟩ }
  | _ => none

end Conn

section Statements

variable (fs : Faults)

/-- The fault of the next statement; a shielded one is not interrupted. -/
def Faults.next (c : Conn δ) (shielded : Bool) : Option Fault :=
  (fs.fault c.executed).filter fun f => !(shielded && f.interrupt)

def statement (f : δ → Except ε (δ × α)) : Run δ ε α := fun c =>
  match fs.next c false with
  | some fault => (c.failed fault, .error (.storage fault.interrupt))
  | none =>
    match f c.current with
    | .ok (d, a) => ((c.put d).tick, .ok a)
    | .error e => (c.tick, .error (.statement e))

def transactionControl (shielded : Bool) (f : Conn δ → Option (Conn δ)) : Run δ ε Unit := fun c =>
  match fs.next c shielded with
  | some fault => (c.failed fault, .error (.storage fault.interrupt))
  | none =>
    match f c with
    | some c' => (c'.tick, .ok ())
    | none => (c.tick, .error (.storage false))

def insist (x : Run δ ε Unit) : Run δ ε Unit := fun c =>
  match x c with
  | (c, .ok ()) => (c, .ok ())
  | (c, _) => (c, .panicked)

def undo (result : Result ε α) : Run δ ε α := fun c =>
  match (insist (transactionControl fs true Conn.rollbackTo) : Run δ ε Unit) c with
  | (c, .ok ()) =>
    match (insist (transactionControl fs true Conn.release) : Run δ ε Unit) c with
    | (c, .ok ()) => (c, result)
    | (c, _) => (c, .panicked)
  | (c, _) => (c, .panicked)

/-- The release function of a savepoint; in autocommit mode there is nothing to do. -/
def endSavepoint : Conn δ × Result ε α → Conn δ × Result ε α
  | (c, result) =>
    if c.tx.isNone then (c, result)
    else
      match result with
      | .ok a =>
        match (transactionControl fs false Conn.release : Run δ ε Unit) c with
        | (c, .ok ()) => (c, .ok a)
        | (c, .error e) => undo fs (.error e) c
        | (c, .panicked) => (c, .panicked)
      | result => undo fs result c

/-- What is run under a savepoint. If the savepoint is interrupted it is run without one, and its
result is the interrupt. -/
def save (body : Run δ ε α) : Run δ ε α := fun c =>
  match (transactionControl fs false Conn.savepoint : Run δ ε Unit) c with
  | (c, .ok ()) => endSavepoint fs (body c)
  | (c, .error (.storage true)) =>
    match body c with
    | (c, .ok _) => (c, .error (.storage true))
    | r => r
  | (c, _) => (c, .panicked)

end Statements

section Rules

variable {fs : Faults} {c c' : Conn δ} {x : Run δ ε α} {f : α → Run δ ε β}
  {Q : δ → α → δ → Prop} {Q' : α → δ → β → δ → Prop}

/-- Statement `n` and all later ones are interrupted. -/
def Faults.Interrupted (fs : Faults) (n : ℕ) : Prop :=
  ∃ f, fs.fault n = some f ∧ f.interrupt = true

theorem Faults.Interrupted.later {n : ℕ} (h : fs.Interrupted n) : ∀ k, fs.Interrupted (n + k)
  | 0 => h
  | k + 1 => by
    obtain ⟨f, hf, hi⟩ := Faults.Interrupted.later h k
    exact fs.persists _ f hf hi

theorem Faults.Interrupted.mono {n m : ℕ} (h : fs.Interrupted n) (hle : n ≤ m) :
    fs.Interrupted m := by
  obtain ⟨k, rfl⟩ := Nat.exists_eq_add_of_le hle
  exact h.later k

def Conn.Same (c c' : Conn δ) : Prop := c'.durable = c.durable ∧ c'.tx = c.tx

/-- Nothing was written, but the transaction may have been rolled back. -/
def Conn.Unwritten (c c' : Conn δ) : Prop :=
  c'.durable = c.durable ∧ (c'.tx = c.tx ∨ c'.tx = none)

theorem Conn.Unwritten.trans {c'' : Conn δ} (h : c.Unwritten c') (h' : c'.Unwritten c'') :
    c.Unwritten c'' := by
  refine ⟨h'.1.trans h.1, ?_⟩
  rcases h'.2 with htx | htx
  · rw [htx]
    exact h.2
  · exact .inr htx

theorem Conn.unwritten_failed (c : Conn δ) (f : Fault) : c.Unwritten (c.failed f) := by
  refine ⟨rfl, ?_⟩
  unfold Conn.failed
  cases f.rollsBack
  · exact .inl rfl
  · exact .inr rfl

theorem Conn.put_current (c : Conn δ) : c.put c.current = c := by
  obtain ⟨durable, tx, executed⟩ := c
  cases tx <;> rfl

/-- Nothing was made durable, and a transaction that is still open has all its savepoints. -/
def Conn.Kept (c c' : Conn δ) : Prop :=
  c'.durable = c.durable ∧ ∀ t t', c.tx = some t → c'.tx = some t' →
    t.stack <:+ t'.stack ∧ t'.begun = t.begun

theorem Conn.Kept.trans {c'' : Conn δ} (h : c.Kept c') (hs : c'.tx.isSome = true)
    (h' : c'.Kept c'') : c.Kept c'' := by
  refine ⟨h'.1.trans h.1, fun t t'' ht ht'' => ?_⟩
  obtain ⟨t', ht'⟩ := Option.isSome_iff_exists.1 hs
  obtain ⟨hstack, hbegun⟩ := h.2 t t' ht ht'
  obtain ⟨hstack', hbegun'⟩ := h'.2 t' t'' ht' ht''
  exact ⟨hstack.trans hstack', hbegun'.trans hbegun⟩

theorem Conn.Unwritten.kept (h : c.Unwritten c') : c.Kept c' := by
  refine ⟨h.1, fun t t' ht ht' => ?_⟩
  rcases h.2 with htx | htx
  · obtain rfl : t = t' := by rwa [htx, ht, Option.some_inj] at ht'
    exact ⟨List.suffix_rfl, rfl⟩
  · rw [htx] at ht'
    cases ht'

variable {t : Transaction δ} {view : δ}

theorem Conn.kept_of_view (hd : c'.durable = c.durable) (ht : c.tx = some t)
    (ht' : c'.tx = some { t with view := view }) : c.Kept c' := by
  refine ⟨hd, fun u u' hu hu' => ?_⟩
  obtain rfl := Option.some.inj (ht.symm.trans hu)
  obtain rfl := Option.some.inj (ht'.symm.trans hu')
  exact ⟨List.suffix_rfl, rfl⟩

/-- All that is run takes effect, or nothing does. -/
def Guarded (x : Run δ ε α) (Q : δ → α → δ → Prop) : Prop :=
  ∀ c c' r, x c = (c', r) →
    (∀ a, r = .ok a → ∃ d, Q c.current a d ∧ (c.put d).Same c') ∧
    (∀ e, r = .error e → c.Unwritten c')

/-- What is run in a transaction stays within it. After a panic savepoints of its own may be left. -/
structure Contained (fs : Faults) (x : Run δ ε α) (Q : δ → α → δ → Prop) : Prop where
  ok : ∀ c t c' a, c.tx = some t → x c = (c', .ok a) →
    c'.durable = c.durable ∧ ∃ view, c'.tx = some { t with view := view } ∧ Q t.view a view
  error : ∀ c t c' e, c.tx = some t → x c = (c', .error e) →
    c'.tx = none ∨ ∃ view, c'.tx = some { t with view := view }
  stop : ∀ (c : Conn δ) t, c.tx = some t → c.Kept (x c).1
  interrupted : ∀ c : Conn δ, fs.Interrupted c.executed → c.Unwritten (x c).1
  executed : ∀ (c c' : Conn δ) (a : α), fs.Interrupted c.executed → x c = (c', .ok a) →
    c.executed ≤ c'.executed

theorem contained_fail (e : ε) : Contained fs (Run.fail e : Run δ ε α) Q where
  ok := fun c t c' a _ hr => by cases hr
  error := fun c t c' e' ht hr => by
    cases hr
    exact .inr ⟨t.view, ht⟩
  stop := fun c t _ => Conn.Unwritten.kept ⟨rfl, .inl rfl⟩
  interrupted := fun c _ => ⟨rfl, .inl rfl⟩
  executed := fun c c' a _ hr => by cases hr

theorem contained_pure (a : α) :
    Contained fs (pure a : Run δ ε α) (fun d b d' => d' = d ∧ b = a) where
  ok := fun c t c' b ht hr => by
    cases hr
    exact ⟨rfl, t.view, ht, rfl, rfl⟩
  error := fun c t c' e ht hr => by cases hr
  stop := fun c t _ => Conn.Unwritten.kept ⟨rfl, .inl rfl⟩
  interrupted := fun c _ => ⟨rfl, .inl rfl⟩
  executed := fun c c' b _ hr => by
    cases hr
    exact Nat.le_refl _

theorem Contained.imp {R : δ → α → δ → Prop} (h : Contained fs x Q)
    (hQ : ∀ d a d', Q d a d' → R d a d') : Contained fs x R :=
  { h with
    ok := fun c t c' a ht hr => by
      obtain ⟨hd, view, hview, hq⟩ := h.ok c t c' a ht hr
      exact ⟨hd, view, hview, hQ _ _ _ hq⟩ }

theorem next_of_interrupted (h : fs.Interrupted c.executed) :
    ∃ f, fs.next c false = some f ∧ f.interrupt = true := by
  obtain ⟨f, hf, hi⟩ := h
  exact ⟨f, by simp [Faults.next, hf], hi⟩

theorem contained_statement (g : δ → Except ε (δ × α)) :
    Contained fs (statement fs g) (fun d a d' => g d = .ok (d', a)) where
  ok := fun c t c' a ht hr => by
    have hcur : c.current = t.view := by simp [Conn.current, ht]
    unfold statement at hr
    split at hr
    · cases hr
    · split at hr
      · rename_i d b hg
        cases hr
        rw [hcur] at hg
        simp only [Conn.put, ht, Conn.tick]
        exact ⟨trivial, d, rfl, hg⟩
      · cases hr
  error := fun c t c' e ht hr => by
    unfold statement at hr
    split at hr
    · rename_i f hf
      cases hr
      rcases (c.unwritten_failed f).2 with htx | htx
      · exact .inr ⟨t.view, htx.trans ht⟩
      · exact .inl htx
    · split at hr
      · cases hr
      · cases hr
        exact .inr ⟨t.view, ht⟩
  stop := fun c t ht => by
    unfold statement
    split
    · rename_i f hf
      exact (c.unwritten_failed f).kept
    · split
      · rename_i d b hg
        simp only [Conn.put, ht, Conn.tick]
        exact Conn.kept_of_view rfl ht rfl
      · exact Conn.Unwritten.kept ⟨rfl, .inl rfl⟩
  interrupted := fun c h => by
    obtain ⟨f, hf, -⟩ := next_of_interrupted h
    simp only [statement, hf]
    exact c.unwritten_failed f
  executed := fun c c' a h hr => by
    obtain ⟨f, hf, -⟩ := next_of_interrupted h
    simp only [statement, hf] at hr
    cases hr

theorem exists_of_succeeds {p : Conn δ → Bool} {y : Conn δ × Result ε α}
    (h : succeeds p y = true) : ∃ c a, y = (c, .ok a) ∧ p c = true := by
  rcases y with ⟨c, a | e | _⟩
  · exact ⟨c, a, rfl, h⟩
  · cases h
  · cases h

theorem bind_eq_ok {b : β} (h : (x >>= f) c = (c', .ok b)) :
    ∃ c1 a, x c = (c1, .ok a) ∧ f a c1 = (c', .ok b) := by
  change Run.bind x f c = _ at h
  unfold Run.bind at h
  split at h
  · rename_i c1 a hx
    exact ⟨c1, a, hx, h⟩
  · cases h
  · cases h

theorem contained_bind (hx : Contained fs x Q) (hf : ∀ a, Contained fs (f a) (Q' a)) :
    Contained fs (x >>= f) (fun d b d' => ∃ a d1, Q d a d1 ∧ Q' a d1 b d') where
  ok := fun c t c' b ht hr => by
    obtain ⟨c1, a, hxa, hfb⟩ := bind_eq_ok hr
    obtain ⟨hd1, view1, hview1, hq1⟩ := hx.ok c t c1 a ht hxa
    obtain ⟨hd2, view2, hview2, hq2⟩ := (hf a).ok c1 _ c' b hview1 hfb
    exact ⟨hd2.trans hd1, view2, hview2, a, view1, hq1, hq2⟩
  error := fun c t c' e ht hr => by
    change Run.bind x f c = _ at hr
    unfold Run.bind at hr
    split at hr
    · rename_i c1 a hxa
      obtain ⟨-, view1, hview1, -⟩ := hx.ok c t c1 a ht hxa
      exact (hf a).error c1 { t with view := view1 } c' e hview1 hr
    · rename_i c1 e1 hxe
      obtain ⟨rfl, -⟩ := Prod.mk.inj hr
      exact hx.error c t c1 e1 ht hxe
    · cases hr
  stop := fun c t ht => by
    rw [show (x >>= f) c = Run.bind x f c from rfl]
    have hstop := hx.stop c t ht
    unfold Run.bind
    split
    · rename_i c1 a hxa
      obtain ⟨hd1, view1, hview1, -⟩ := hx.ok c t c1 a ht hxa
      rw [hxa] at hstop
      exact hstop.trans (by rw [hview1]; rfl) ((hf a).stop c1 _ hview1)
    · rename_i c1 e hxe
      rw [hxe] at hstop
      exact hstop
    · rename_i c1 hxp
      rw [hxp] at hstop
      exact hstop
  interrupted := fun c h => by
    change c.Unwritten (Run.bind x f c).1
    have hu := hx.interrupted c h
    unfold Run.bind
    split
    · rename_i c1 a hxa
      rw [hxa] at hu
      exact hu.trans ((hf a).interrupted c1 (h.mono (hx.executed c c1 a h hxa)))
    · rename_i c1 e hxe
      rw [hxe] at hu
      exact hu
    · rename_i c1 hxp
      rw [hxp] at hu
      exact hu
  executed := fun c c' b h hr => by
    obtain ⟨c1, a, hxa, hfb⟩ := bind_eq_ok hr
    have hle := hx.executed c c1 a h hxa
    exact Nat.le_trans hle ((hf a).executed c1 c' b (h.mono hle) hfb)

def Conn.pushed (c : Conn δ) (view : δ) : Transaction δ :=
  ⟨view, c.current :: (c.tx.elim [] Transaction.stack), c.tx.elim false Transaction.begun, by simp⟩

theorem savepoint_eq (c : Conn δ) :
    c.savepoint = some { c with tx := some (c.pushed c.current) } := by
  obtain ⟨durable, tx, executed⟩ := c
  cases tx <;> rfl

theorem release_eq (hd : c'.durable = c.durable) (ht : c'.tx = some (c.pushed view)) :
    ∃ c1, c'.release = some c1 ∧ (c.put view).Same c1 := by
  obtain ⟨durable, tx, executed⟩ := c
  obtain ⟨durable', tx', executed'⟩ := c'
  obtain rfl : tx' = _ := ht
  obtain rfl : durable' = durable := hd
  cases tx with
  | none => exact ⟨_, rfl, rfl, rfl⟩
  | some t =>
    refine ⟨⟨durable', some { t with view := view }, executed'⟩, ?_, rfl, rfl⟩
    simp only [Conn.release, Conn.pushed, Option.elim_some]
    rw [dif_pos t.kept]

theorem rollbackTo_eq (ht : c'.tx = some (c.pushed view)) :
    c'.rollbackTo = some { c' with tx := some (c.pushed c.current) } := by
  obtain ⟨durable', tx', executed'⟩ := c'
  obtain rfl : tx' = _ := ht
  rfl

theorem insist_cases {g : Conn δ → Option (Conn δ)} {shielded : Bool} {r : Result ε Unit}
    (h : insist (transactionControl fs shielded g) c = (c', r)) :
    (r = .panicked ∧ (c' = c.tick ∨ ∃ f, c' = c.failed f)) ∨
      r = .ok () ∧ ∃ c1, g c = some c1 ∧ c' = c1.tick := by
  unfold insist transactionControl at h
  cases hf : fs.next c shielded with
  | some fault =>
    rw [hf] at h
    cases h
    exact .inl ⟨rfl, .inr ⟨fault, rfl⟩⟩
  | none =>
    rw [hf] at h
    cases hg : g c with
    | none =>
      rw [hg] at h
      cases h
      exact .inl ⟨rfl, .inl rfl⟩
    | some c1 =>
      rw [hg] at h
      exact .inr ⟨(Prod.mk.inj h).2.symm, c1, rfl, (Prod.mk.inj h).1.symm⟩

theorem insist_eq {g : Conn δ → Option (Conn δ)} {shielded : Bool} {r : Result ε Unit}
    (h : insist (transactionControl fs shielded g) c = (c', r)) :
    r = .panicked ∨ r = .ok () ∧ ∃ c1, g c = some c1 ∧ c' = c1.tick :=
  (insist_cases h).imp_left And.left

variable {r : Result ε α} {c1 : Conn δ}

theorem undo_eq {result : Result ε α} (hd : c'.durable = c.durable)
    (ht : c'.tx = some (c.pushed view)) (h : undo fs result c' = (c1, r)) :
    r = .panicked ∨ r = result ∧ c.Same c1 := by
  unfold undo at h
  rcases hrb : (insist (transactionControl fs true Conn.rollbackTo) : Run δ ε Unit) c' with ⟨c2, r2⟩
  rw [hrb] at h
  rcases insist_eq hrb with rfl | ⟨rfl, c3, hc3, rfl⟩
  · exact .inl (Prod.mk.inj h).2.symm
  · dsimp only at h
    rw [rollbackTo_eq ht] at hc3
    cases hc3
    rcases hrel : (insist (transactionControl fs true Conn.release) : Run δ ε Unit)
      (Conn.tick { c' with tx := some (c.pushed c.current) }) with ⟨c4, r4⟩
    rw [hrel] at h
    rcases insist_eq hrel with rfl | ⟨rfl, c5, hc5, rfl⟩
    · exact .inl (Prod.mk.inj h).2.symm
    · obtain ⟨c6, hc6, hsame⟩ := @release_eq _ c
        (Conn.tick { c' with tx := some (c.pushed c.current) }) c.current hd rfl
      rw [hc5] at hc6
      cases hc6
      rw [Conn.put_current] at hsame
      cases h
      exact .inr ⟨rfl, hsame⟩

theorem undo_panicked (c : Conn δ) : (undo fs (.panicked : Result ε α) c).2 = .panicked := by
  unfold undo
  repeat' split
  all_goals rfl

variable {e : Failure ε}

theorem undo_failed {f : Fault} (hd : c'.durable = c.durable) (ht : c'.tx = some (c.pushed view))
    (h : undo fs (.error e) (c'.failed f) = (c1, r)) :
    r = .panicked ∨ r = .error e ∧ c.Same c1 := by
  rcases (c'.unwritten_failed f).2 with htx | htx
  · have hd' : (c'.failed f).durable = c.durable := hd
    exact undo_eq hd' (htx.trans ht) h
  · unfold undo at h
    rcases hrb : (insist (transactionControl fs true Conn.rollbackTo) : Run δ ε Unit) (c'.failed f)
      with ⟨c2, r2⟩
    rw [hrb] at h
    rcases insist_eq hrb with rfl | ⟨-, c3, hc3, -⟩
    · exact .inl (Prod.mk.inj h).2.symm
    · simp [Conn.rollbackTo, htx] at hc3

theorem endSavepoint_error (hd : c'.durable = c.durable)
    (ht : c'.tx = none ∨ c'.tx = some (c.pushed view))
    (h : endSavepoint fs (c', .error e) = (c1, r)) :
    r = .panicked ∨ r = .error e ∧ c.Unwritten c1 := by
  simp only [endSavepoint] at h
  rcases ht with ht | ht
  · rw [if_pos (by simp [ht])] at h
    cases h
    exact .inr ⟨rfl, hd, .inr ht⟩
  · rw [if_neg (by simp [ht])] at h
    exact (undo_eq hd ht h).imp_right fun ⟨hr, hsame⟩ => ⟨hr, hsame.1, .inl hsame.2⟩

theorem endSavepoint_ok {a : α} (hd : c'.durable = c.durable) (ht : c'.tx = some (c.pushed view))
    (h : endSavepoint fs (c', .ok a) = (c1, r)) :
    r = .panicked ∨ (r = .ok a ∧ (c.put view).Same c1) ∨ ∃ e, r = .error e ∧ c.Unwritten c1 := by
  simp only [endSavepoint] at h
  rw [if_neg (by simp [ht])] at h
  unfold transactionControl at h
  cases hf : fs.next c' false with
  | some fault =>
    rw [hf] at h
    exact (undo_failed hd ht h).imp_right fun ⟨hr, hsame⟩ =>
      .inr ⟨_, hr, hsame.1, .inl hsame.2⟩
  | none =>
    rw [hf] at h
    obtain ⟨c2, hc2, hsame⟩ := release_eq hd ht
    rw [hc2] at h
    cases h
    exact .inr (.inl ⟨rfl, hsame⟩)

def Conn.saved (c : Conn δ) : Conn δ := Conn.tick { c with tx := some (c.pushed c.current) }

theorem save_of_none (hf : fs.next c false = none) : save fs x c = endSavepoint fs (x c.saved) := by
  unfold save transactionControl
  rw [hf, savepoint_eq]
  rfl

variable {fault : Fault}

theorem save_of_interrupt (hf : fs.next c false = some fault) (hi : fault.interrupt = true) :
    (save fs x c).1 = (x (c.failed fault)).1 ∧
      ∀ a, (save fs x c).2 ≠ .ok a := by
  unfold save transactionControl
  rcases hx : x (c.failed fault) with ⟨c2, r2⟩
  cases r2 <;> simp [hf, hi, hx]

theorem save_of_fault (hf : fs.next c false = some fault) (hi : fault.interrupt = false) :
    save fs x c = (c.failed fault, .panicked) := by
  unfold save transactionControl
  rw [hf]
  dsimp only
  rw [hi]

theorem unwritten_of_interrupt (h : Contained fs x Q) (hf : fs.next c false = some fault)
    (hi : fault.interrupt = true) :
    c.Unwritten (save fs x c).1 := by
  have hint : fs.Interrupted c.executed := ⟨fault, by simpa [Faults.next] using hf, hi⟩
  rw [(save_of_interrupt hf hi).1]
  exact (c.unwritten_failed fault).trans
    (h.interrupted (c.failed fault) (hint.mono (Nat.le_succ _)))

theorem guarded_save (h : Contained fs x Q) : Guarded (save fs x) Q := by
  intro c c' r hr
  cases hf : fs.next c false with
  | some fault =>
    cases hi : fault.interrupt with
    | false =>
      rw [save_of_fault hf hi] at hr
      cases hr
      exact ⟨nofun, nofun⟩
    | true =>
      have hu := unwritten_of_interrupt h hf hi
      have hnot := (@save_of_interrupt _ _ _ _ _ x _ hf hi).2
      rw [hr] at hu hnot
      exact ⟨fun a ha => absurd ha (hnot a), fun _ _ => hu⟩
  | none =>
    rw [save_of_none hf] at hr
    rcases hx : x c.saved with ⟨c2, r2⟩
    rw [hx] at hr
    obtain ⟨hd, -⟩ := h.stop c.saved _ rfl
    rw [hx] at hd
    cases r2 with
    | ok a =>
      obtain ⟨-, view, hview, hq⟩ := h.ok _ _ c2 a rfl hx
      rcases endSavepoint_ok (c := c) hd hview hr with rfl | ⟨rfl, hsame⟩ | ⟨e, rfl, hu⟩
      · exact ⟨nofun, nofun⟩
      · refine ⟨fun b hb => ?_, nofun⟩
        obtain rfl := Result.ok.inj hb
        exact ⟨view, hq, hsame⟩
      · exact ⟨nofun, fun _ _ => hu⟩
    | error e =>
      have htx' : ∃ view, c2.tx = none ∨ c2.tx = some (c.pushed view) := by
        rcases h.error _ _ c2 e rfl hx with htx | ⟨view, htx⟩
        · exact ⟨c.current, .inl htx⟩
        · exact ⟨view, .inr htx⟩
      obtain ⟨view, htx'⟩ := htx'
      rcases endSavepoint_error (c := c) hd htx' hr with rfl | ⟨rfl, hu⟩
      · exact ⟨nofun, nofun⟩
      · exact ⟨nofun, fun _ _ => hu⟩
    | panicked =>
      have hp : r = .panicked := by
        simp only [endSavepoint] at hr
        split at hr
        · exact (Prod.mk.inj hr).2.symm
        · rw [← @undo_panicked _ _ _ fs c2, hr]
      rw [hp]
      exact ⟨nofun, nofun⟩

theorem tick_kept (h : c.Kept c') : c.Kept c'.tick := h

theorem failed_kept (h : c.Kept c') (f : Fault) : c.Kept (c'.failed f) := by
  refine ⟨h.1, fun t t' ht ht' => ?_⟩
  rcases (c'.unwritten_failed f).2 with htx | htx
  · exact h.2 t t' ht (htx.symm.trans ht')
  · rw [htx] at ht'
    cases ht'

theorem kept_of_saved (h : c.saved.Kept c') : c.Kept c' := by
  refine ⟨h.1, fun t t' ht ht' => ?_⟩
  obtain ⟨hstack, hbegun⟩ := h.2 _ t' rfl ht'
  simp only [Conn.pushed, ht, Option.elim_some] at hstack hbegun
  exact ⟨(List.suffix_cons _ _).trans hstack, hbegun⟩

theorem rollbackTo_kept (h : c.Kept c') (hr : c'.rollbackTo = some c1) :
    c.Kept c1 ∧ ∃ saved stack begun hk, c1.tx = some ⟨saved, saved :: stack, begun, hk⟩ := by
  obtain ⟨durable', tx', executed'⟩ := c'
  unfold Conn.rollbackTo at hr
  split at hr
  · rename_i view saved stack begun hk htx
    obtain rfl : tx' = _ := htx
    cases hr
    refine ⟨⟨h.1, fun t t' ht ht' => ?_⟩, saved, stack, begun, hk, rfl⟩
    cases ht'
    exact h.2 t ⟨view, saved :: stack, begun, hk⟩ ht rfl
  · cases hr

theorem release_kept {saved : δ} {stack : List δ} {begun : Bool} {hk : _} (h : c.saved.Kept c')
    (ht : c'.tx = some ⟨saved, saved :: stack, begun, hk⟩) (hr : c'.release = some c1) :
    c.Kept c1 := by
  obtain ⟨durable', tx', executed'⟩ := c'
  obtain rfl : tx' = _ := ht
  obtain ⟨hstack, hbegun⟩ := h.2 _ _ rfl rfl
  obtain ⟨below, hbelow⟩ := hstack
  simp only [Conn.pushed] at hbelow hbegun
  simp only [Conn.release] at hr
  by_cases hopen : (begun || !stack.isEmpty) = true
  · rw [dif_pos hopen] at hr
    cases hr
    refine ⟨h.1, fun t t' ht ht' => ?_⟩
    cases ht'
    simp only [ht, Option.elim_some] at hbelow hbegun
    refine ⟨?_, hbegun⟩
    change t.stack <:+ stack
    rcases below with _ | ⟨d, below⟩
    · exact ⟨[], (List.cons.inj hbelow).2⟩
    · rw [← (List.cons.inj hbelow).2]
      exact ⟨below ++ [c.current], by simp⟩
  · -- the savepoint was the only one: it opened the transaction
    rw [dif_neg hopen] at hr
    cases hr
    obtain ⟨rfl, rfl⟩ : begun = false ∧ stack = [] := by simpa using hopen
    obtain ⟨hsaved, hnil⟩ : c.current = saved ∧ c.tx.elim [] Transaction.stack = [] := by
      rcases below with _ | ⟨d, below⟩
      · exact List.cons.inj hbelow
      · simp at hbelow
    refine ⟨?_, fun t t' ht ht' => by cases ht'⟩
    rcases htx : c.tx with _ | t
    · rw [← hsaved, Conn.current, htx]
      rfl
    · have hkept := t.kept
      simp only [htx, Option.elim_some] at hnil hbegun
      rw [hnil, ← hbegun] at hkept
      cases hkept

theorem undo_kept (fs : Faults) (h : c.saved.Kept c') (result : Result ε α) :
    c.Kept (undo fs result c').1 := by
  unfold undo
  rcases hrb : (insist (transactionControl fs true Conn.rollbackTo) : Run δ ε Unit) c' with ⟨c2, r2⟩
  rcases insist_cases hrb with ⟨rfl, rfl | ⟨f, rfl⟩⟩ | ⟨rfl, c3, hc3, rfl⟩
  · exact kept_of_saved (tick_kept h)
  · exact kept_of_saved (failed_kept h f)
  · obtain ⟨hkept, saved, stack, begun, hk, htx⟩ := rollbackTo_kept h hc3
    dsimp only
    rcases hrel : (insist (transactionControl fs true Conn.release) : Run δ ε Unit) c3.tick
      with ⟨c4, r4⟩
    rcases insist_cases hrel with ⟨rfl, rfl | ⟨f, rfl⟩⟩ | ⟨rfl, c5, hc5, rfl⟩
    · exact kept_of_saved (tick_kept (tick_kept hkept))
    · exact kept_of_saved (failed_kept (tick_kept hkept) f)
    · exact tick_kept (release_kept (tick_kept hkept) htx hc5)

theorem endSavepoint_kept (h : c.saved.Kept c') (hr : endSavepoint fs (c', r) = (c1, .panicked)) :
    c.Kept c1 := by
  have hundo : ∀ {c2 : Conn δ} {r2 : Result ε α}, c.saved.Kept c2 →
      undo fs r2 c2 = (c1, .panicked) → c.Kept c1 := by
    intro c2 r2 h2 hu
    have hk := undo_kept fs h2 r2
    rwa [hu] at hk
  simp only [endSavepoint] at hr
  split at hr
  · obtain ⟨rfl, -⟩ := Prod.mk.inj hr
    exact kept_of_saved h
  · split at hr
    · unfold transactionControl at hr
      cases hf : fs.next c' false with
      | some fault =>
        rw [hf] at hr
        exact hundo (failed_kept h fault) hr
      | none =>
        rw [hf] at hr
        rcases hrel : c'.release with _ | c2
        · rw [hrel] at hr
          exact hundo (tick_kept h) hr
        · rw [hrel] at hr
          cases hr
    · exact hundo h hr

theorem save_panicked (h : Contained fs x Q) (hr : save fs x c = (c', .panicked)) : c.Kept c' := by
  cases hf : fs.next c false with
  | some fault =>
    cases hi : fault.interrupt with
    | false =>
      rw [save_of_fault hf hi] at hr
      obtain ⟨rfl, -⟩ := Prod.mk.inj hr
      exact (c.unwritten_failed fault).kept
    | true =>
      have hu := unwritten_of_interrupt h hf hi
      rw [hr] at hu
      exact hu.kept
  | none =>
    rw [save_of_none hf] at hr
    have hstop := h.stop c.saved _ rfl
    rcases hx : x c.saved with ⟨c2, r2⟩
    rw [hx] at hr hstop
    exact endSavepoint_kept hstop hr

theorem contained_save (h : Contained fs x Q) : Contained fs (save fs x) Q where
  ok := fun c t c' a ht hr => by
    obtain ⟨d, hq, hd, htx⟩ := (guarded_save h c c' _ hr).1 a rfl
    have hcur : c.current = t.view := by simp [Conn.current, ht]
    rw [Conn.put, ht] at hd htx
    exact ⟨hd, d, htx, hcur ▸ hq⟩
  error := fun c t c' e ht hr => by
    rcases ((guarded_save h c c' _ hr).2 e rfl).2 with htx | htx
    · exact .inr ⟨t.view, htx.trans ht⟩
    · exact .inl htx
  stop := fun c t ht => by
    rcases hr : save fs x c with ⟨c', r⟩
    cases r with
    | ok a =>
      obtain ⟨d, -, hd, htx⟩ := (guarded_save h c c' _ hr).1 a rfl
      rw [Conn.put, ht] at hd htx
      exact Conn.kept_of_view hd ht htx
    | error e => exact ((guarded_save h c c' _ hr).2 e rfl).kept
    | panicked => exact save_panicked h hr
  interrupted := fun c hint => by
    obtain ⟨f, hf, hi⟩ := next_of_interrupted hint
    exact unwritten_of_interrupt h hf hi
  executed := fun c c' a hint hr => by
    obtain ⟨f, hf, hi⟩ := next_of_interrupted hint
    exact absurd (congrArg Prod.snd hr) ((save_of_interrupt hf hi).2 a)

end Rules

end Savepoints

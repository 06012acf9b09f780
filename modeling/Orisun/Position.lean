import Mathlib.Data.Prod.Lex
import Orisun.Lib.Latest

/-!
# Positions

An event's place in its boundary: the commit position its save shares and its own prepare position.
Positions are ordered as the backends sort them, by commit position first. `(-1, -1)` is the
position a query with no match is observed at.
-/

namespace Orisun

structure Position where
  commitPosition : ℤ
  preparePosition : ℤ
  deriving DecidableEq, Repr

namespace Position

def key (p : Position) : ℤ ×ₗ ℤ := toLex (p.commitPosition, p.preparePosition)

theorem key_injective : Function.Injective key := by
  rintro ⟨c, p⟩ ⟨c', p'⟩ h
  simp only [key, toLex_inj, Prod.mk.injEq] at h
  rw [h.1, h.2]

instance : LinearOrder Position := LinearOrder.lift' key key_injective

variable {p q : Position}

theorem lt_iff : p < q ↔ p.commitPosition < q.commitPosition ∨
    p.commitPosition = q.commitPosition ∧ p.preparePosition < q.preparePosition := by
  change key p < key q ↔ _
  rw [key, key, Prod.Lex.toLex_lt_toLex]

theorem le_iff : p ≤ q ↔ p.commitPosition < q.commitPosition ∨
    p.commitPosition = q.commitPosition ∧ p.preparePosition ≤ q.preparePosition := by
  change key p ≤ key q ↔ _
  rw [key, key, Prod.Lex.toLex_le_toLex]

theorem ext_iff' : p = q ↔
    p.commitPosition = q.commitPosition ∧ p.preparePosition = q.preparePosition := by
  constructor
  · rintro rfl
    exact ⟨rfl, rfl⟩
  · rcases p with ⟨c, p⟩
    rcases q with ⟨c', p'⟩
    rintro ⟨h, h'⟩
    simp only at h h'
    rw [h, h']

end Position

def notExistsPosition : Position := ⟨-1, -1⟩

def positionValuesAfter (commit prepare previousCommit previousPrepare : ℤ) : Bool :=
  commit > previousCommit || (commit == previousCommit && prepare > previousPrepare)

theorem positionValuesAfter_iff {p q : Position} :
    positionValuesAfter p.commitPosition p.preparePosition q.commitPosition q.preparePosition
      = true ↔ q < p := by
  rw [Position.lt_iff]
  simp only [positionValuesAfter, gt_iff_lt, Bool.or_eq_true, decide_eq_true_eq,
    Bool.and_eq_true, beq_iff_eq]
  tauto

/-- The comparison by which the backends keep the later of two positions. -/
def laterPosition (latest p : Position) : Position :=
  if p.commitPosition > latest.commitPosition ∨
      p.commitPosition = latest.commitPosition ∧ p.preparePosition > latest.preparePosition
  then p else latest

theorem laterPosition_eq_max (latest p : Position) : laterPosition latest p = max latest p := by
  simp only [laterPosition, max_def_lt, Position.lt_iff, gt_iff_lt, eq_comm]

def conflictMessage (expected actual : Position) : String :=
  "OptimisticConcurrencyException:StreamVersionConflict: Expected (" ++
    toString expected.commitPosition ++ ", " ++ toString expected.preparePosition ++
    "), Actual (" ++ toString actual.commitPosition ++ ", " ++
    toString actual.preparePosition ++ ")"

/-- `WriteID`: a save by its complete final position. -/
def writeIdText (commit prepare : ℤ) : String := toString commit ++ ":" ++ toString prepare

/-- The greatest position of the list, `(-1, -1)` if it is empty. -/
def latestPosition (ps : List Position) : Position := ps.max?.getD notExistsPosition

theorem latestPosition_eq_latest {ps : List Position} (h : ∀ p ∈ ps, notExistsPosition < p) :
    latestPosition ps = Latest.latest notExistsPosition ps := by
  rcases ps with _ | ⟨p, ps⟩
  · rfl
  · have hp := h p (List.mem_cons_self ..)
    simp only [latestPosition, List.max?_cons', Option.getD_some, Latest.latest, List.foldl_cons]
    rw [max_eq_right hp.le]

end Orisun

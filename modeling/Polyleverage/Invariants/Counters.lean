import Polyleverage.Exec.Keeping
import Polyleverage.Invariants.Bare
import Polyleverage.Processor.Position

/-! # What only grows in a book

No program that runs on a book, however it ends, hands out an id again, changes the cached fee, or makes
the book another instrument's. This holds of any book, sound or not.
-/

namespace Polyleverage

open RedBlack

structure Grows (b b' : IntentBook) : Prop where
  instrument : b'.header.instrument = b.header.instrument
  cached : b'.header.cachedMaxFeeBps = b.header.cachedMaxFeeBps
  ids : b.header.nextIntentId ≤ b'.header.nextIntentId

instance : Std.Refl Grows := ⟨fun _ => ⟨rfl, rfl, le_refl _⟩⟩

instance : IsTrans IntentBook Grows where
  trans _ _ _ first next :=
    ⟨next.instrument.trans first.instrument, next.cached.trans first.cached, first.ids.trans next.ids⟩

theorem grows_of_bare {b b' : IntentBook} (same : b'.bare = b.bare) : Grows b b' := by
  have header : b'.header.bare = b.header.bare := congrArg IntentBook.header same
  simp only [IntentBookHeader.bare, IntentBookHeader.mk.injEq] at header
  constructor <;> simp [header]

/-- Working on one order tree changes links only. -/
theorem keeping_relinked {α : Type} {side : ℕ} {m : BookM α} (keeps : Exec.Keeps (IntentTree.pool side).Relinked m) :
    Exec.Keeping Grows m :=
  ⟨keeps.mono fun _ _ relinked => grows_of_bare (sameButTree_of_relinked relinked).bare⟩

theorem keeping_relinkedSeats {α : Type} {m : BookM α} (keeps : Exec.Keeps SeatTree.pool.Relinked m) :
    Exec.Keeping Grows m :=
  ⟨keeps.mono fun _ _ relinked => grows_of_bare (sameButSeats_of_relinked relinked).bare⟩

section Books

variable {i side now : ℕ}

instance : Exec.Keeping Grows (IntentTree.insert side i) := keeping_relinked (LinkedPool.keeps_insert i)

instance : Exec.Keeping Grows (IntentTree.remove side i) := keeping_relinked (LinkedPool.keeps_remove i)

instance (trader) : Exec.Keeping Grows (SeatTree.find trader) := keeping_relinkedSeats (LinkedPool.keeps_find trader)

instance : Exec.Keeping Grows (SeatTree.insert i) := keeping_relinkedSeats (LinkedPool.keeps_insert i)

instance (f : IntentNode → IntentNode) : Exec.Keeping Grows (IntentBook.updateIntent i f) := by
  refine Exec.keeping_bind inferInstance fun node => ⟨Exec.keeps_modify fun b => ?_⟩
  exact ⟨rfl, rfl, le_refl _⟩

instance (node) : Exec.Keeping Grows (IntentBook.writeIntent i node) where
  keeps := Exec.keeps_bind_get fun b b' left => by
    rw [Exec.run_bind, Exec.run_rejectIf] at left
    split at left <;> cases left <;> exact ⟨rfl, rfl, le_refl _⟩

instance (node) : Exec.Keeping Grows (IntentBook.writeSeat i node) where
  keeps := Exec.keeps_bind_get fun b b' left => by
    rw [Exec.run_bind, Exec.run_rejectIf] at left
    split at left <;> cases left <;> exact ⟨rfl, rfl, le_refl _⟩

instance : Exec.Keeping Grows IntentBook.allocNode where
  keeps := Exec.keeps_bind_get fun b b' left => by
    split at left
    · split at left
      · simp at left
      · cases left
        exact ⟨rfl, rfl, le_refl _⟩
    · rw [Exec.run_bind, Exec.run_rejectIf] at left
      split at left
      · cases left
        exact ⟨rfl, rfl, le_refl _⟩
      · rw [Outcome.bind_ok, Exec.run_bind] at left
        cases next : Machine.checkedAdd 32 b.header.nodeCount 1 <;> rw [next] at left <;> cases left <;>
          exact ⟨rfl, rfl, le_refl _⟩

instance : Exec.Keeping Grows (IntentBook.freeNode i) where
  keeps := Exec.keeps_bind_get fun b b' left => by
    rw [Exec.run_bind, Exec.run_rejectIf] at left
    split at left <;> cases left <;> exact ⟨rfl, rfl, le_refl _⟩

instance : Exec.Keeping Grows IntentBook.nextSeq where
  keeps := Exec.keeps_bind_get fun b b' left => by
    rw [Exec.run_bind] at left
    cases next : Machine.checkedAdd 64 b.header.nextSeq 1 <;> rw [next] at left <;> cases left <;>
      exact ⟨rfl, rfl, le_refl _⟩

instance : Exec.Keeping Grows IntentBook.nextIntentId where
  keeps := Exec.keeps_bind_get fun b b' left => by
    rw [Exec.run_bind] at left
    cases next : Machine.checkedAdd 64 b.header.nextIntentId 1 with
    | none =>
      rw [next] at left
      cases left
      exact ⟨rfl, rfl, le_refl _⟩
    | some id =>
      rw [next] at left
      cases left
      obtain ⟨-, rfl⟩ := Machine.checkedAdd_eq_some.mp next
      exact ⟨rfl, rfl, Nat.le_succ _⟩

instance (count) : Exec.Keeping Grows (Book.releaseSeat i count) := by
  refine Exec.keeping_bind inferInstance fun seat => ⟨Exec.keeps_modify fun b => ?_⟩
  exact ⟨rfl, rfl, le_refl _⟩

instance : Exec.Keeping Grows (Book.chargeSeat i) := by
  refine Exec.keeping_bind inferInstance fun seat => Exec.keeping_bind inferInstance fun count =>
    ⟨Exec.keeps_modify fun b => ?_⟩
  exact ⟨rfl, rfl, le_refl _⟩

instance : Exec.Keeping Grows (Book.removeIntent side i) := by
  unfold Book.removeIntent
  infer_instance

instance (seat) : Exec.Keeping Grows (Book.cancel side i seat) := by
  unfold Book.cancel
  infer_instance

theorem keeping_removeAll (work : List (ℕ × IntentNode × ℕ)) (refund : ℕ) :
    Exec.Keeping Grows (Book.removeAll work refund) := by
  induction work generalizing refund with
  | nil =>
    unfold Book.removeAll
    infer_instance
  | cons e rest ih =>
    refine Exec.keeping_bind inferInstance fun _ => Exec.keeping_bind inferInstance fun total => ?_
    exact ih total

instance (owner) : Exec.Keeping Grows (Book.pruneOwnExpired owner now) := by
  have removes := keeping_removeAll
  unfold Book.pruneOwnExpired
  infer_instance

instance (trader) : Exec.Keeping Grows (SeatTree.findOrCreate trader) := by
  unfold SeatTree.findOrCreate
  infer_instance

instance (owner d) : Exec.Keeping Grows (Book.post owner d) := by
  unfold Book.post
  infer_instance

instance (p) : Exec.Keeping Grows (Book.writePair p) := by
  unfold Book.writePair
  infer_instance

instance : Exec.Keeping Grows (pruneSlot i side) := by
  unfold pruneSlot
  infer_instance

variable {rt : Runtime}

instance (margin mint id authorize) : Exec.Keeping Grows (cancelInBook rt margin mint id authorize) := by
  refine Exec.keeping_bind inferInstance fun ⟨idx, side⟩ => ?_
  dsimp only
  infer_instance

instance (instrument pmlc bucket long short) : Exec.Keeping Grows (matchInBook rt instrument pmlc bucket long short now) := by
  unfold matchInBook
  infer_instance

instance (substitutor p bucket long short) : Exec.Keeping Grows (substituteInBook substitutor p bucket long short now) := by
  iterate 6 refine Exec.keeping_bind inferInstance fun _ => ?_
  refine Exec.keeping_bind inferInstance fun ⟨filled, longRelease, shortRelease⟩ => ?_
  dsimp only
  infer_instance

theorem keeping_pushFreeFrom (first count : ℕ) : Exec.Keeping Grows (IntentBook.pushFreeFrom first count) := by
  induction count generalizing first with
  | zero =>
    unfold IntentBook.pushFreeFrom
    infer_instance
  | succ count ih =>
    refine Exec.keeping_bind ⟨Exec.keeps_bind_get fun b b' left => ?_⟩ fun _ => ih (first + 1)
    rw [Exec.run_bind, Exec.run_abortIf] at left
    split at left
    · simp at left
    · cases left
      exact ⟨rfl, rfl, le_refl _⟩

instance (additional) : Exec.Keeping Grows (IntentBook.expandNodes additional) where
  keeps := by
    apply Exec.keeps_bind
    · exact Exec.keeps_modify fun b => ⟨rfl, rfl, le_refl _⟩
    · intro _
      refine Exec.keeps_bind_get fun b b' left => ?_
      rw [Exec.run_bind] at left
      cases grown : Machine.checkedAdd 32 b.header.capacity additional with
      | none =>
        rw [grown] at left
        cases left
        exact ⟨rfl, rfl, le_refl _⟩
      | some capacity =>
        rw [grown] at left
        have pushed : Grows { b with header := { b.header with capacity } } b' :=
          (keeping_pushFreeFrom b.header.capacity additional).keeps _ b' left
        exact ⟨pushed.instrument, pushed.cached, pushed.ids⟩

end Books

end Polyleverage

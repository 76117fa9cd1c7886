import Polyleverage.Invariants.BookEvents

/-! # The numbers of a book are machine words

Ids and sequence numbers are only counted up by checked additions. So they fit their words in every book
that is reached.
-/

namespace Polyleverage

open RedBlack

/-- The next id and the next sequence number fit their words. -/
structure Numbered (b : IntentBook) : Prop where
  ids : b.header.nextIntentId < 2 ^ 64
  seqs : b.header.nextSeq < 2 ^ 64

/-- The book stays numbered. -/
def StaysNumbered (b b' : IntentBook) : Prop := Numbered b → Numbered b'

instance : Std.Refl StaysNumbered := ⟨fun _ => id⟩

instance : IsTrans IntentBook StaysNumbered := ⟨fun _ _ _ first next numbered => next (first numbered)⟩

/-- A header with the same two numbers. -/
theorem staysNumbered_of_header {b b' : IntentBook} (ids : b'.header.nextIntentId = b.header.nextIntentId)
    (seqs : b'.header.nextSeq = b.header.nextSeq) : StaysNumbered b b' := by
  rintro ⟨ids_lt, seqs_lt⟩
  exact ⟨ids ▸ ids_lt, seqs ▸ seqs_lt⟩

theorem staysNumbered_of_bare {b b' : IntentBook} (same : b'.bare = b.bare) : StaysNumbered b b' := by
  have header : b'.header.bare = b.header.bare := congrArg IntentBook.header same
  simp only [IntentBookHeader.bare, IntentBookHeader.mk.injEq] at header
  apply staysNumbered_of_header <;> simp [header]

theorem keeping_numbers {α : Type} {side : ℕ} {m : BookM α} (keeps : Exec.Keeps (IntentTree.pool side).Relinked m) :
    Exec.Keeping StaysNumbered m :=
  ⟨keeps.mono fun _ _ relinked => staysNumbered_of_bare (sameButTree_of_relinked relinked).bare⟩

theorem keeping_numbers_of_seats {α : Type} {m : BookM α} (keeps : Exec.Keeps SeatTree.pool.Relinked m) :
    Exec.Keeping StaysNumbered m :=
  ⟨keeps.mono fun _ _ relinked => staysNumbered_of_bare (sameButSeats_of_relinked relinked).bare⟩

section Books

variable {i side now : ℕ}

instance : Exec.Keeping StaysNumbered (IntentTree.insert side i) := keeping_numbers (LinkedPool.keeps_insert i)

instance : Exec.Keeping StaysNumbered (IntentTree.remove side i) := keeping_numbers (LinkedPool.keeps_remove i)

instance (trader) : Exec.Keeping StaysNumbered (SeatTree.find trader) :=
  keeping_numbers_of_seats (LinkedPool.keeps_find trader)

instance : Exec.Keeping StaysNumbered (SeatTree.insert i) := keeping_numbers_of_seats (LinkedPool.keeps_insert i)

/-! ### Slots -/

instance (f : IntentNode → IntentNode) : Exec.Keeping StaysNumbered (IntentBook.updateIntent i f) :=
  Exec.keeping_bind inferInstance fun _ => ⟨Exec.keeps_modify fun _ => staysNumbered_of_header rfl rfl⟩

instance (node) : Exec.Keeping StaysNumbered (IntentBook.writeIntent i node) where
  keeps := Exec.keeps_bind_get fun b b' left => by
    rcases Exec.left_bind_check left with rfl | ⟨_, -, left⟩
    · exact Std.Refl.refl _
    · cases left
      exact staysNumbered_of_header rfl rfl

instance (node) : Exec.Keeping StaysNumbered (IntentBook.writeSeat i node) where
  keeps := Exec.keeps_bind_get fun b b' left => by
    rcases Exec.left_bind_check left with rfl | ⟨_, -, left⟩
    · exact Std.Refl.refl _
    · cases left
      exact staysNumbered_of_header rfl rfl

instance : Exec.Keeping StaysNumbered IntentBook.allocNode where
  keeps := Exec.keeps_bind_get fun b b' left => by
    split at left
    · split at left
      · simp at left
      · cases left
        exact staysNumbered_of_header rfl rfl
    · rcases Exec.left_bind_check left with rfl | ⟨_, -, left⟩
      · exact Std.Refl.refl _
      rcases Exec.left_bind_check left with rfl | ⟨_, -, left⟩
      · exact Std.Refl.refl _
      cases left
      exact staysNumbered_of_header rfl rfl

instance : Exec.Keeping StaysNumbered (IntentBook.freeNode i) where
  keeps := Exec.keeps_bind_get fun b b' left => by
    rcases Exec.left_bind_check left with rfl | ⟨_, -, left⟩
    · exact Std.Refl.refl _
    · cases left
      exact staysNumbered_of_header rfl rfl

instance (count) : Exec.Keeping StaysNumbered (Book.releaseSeat i count) :=
  Exec.keeping_bind inferInstance fun _ => ⟨Exec.keeps_modify fun _ => staysNumbered_of_header rfl rfl⟩

instance : Exec.Keeping StaysNumbered (Book.chargeSeat i) :=
  Exec.keeping_bind inferInstance fun _ => Exec.keeping_bind inferInstance fun _ =>
    ⟨Exec.keeps_modify fun _ => staysNumbered_of_header rfl rfl⟩

/-! ### Numbers -/

instance : Exec.Keeping StaysNumbered IntentBook.nextSeq where
  keeps := Exec.keeps_bind_get fun b b' left => by
    rcases Exec.left_bind_check left with rfl | ⟨next, counted, left⟩
    · exact Std.Refl.refl _
    · cases left
      obtain ⟨small, rfl⟩ := Machine.checkedAdd_eq_some.mp counted
      exact fun numbered => ⟨numbered.ids, small⟩

instance : Exec.Keeping StaysNumbered IntentBook.nextIntentId where
  keeps := Exec.keeps_bind_get fun b b' left => by
    rcases Exec.left_bind_check left with rfl | ⟨next, counted, left⟩
    · exact Std.Refl.refl _
    · cases left
      obtain ⟨small, rfl⟩ := Machine.checkedAdd_eq_some.mp counted
      exact fun numbered => ⟨small, numbered.seqs⟩

/-! ### Programs -/

instance : Exec.Keeping StaysNumbered (Book.removeIntent side i) := by
  unfold Book.removeIntent
  infer_instance

instance (seat) : Exec.Keeping StaysNumbered (Book.cancel side i seat) := by
  unfold Book.cancel
  infer_instance

instance (work refund) : Exec.Keeping StaysNumbered (Book.removeAll work refund) := by
  induction work generalizing refund with
  | nil =>
    unfold Book.removeAll
    infer_instance
  | cons e rest ih => exact Exec.keeping_bind inferInstance fun _ => Exec.keeping_bind inferInstance fun total => ih total

instance (owner) : Exec.Keeping StaysNumbered (Book.pruneOwnExpired owner now) := by
  unfold Book.pruneOwnExpired
  infer_instance

instance (trader) : Exec.Keeping StaysNumbered (SeatTree.findOrCreate trader) := by
  unfold SeatTree.findOrCreate
  infer_instance

instance (owner d) : Exec.Keeping StaysNumbered (Book.post owner d) := by
  unfold Book.post
  infer_instance

instance (p) : Exec.Keeping StaysNumbered (Book.writePair p) := by
  unfold Book.writePair
  infer_instance

instance : Exec.Keeping StaysNumbered (pruneSlot i side) := by
  unfold pruneSlot
  infer_instance

instance (work) : Exec.Keeping StaysNumbered (pruneSlots work) := by
  induction work with
  | nil =>
    unfold pruneSlots
    infer_instance
  | cons e work ih => exact Exec.keeping_bind inferInstance fun _ => ih

variable {rt : Runtime}

instance (margin mint id authorize) : Exec.Keeping StaysNumbered (cancelInBook rt margin mint id authorize) := by
  refine Exec.keeping_bind inferInstance fun ⟨idx, side⟩ => ?_
  dsimp only
  infer_instance

instance (instrument pmlc bucket long short) :
    Exec.Keeping StaysNumbered (matchInBook rt instrument pmlc bucket long short now) := by
  unfold matchInBook
  infer_instance

instance (substitutor p bucket long short) :
    Exec.Keeping StaysNumbered (substituteInBook substitutor p bucket long short now) := by
  iterate 6 refine Exec.keeping_bind inferInstance fun _ => ?_
  refine Exec.keeping_bind inferInstance fun ⟨filled, longRelease, shortRelease⟩ => ?_
  dsimp only
  infer_instance

instance (first count) : Exec.Keeping StaysNumbered (IntentBook.pushFreeFrom first count) := by
  induction count generalizing first with
  | zero =>
    unfold IntentBook.pushFreeFrom
    infer_instance
  | succ count ih =>
    refine Exec.keeping_bind ⟨Exec.keeps_bind_get fun b b' left => ?_⟩ fun _ => ih (first + 1)
    rw [Exec.run_bind, Exec.run_abortIf] at left
    split at left
    · simp at left
    · cases left
      exact staysNumbered_of_header rfl rfl

instance (additional) : Exec.Keeping StaysNumbered (IntentBook.expandNodes additional) where
  keeps := by
    apply Exec.keeps_bind
    · exact Exec.keeps_modify fun b => staysNumbered_of_header rfl rfl
    · intro _
      refine Exec.keeps_bind_get fun b b' left => ?_
      rcases Exec.left_bind_check left with rfl | ⟨capacity, -, left⟩
      · exact Std.Refl.refl _
      have grown : StaysNumbered b { b with header := { b.header with capacity } } := staysNumbered_of_header rfl rfl
      have pushed : StaysNumbered { b with header := { b.header with capacity } } b' := Exec.Keeping.keeps _ b' left
      exact Trans.trans grown pushed

end Books

theorem staysNumbered_of_event {rt : Runtime} {c : InstrumentConfig} {posts : Pubkey → Prop} {expands : Prop} {b b' : IntentBook}
    (event : BookEvent rt c posts expands b b') : StaysNumbered b b' := by
  cases event with
  | prunedOwn ran => exact Exec.Keeping.keeps.ok ran
  | posted may admissible ran => exact Exec.Keeping.keeps.ok ran
  | cancelled ran => exact Exec.Keeping.keeps.ok ran
  | pruned measured ran => exact Exec.Keeping.keeps.ok ran
  | matched left => exact Exec.Keeping.keeps _ _ left
  | substituted ran => exact Exec.Keeping.keeps.ok ran
  | expanded grows ran => exact Exec.Keeping.keeps.ok ran

/-- Every book that is reached is numbered. -/
theorem bookInvariant_numbered (rt : Runtime) : BookInvariant rt (fun _ => True) True fun _ b => Numbered b where
  fresh _ _ _ _ := ⟨(by decide : 1 < 2 ^ 64), (by decide : 1 < 2 ^ 64)⟩
  wider _ := id
  event _ _ event := staysNumbered_of_event event

end Polyleverage

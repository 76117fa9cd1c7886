import Polyleverage.Invariants.Intake
import Polyleverage.Invariants.Issued
import Polyleverage.Invariants.Posting

/-! # Properties of every intent

A property of intents that does not see their links holds of every intent of a book as long as it holds of
those that are posted, and of what fills leave. This is so of any book, also of one that has grown.
-/

namespace Polyleverage

open RedBlack Machine

/-- Every intent of the book has the property, which may depend on the book's instrument. -/
def Every (P : Pubkey → IntentNode → Prop) (b : IntentBook) : Prop :=
  ∀ (i : ℕ) node, b.nodes[i]? = some (.intent node) → P b.header.instrument node

/-- A property that does not see the links of an intent. -/
class Unlinked (P : Pubkey → IntentNode → Prop) : Prop where
  iff : ∀ instrument node l, P instrument (IntentNode.withLinks node l) ↔ P instrument node

/-- A property that a fill does not take away. -/
class Enduring (P : Pubkey → IntentNode → Prop) : Prop where
  fill : ∀ instrument node bucket release, P instrument node → P instrument (IntentNode.fill node bucket release)

/-- The book stays one whose intents all have the property, with its instrument and its fee rate. -/
structure StaysEvery (P : Pubkey → IntentNode → Prop) (b b' : IntentBook) : Prop where
  instrument : b'.header.instrument = b.header.instrument
  cached : b'.header.cachedMaxFeeBps = b.header.cachedMaxFeeBps
  every : Every P b → Every P b'

variable {P : Pubkey → IntentNode → Prop}

instance : Std.Refl (StaysEvery P) := ⟨fun _ => ⟨rfl, rfl, id⟩⟩

instance : IsTrans IntentBook (StaysEvery P) where
  trans _ _ _ first next :=
    ⟨next.instrument.trans first.instrument, next.cached.trans first.cached, fun all => next.every (first.every all)⟩

/-- A property that every intent has. -/
instance : Unlinked fun _ _ => True := ⟨fun _ _ _ => Iff.rfl⟩

instance : Enduring fun _ _ => True := ⟨fun _ _ _ _ => id⟩

/-- It suffices to look at books whose intents all have the property. -/
theorem staysEvery_of {b b' : IntentBook} (plain : StaysEvery (fun _ _ => True) b b')
    (every : Every P b → StaysEvery P b b') : StaysEvery P b b' :=
  ⟨plain.instrument, plain.cached, fun all => (every all).every all⟩

/-! ### Programs on books -/

section Writes

variable {b b' : IntentBook} {i : ℕ}

theorem staysEvery_of_bare [Unlinked P] (same : b'.bare = b.bare) : StaysEvery P b b' := by
  have header : b'.header.bare = b.header.bare := congrArg IntentBook.header same
  have instrument : b'.header.bare.instrument = b.header.bare.instrument := by rw [header]
  have cached : b'.header.bare.cachedMaxFeeBps = b.header.bare.cachedMaxFeeBps := by rw [header]
  refine ⟨instrument, cached, fun all j node slot => ?_⟩
  have before := IntentBook.bare_of_intent slot
  rw [same] at before
  obtain ⟨l, slot'⟩ := IntentBook.intent_of_bare before
  have held := all j _ slot'
  change P b'.header.bare.instrument node
  rw [instrument]
  exact (Unlinked.iff (P := P) _ node _).mp ((Unlinked.iff (P := P) _ _ _).mp held)

theorem staysEvery_of_nodes {h : IntentBookHeader} (instrument : h.instrument = b.header.instrument)
    (cached : h.cachedMaxFeeBps = b.header.cachedMaxFeeBps) : StaysEvery P b ⟨h, b.nodes⟩ where
  instrument
  cached
  every all j node slot := by
    change P h.instrument node
    rw [instrument]
    exact all j node slot

/-- A slot that is overwritten by something with the property, or by no intent. -/
theorem staysEvery_set {h : IntentBookHeader} {raw : RawNode} (instrument : h.instrument = b.header.instrument)
    (cached : h.cachedMaxFeeBps = b.header.cachedMaxFeeBps)
    (new : Every P b → ∀ node, raw = .intent node → P b.header.instrument node) :
    StaysEvery P b ⟨h, b.nodes.set i raw⟩ where
  instrument
  cached
  every all j node slot := by
    change P h.instrument node
    rw [instrument]
    rw [List.getElem?_set] at slot
    split at slot
    · split at slot
      · exact new all node (Option.some.inj slot)
      · cases slot
    · exact all j node slot

end Writes

section Books

variable {i side now : ℕ}

section Links

variable [Unlinked P]

theorem keeping_every_of_tree {α : Type} {m : BookM α} (keeps : Exec.Keeps (IntentTree.pool side).Relinked m) :
    Exec.Keeping (StaysEvery P) m :=
  ⟨keeps.mono fun _ _ relinked => staysEvery_of_bare (sameButTree_of_relinked relinked).bare⟩

theorem keeping_every_of_seats {α : Type} {m : BookM α} (keeps : Exec.Keeps SeatTree.pool.Relinked m) :
    Exec.Keeping (StaysEvery P) m :=
  ⟨keeps.mono fun _ _ relinked => staysEvery_of_bare (sameButSeats_of_relinked relinked).bare⟩

instance : Exec.Keeping (StaysEvery P) (IntentTree.insert side i) := keeping_every_of_tree (LinkedPool.keeps_insert i)

instance : Exec.Keeping (StaysEvery P) (IntentTree.remove side i) := keeping_every_of_tree (LinkedPool.keeps_remove i)

instance (trader) : Exec.Keeping (StaysEvery P) (SeatTree.find trader) := keeping_every_of_seats (LinkedPool.keeps_find trader)

instance : Exec.Keeping (StaysEvery P) (SeatTree.insert i) := keeping_every_of_seats (LinkedPool.keeps_insert i)

end Links

instance (node) : Exec.Keeping (StaysEvery P) (IntentBook.writeSeat i node) where
  keeps := Exec.keeps_bind_get fun b b' left => by
    rcases Exec.left_bind_check left with rfl | ⟨_, -, left⟩
    · exact Std.Refl.refl _
    · cases left
      exact staysEvery_set rfl rfl (by simp)

instance : Exec.Keeping (StaysEvery P) IntentBook.allocNode where
  keeps := Exec.keeps_bind_get fun b b' left => by
    split at left
    · split at left
      · simp at left
      · cases left
        exact staysEvery_of_nodes rfl rfl
    · rcases Exec.left_bind_check left with rfl | ⟨_, -, left⟩
      · exact Std.Refl.refl _
      rcases Exec.left_bind_check left with rfl | ⟨_, -, left⟩
      · exact Std.Refl.refl _
      cases left
      exact staysEvery_of_nodes rfl rfl

instance : Exec.Keeping (StaysEvery P) (IntentBook.freeNode i) where
  keeps := Exec.keeps_bind_get fun b b' left => by
    rcases Exec.left_bind_check left with rfl | ⟨_, -, left⟩
    · exact Std.Refl.refl _
    · cases left
      exact staysEvery_set rfl rfl (by simp)

instance : Exec.Keeping (StaysEvery P) IntentBook.nextSeq where
  keeps := Exec.keeps_bind_get fun b b' left => by
    rcases Exec.left_bind_check left with rfl | ⟨_, -, left⟩
    · exact Std.Refl.refl _
    · cases left
      exact staysEvery_of_nodes rfl rfl

instance : Exec.Keeping (StaysEvery P) IntentBook.nextIntentId where
  keeps := Exec.keeps_bind_get fun b b' left => by
    rcases Exec.left_bind_check left with rfl | ⟨_, -, left⟩
    · exact Std.Refl.refl _
    · cases left
      exact staysEvery_of_nodes rfl rfl

instance (count) : Exec.Keeping (StaysEvery P) (Book.releaseSeat i count) := by
  refine Exec.keeping_bind inferInstance fun seat => ⟨Exec.keeps_modify fun b => ?_⟩
  exact staysEvery_set rfl rfl (by simp)

instance : Exec.Keeping (StaysEvery P) (Book.chargeSeat i) := by
  refine Exec.keeping_bind inferInstance fun seat => Exec.keeping_bind inferInstance fun count =>
    ⟨Exec.keeps_modify fun b => ?_⟩
  exact staysEvery_set rfl rfl (by simp)

instance : Exec.Keeping (StaysEvery P) (IntentBook.pushFree i) where
  keeps := Exec.keeps_bind_get fun b b' left => by
    rw [Exec.run_bind, Exec.run_abortIf] at left
    split at left
    · simp at left
    · cases left
      exact staysEvery_set rfl rfl (by simp)

instance (first count) : Exec.Keeping (StaysEvery P) (IntentBook.pushFreeFrom first count) := by
  induction count generalizing first with
  | zero =>
    unfold IntentBook.pushFreeFrom
    infer_instance
  | succ count ih => exact Exec.keeping_bind inferInstance fun _ => ih (first + 1)

/-- The slots that a growth appends are free. -/
instance (additional) : Exec.Keeping (StaysEvery P) (IntentBook.expandNodes additional) where
  keeps := by
    apply Exec.keeps_bind
    · refine Exec.keeps_modify fun b => ⟨rfl, rfl, fun all j node slot => ?_⟩
      dsimp only at slot
      rw [List.getElem?_append] at slot
      split at slot
      · exact all j node slot
      · simp [List.getElem?_replicate] at slot
    · intro _
      refine Exec.keeps_bind_get fun b b' left => ?_
      rcases Exec.left_bind_check left with rfl | ⟨capacity, -, left⟩
      · exact Std.Refl.refl _
      have grown : StaysEvery P b { b with header := { b.header with capacity } } := staysEvery_of_nodes rfl rfl
      have pushed : StaysEvery P { b with header := { b.header with capacity } } b' := Exec.Keeping.keeps _ b' left
      exact Trans.trans grown pushed

section Programs

variable [Unlinked P]

instance : Exec.Keeping (StaysEvery P) (Book.removeIntent side i) := by
  unfold Book.removeIntent
  infer_instance

instance (seat) : Exec.Keeping (StaysEvery P) (Book.cancel side i seat) := by
  unfold Book.cancel
  infer_instance

instance (work refund) : Exec.Keeping (StaysEvery P) (Book.removeAll work refund) := by
  induction work generalizing refund with
  | nil =>
    unfold Book.removeAll
    infer_instance
  | cons e rest ih =>
    refine Exec.keeping_bind inferInstance fun _ => Exec.keeping_bind inferInstance fun total => ?_
    exact ih total

instance (owner) : Exec.Keeping (StaysEvery P) (Book.pruneOwnExpired owner now) := by
  unfold Book.pruneOwnExpired
  infer_instance

instance (trader) : Exec.Keeping (StaysEvery P) (SeatTree.findOrCreate trader) := by
  unfold SeatTree.findOrCreate
  infer_instance

instance : Exec.Keeping (StaysEvery P) (pruneSlot i side) := by
  unfold pruneSlot
  infer_instance

variable {rt : Runtime}

instance (margin mint id authorize) : Exec.Keeping (StaysEvery P) (cancelInBook rt margin mint id authorize) := by
  refine Exec.keeping_bind inferInstance fun ⟨idx, side⟩ => ?_
  dsimp only
  repeat with_reducible refine Exec.keeping_bind inferInstance fun _ => ?_
  infer_instance

/-! ### Posts -/

omit [Unlinked P] in
theorem staysEvery_writeIntent {b b' : IntentBook} {node : IntentNode} (new : P b.header.instrument node)
    (left : b' ∈ ((IntentBook.writeIntent i node).run b).state?) : StaysEvery P b b' := by
  rw [IntentBook.writeIntent, Exec.run_bind_get] at left
  rcases Exec.left_bind_check left with rfl | ⟨_, -, left⟩
  · exact Std.Refl.refl _
  · cases left
    refine staysEvery_set rfl rfl fun _ node' same => ?_
    cases same
    exact new

/-- A post keeps the property when the posted intent has it. -/
theorem staysEvery_post {b b' : IntentBook} {owner : Pubkey} {d : Book.Draft} {id : ℕ}
    (new : ∀ id seq seat, P b.header.instrument (d.node id seq seat)) (ran : (Book.post owner d).run b = .ok id b') :
    StaysEvery P b b' := by
  simp only [Book.post, Exec.bind_ok, Exec.pure_ok] at ran
  obtain ⟨seat, b1, seated, _, b2, charged, _, b3, numbered, _, b4, sequenced, i, b5, allocated, _, b6, written, _, b7,
    inserted, -, rfl⟩ := ran
  have first : StaysEvery P b b1 := Exec.Keeping.keeps.ok seated
  have second : StaysEvery P b1 b2 := Exec.Keeping.keeps.ok charged
  have third : StaysEvery P b2 b3 := Exec.Keeping.keeps.ok numbered
  have fourth : StaysEvery P b3 b4 := Exec.Keeping.keeps.ok sequenced
  have fifth : StaysEvery P b4 b5 := Exec.Keeping.keeps.ok allocated
  have until_written : StaysEvery P b b5 := Trans.trans (Trans.trans (Trans.trans (Trans.trans first second) third) fourth) fifth
  have sixth : StaysEvery P b5 b6 := by
    refine staysEvery_writeIntent ?_ (by rw [written]; rfl)
    rw [until_written.instrument]
    exact new _ _ _
  have last : StaysEvery P b6 _ := Exec.Keeping.keeps.ok inserted
  exact Trans.trans (Trans.trans until_written sixth) last

/-! ### Fills -/

omit [Unlinked P] in
theorem staysEvery_updateIntent {b b' : IntentBook} {node : IntentNode} (new : P b.header.instrument node)
    (left : b' ∈ ((IntentBook.updateIntent i fun _ => node).run b).state?) : StaysEvery P b b' := by
  rw [IntentBook.updateIntent] at left
  rcases Exec.left_bind_check left with rfl | ⟨_, -, left⟩
  · exact Std.Refl.refl _
  · cases left
    refine staysEvery_set rfl rfl fun _ node' same => ?_
    cases same
    exact new

/-- Writing a pair with the property back. -/
theorem staysEvery_writePair {b b' : IntentBook} {p : Book.Pair} (long : P b.header.instrument p.long)
    (short : P b.header.instrument p.short) (left : b' ∈ ((Book.writePair p).run b).state?) : StaysEvery P b b' := by
  rw [Book.writePair] at left
  rcases Exec.left_bind left with ⟨_, failed⟩ | ⟨_, b1, wrote, left⟩
  · exact staysEvery_updateIntent long (by rw [failed]; rfl)
  have first : StaysEvery P b b1 := staysEvery_updateIntent long (by rw [wrote]; rfl)
  rw [← first.instrument] at short
  rcases Exec.left_bind left with ⟨_, failed⟩ | ⟨_, b2, wrote', left⟩
  · exact Trans.trans first (staysEvery_updateIntent short (by rw [failed]; rfl))
  have second : StaysEvery P b1 b2 := staysEvery_updateIntent short (by rw [wrote']; rfl)
  have rest : StaysEvery P b2 _ := Exec.Keeping.keeps b2 _ left
  exact Trans.trans (Trans.trans first second) rest

/-- Filling a pair that was found. -/
theorem staysEvery_fill [Enduring P] {b b' : IntentBook} {bucket longId shortId : ℕ} {p filled : Book.Pair}
    {longRelease shortRelease : ℕ} (found : Book.findPair longId shortId now b = .ok p)
    (consumed : Book.consume bucket p = .ok (filled, longRelease, shortRelease))
    (left : b' ∈ ((Book.writePair filled).run b).state?) : StaysEvery P b b' := by
  obtain ⟨slotL, slotS⟩ := findPair_slots found
  obtain ⟨rfl, -⟩ := Book.consume_ok consumed
  have plain : StaysEvery (fun _ _ => True) b b' := staysEvery_writePair trivial trivial left
  refine staysEvery_of plain fun all => staysEvery_writePair ?_ ?_ left
  · exact Enduring.fill _ _ _ _ (all _ _ slotL)
  · exact Enduring.fill _ _ _ _ (all _ _ slotS)

section Fills

variable [Enduring P]

instance (instrument pmlc bucket longId shortId) :
    Exec.Keeping (StaysEvery P) (matchInBook rt instrument pmlc bucket longId shortId now) where
  keeps b b' left := by
    rw [matchInBook] at left
    rcases Exec.left_bind_check left with rfl | ⟨pair, found, left⟩
    · exact Std.Refl.refl _
    rcases Exec.left_bind_check left with rfl | ⟨⟨filled, longRelease, shortRelease⟩, consumed, left⟩
    · exact Std.Refl.refl _
    dsimp only at left
    rcases Exec.left_bind left with ⟨_, failed⟩ | ⟨_, b1, wrote, left⟩
    · exact staysEvery_fill found consumed (by rw [failed]; rfl)
    · have written : StaysEvery P b b1 := staysEvery_fill found consumed (by rw [wrote]; rfl)
      have rest : StaysEvery P b1 b' := Exec.Keeping.keeps b1 b' left
      exact Trans.trans written rest

instance (substitutor p bucket longId shortId) :
    Exec.Keeping (StaysEvery P) (substituteInBook substitutor p bucket longId shortId now) where
  keeps b b' left := by
    rw [substituteInBook] at left
    rcases Exec.left_bind_check left with rfl | ⟨pair, found, left⟩
    · exact Std.Refl.refl _
    rcases Exec.left_bind_check left with rfl | ⟨_, -, left⟩
    · exact Std.Refl.refl _
    rcases Exec.left_bind_check left with rfl | ⟨longSeat, -, left⟩
    · exact Std.Refl.refl _
    rcases Exec.left_bind_check left with rfl | ⟨shortSeat, -, left⟩
    · exact Std.Refl.refl _
    rcases Exec.left_bind_check left with rfl | ⟨_, -, left⟩
    · exact Std.Refl.refl _
    rcases Exec.left_bind_check left with rfl | ⟨_, -, left⟩
    · exact Std.Refl.refl _
    rcases Exec.left_bind_check left with rfl | ⟨⟨filled, longRelease, shortRelease⟩, consumed, left⟩
    · exact Std.Refl.refl _
    dsimp only at left
    rcases Exec.left_bind left with ⟨_, failed⟩ | ⟨_, b1, wrote, left⟩
    · exact staysEvery_fill found consumed (by rw [failed]; rfl)
    · cases left
      exact staysEvery_fill found consumed (by rw [wrote]; rfl)

end Fills

end Programs

end Books

end Polyleverage

import Polyleverage.Invariants.BookMatch
import Polyleverage.Invariants.Counters

/-! # What enters a book

Only a post writes an intent into a slot that held none. All other programs on a book leave it with
intents that it had, at their slots and under their ids, also when they end early. This holds of any
book, sound or not.
-/

namespace Polyleverage

open RedBlack

/-- Every intent of the book was in it before. -/
def NoNewIntents (b b' : IntentBook) : Prop :=
  ∀ (i : ℕ) node', b'.nodes[i]? = some (.intent node') → ∃ node, b.nodes[i]? = some (.intent node) ∧ node.id = node'.id

instance : Std.Refl NoNewIntents := ⟨fun _ _ node slot => ⟨node, slot, rfl⟩⟩

instance : IsTrans IntentBook NoNewIntents where
  trans _ _ _ first next := by
    intro i node'' slot
    obtain ⟨node', slot', same'⟩ := next i node'' slot
    obtain ⟨node, slot, same⟩ := first i node' slot'
    exact ⟨node, slot, same.trans same'⟩

theorem noNewIntents_of_bare {b b' : IntentBook} (same : b'.bare = b.bare) : NoNewIntents b b' := by
  intro i node' slot
  have before := IntentBook.bare_of_intent slot
  rw [same] at before
  obtain ⟨l, slot'⟩ := IntentBook.intent_of_bare before
  exact ⟨_, slot', rfl⟩

/-- A slot that is overwritten by something else than an intent. -/
theorem noNewIntents_setNode {b : IntentBook} {h : IntentBookHeader} {i : ℕ} {raw : RawNode}
    (other : ∀ node, raw ≠ .intent node) : NoNewIntents b ⟨h, b.nodes.set i raw⟩ := by
  intro j node slot
  rw [List.getElem?_set] at slot
  split at slot
  · split at slot
    · exact absurd (Option.some.inj slot) (other node)
    · cases slot
  · exact ⟨node, slot, rfl⟩

/-- An intent that is overwritten by one of its id. -/
theorem noNewIntents_update {b : IntentBook} {i : ℕ} {node node' : IntentNode} (slot : b.nodes[i]? = some (.intent node))
    (same : node.id = node'.id) : NoNewIntents b (b.setNode i (.intent node')) := by
  intro j other slot'
  rw [IntentBook.setNode, List.getElem?_set] at slot'
  split at slot'
  next here =>
    subst here
    split at slot'
    · cases slot'
      exact ⟨node, slot, same⟩
    · cases slot'
  · exact ⟨other, slot', rfl⟩

section Programs

variable {i side now : ℕ}

instance : Exec.Keeping NoNewIntents (IntentTree.remove side i) := by
  have keeps : Exec.Keeps (IntentTree.pool side).Relinked (IntentTree.remove side i) := LinkedPool.keeps_remove i
  exact ⟨keeps.mono fun _ _ relinked => noNewIntents_of_bare (sameButTree_of_relinked relinked).bare⟩

instance : Exec.Keeping NoNewIntents (IntentBook.freeNode i) where
  keeps := Exec.keeps_bind_get fun b b' left => by
    rw [Exec.run_bind, Exec.run_rejectIf] at left
    split at left
    · cases left
      exact Std.Refl.refl b
    · cases left
      exact noNewIntents_setNode (by simp)

instance (count) : Exec.Keeping NoNewIntents (Book.releaseSeat i count) := by
  refine Exec.keeping_bind inferInstance fun seat => ⟨Exec.keeps_modify fun b => ?_⟩
  exact noNewIntents_setNode (by simp)

instance : Exec.Keeping NoNewIntents (Book.removeIntent side i) := by
  unfold Book.removeIntent
  infer_instance

instance (seat) : Exec.Keeping NoNewIntents (Book.cancel side i seat) := by
  unfold Book.cancel
  infer_instance

instance : Exec.Keeping NoNewIntents (pruneSlot i side) := by
  unfold pruneSlot
  infer_instance

instance {rt : Runtime} (margin mint id authorize) : Exec.Keeping NoNewIntents (cancelInBook rt margin mint id authorize) := by
  refine Exec.keeping_bind inferInstance fun ⟨idx, side⟩ => ?_
  dsimp only
  infer_instance

instance : Exec.Keeping NoNewIntents (IntentBook.pushFree i) where
  keeps := Exec.keeps_bind_get fun b b' left => by
    rw [Exec.run_bind, Exec.run_abortIf] at left
    split at left
    · simp at left
    · cases left
      exact noNewIntents_setNode (by simp)

instance (first count) : Exec.Keeping NoNewIntents (IntentBook.pushFreeFrom first count) := by
  induction count generalizing first with
  | zero =>
    unfold IntentBook.pushFreeFrom
    infer_instance
  | succ count ih => exact Exec.keeping_bind inferInstance fun _ => ih (first + 1)

/-- The slots that a growth appends are free. -/
theorem noNewIntents_append (b : IntentBook) (count : ℕ) :
    NoNewIntents b { b with nodes := b.nodes ++ List.replicate count (.free NULL_IDX) } := by
  intro i node slot
  rw [List.getElem?_append] at slot
  split at slot
  · exact ⟨node, slot, rfl⟩
  · simp [List.getElem?_replicate] at slot

instance (additional) : Exec.Keeping NoNewIntents (IntentBook.expandNodes additional) where
  keeps := by
    apply Exec.keeps_bind
    · exact Exec.keeps_modify fun b => noNewIntents_append b additional
    · intro _
      refine Exec.keeps_bind_get fun b b' left => ?_
      rw [Exec.run_bind] at left
      cases grown : Machine.checkedAdd 32 b.header.capacity additional with
      | none =>
        rw [grown] at left
        cases left
        exact Std.Refl.refl b
      | some capacity =>
        rw [grown] at left
        have pushed : NoNewIntents { b with header := { b.header with capacity } } b' :=
          (inferInstance : Exec.Keeping NoNewIntents (IntentBook.pushFreeFrom b.header.capacity additional)).keeps _ b' left
        exact pushed

end Programs

/-! ### Pairs -/

/-- The pair that is found lies in the book, and crosses. -/
theorem findPair_reads {b : IntentBook} {longId shortId nowSlot : ℕ} {p : Book.Pair}
    (found : Book.findPair longId shortId nowSlot b = .ok p) :
    b.nodes[p.longIdx]? = some (.intent p.long) ∧ b.nodes[p.shortIdx]? = some (.intent p.short) ∧
      p.short.priceFp ≤ p.long.priceFp := by
  obtain ⟨pair, -, -⟩ := Book.found_of_findPair found
  exact ⟨pair.long, pair.short, pair.cross⟩

theorem findPair_slots {b : IntentBook} {longId shortId nowSlot : ℕ} {p : Book.Pair}
    (found : Book.findPair longId shortId nowSlot b = .ok p) :
    b.nodes[p.longIdx]? = some (.intent p.long) ∧ b.nodes[p.shortIdx]? = some (.intent p.short) := by
  obtain ⟨long, short, -⟩ := findPair_reads found
  exact ⟨long, short⟩

/-- Overwriting the intent of a slot. -/
theorem run_updateIntent {b : IntentBook} {i : ℕ} {node node' : IntentNode} (slot : b.nodes[i]? = some (.intent node)) :
    (IntentBook.updateIntent i fun _ => node').run b = .ok () (b.setNode i (.intent node')) := by
  refine Exec.bind_ok.mpr ⟨node, b, ?_, rfl⟩
  exact Exec.gets_ok.mpr ⟨IntentBook.intent_eq_ok.mpr slot, rfl⟩

/-- Writing back a pair under the ids of its slots. -/
theorem noNewIntents_writePair {b b' : IntentBook} {p : Book.Pair} {long short : IntentNode}
    (slotL : b.nodes[p.longIdx]? = some (.intent long)) (slotS : b.nodes[p.shortIdx]? = some (.intent short))
    (sameL : long.id = p.long.id) (sameS : short.id = p.short.id) (left : b' ∈ ((Book.writePair p).run b).state?) :
    NoNewIntents b b' := by
  have first : NoNewIntents b (b.setNode p.longIdx (.intent p.long)) := noNewIntents_update slotL sameL
  -- The slot of the short still holds an intent of its id, also if it were the slot of the long.
  obtain ⟨between, slot1⟩ : ∃ node, (b.setNode p.longIdx (.intent p.long)).nodes[p.shortIdx]? = some (.intent node) := by
    by_cases here : p.longIdx = p.shortIdx
    · rw [← here]
      exact ⟨_, IntentBook.getElem?_setNode_self (IntentBook.lt_length_of_getElem? slotL)⟩
    · exact ⟨short, by rw [IntentBook.getElem?_setNode_of_ne (Ne.symm here), slotS]⟩
  obtain ⟨before, slot, same⟩ := first _ between slot1
  rw [slotS] at slot
  cases slot
  have second := noNewIntents_update slot1 (same.symm.trans sameS)
  rw [Book.writePair, Exec.run_bind, run_updateIntent slotL, Outcome.bind_ok, Exec.run_bind, run_updateIntent slot1,
    Outcome.bind_ok] at left
  have rest : Exec.Keeping NoNewIntents (do
      Exec.when (p.long.contractsRemaining = 0) (Book.removeIntent SIDE_LONG p.longIdx)
      Exec.when (p.short.contractsRemaining = 0) (Book.removeIntent SIDE_SHORT p.shortIdx)) := inferInstance
  exact IsTrans.trans _ _ _ first (IsTrans.trans _ _ _ second (rest.keeps _ _ left))

instance (substitutor p bucket long short now) :
    Exec.Keeping NoNewIntents (substituteInBook substitutor p bucket long short now) where
  keeps b b' left := by
    have same : b' = b → NoNewIntents b b' := by
      rintro rfl
      exact Std.Refl.refl b'
    rw [substituteInBook] at left
    rcases Exec.left_bind_check left with here | ⟨pair, found, left⟩
    · exact same here
    rcases Exec.left_bind_check left with here | ⟨_, -, left⟩
    · exact same here
    rcases Exec.left_bind_check left with here | ⟨longSeat, -, left⟩
    · exact same here
    rcases Exec.left_bind_check left with here | ⟨shortSeat, -, left⟩
    · exact same here
    rcases Exec.left_bind_check left with here | ⟨_, -, left⟩
    · exact same here
    rcases Exec.left_bind_check left with here | ⟨_, -, left⟩
    · exact same here
    rcases Exec.left_bind_check left with here | ⟨⟨filled, longRelease, shortRelease⟩, consumed, left⟩
    · exact same here
    obtain ⟨slotL, slotS⟩ := findPair_slots found
    obtain ⟨rfl, -⟩ := Book.consume_ok consumed
    have written := fun b' => @noNewIntents_writePair b b'
      { pair with long := pair.long.fill bucket longRelease, short := pair.short.fill bucket shortRelease }
      pair.long pair.short slotL slotS rfl rfl
    dsimp only at left
    rcases Exec.left_bind left with ⟨_, failed⟩ | ⟨_, b1, wrote, left⟩
    · apply written
      rw [failed]
      rfl
    · cases left
      apply written
      rw [wrote]
      rfl

end Polyleverage

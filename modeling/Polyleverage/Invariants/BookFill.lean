import Polyleverage.Invariants.BookOps

/-! # Lookups, batches and fills

The linear scans find exactly what lies in the pool. A batch of removals takes out what it was given,
and a fill writes two orders back and takes out the ones it uses up.
-/

namespace Polyleverage

open RedBlack Machine

variable {b b' : IntentBook} {i : ℕ} {u : Unit}

namespace Book

/-! ### Lookup -/

/-- The scan returns the first slot with the id. -/
theorem findIntentFrom_ok {id side first : ℕ} {nodes : List RawNode} :
    findIntentFrom id first nodes = .ok (i, side) ↔
      ∃ k node, i = first + k ∧ nodes[k]? = some (.intent node) ∧ node.id = id ∧ node.side = side ∧
        ∀ j < k, ∀ other, nodes[j]? = some (.intent other) → other.id ≠ id := by
  induction nodes generalizing first with
  | nil => simp [findIntentFrom]
  | cons raw rest ih =>
    have skip : (∀ node, raw = .intent node → node.id ≠ id) →
        (findIntentFrom id (first + 1) rest = .ok (i, side) ↔
          ∃ k node, i = first + k ∧ (raw :: rest)[k]? = some (.intent node) ∧ node.id = id ∧ node.side = side ∧
            ∀ j < k, ∀ other, (raw :: rest)[j]? = some (.intent other) → other.id ≠ id) := by
      intro head
      rw [ih]
      constructor
      · rintro ⟨k, node, rfl, slot, named, sided, before⟩
        refine ⟨k + 1, node, by omega, by simpa using slot, named, sided, ?_⟩
        intro j below other found
        cases j with
        | zero => exact head other (by simpa using found)
        | succ j => exact before j (by omega) other (by simpa using found)
      · rintro ⟨k, node, rfl, slot, named, sided, before⟩
        cases k with
        | zero => exact absurd named (head node (by simpa using slot))
        | succ k =>
          refine ⟨k, node, by omega, by simpa using slot, named, sided, ?_⟩
          intro j below other found
          exact before (j + 1) (by omega) other (by simpa using found)
    cases raw with
    | free next => exact skip (by simp)
    | seat node => exact skip (by simp)
    | intent node =>
      by_cases named : node.id = id
      · rw [findIntentFrom, if_pos named]
        constructor
        · intro found
          cases found
          exact ⟨0, node, rfl, rfl, named, rfl, by simp⟩
        · rintro ⟨k, other, rfl, slot, named', sided, before⟩
          cases k with
          | zero =>
            cases slot
            rw [sided]
            rfl
          | succ k => exact absurd named (before 0 (Nat.succ_pos k) node rfl)
      · rw [findIntentFrom, if_neg named]
        apply skip
        rintro other ⟨⟩
        exact named

/-- What the scan finds is an intent of this id. -/
theorem intent_of_findIntentById {id side : ℕ} (found : findIntentById b id = .ok (i, side)) :
    ∃ node, b.nodes[i]? = some (.intent node) ∧ node.id = id ∧ node.side = side := by
  obtain ⟨k, node, rfl, slot, named, sided, -⟩ := findIntentFrom_ok.mp found
  rw [Nat.zero_add]
  exact ⟨node, slot, named, sided⟩

/-- In a consistent book the scan finds an id exactly in the slot that holds the one intent with it. -/
theorem findIntentById_ok (consistent : Consistent b) {id side : ℕ} :
    findIntentById b id = .ok (i, side) ↔
      ∃ node, b.nodes[i]? = some (.intent node) ∧ node.id = id ∧ node.side = side := by
  constructor
  · exact intent_of_findIntentById
  · rintro ⟨node, slot, named, sided⟩
    refine findIntentFrom_ok.mpr ⟨i, node, (Nat.zero_add i).symm, slot, named, sided, ?_⟩
    intro j below other found same
    have equal := consistent.orderly.id_inj j i _ _ (IntentBook.order_of_intent found)
      (IntentBook.order_of_intent slot) (same.trans named.symm)
    omega

/-- A scan takes an intent along or passes it over. -/
theorem scanIntents_intent {α : Type} {pick : IntentNode → Bool} {measure : IntentNode → Except ProgramError α}
    {limit first : ℕ} {node : IntentNode} {rest : List RawNode} {work : List (ℕ × IntentNode × α)} :
    scanIntents pick measure (limit + 1) first (.intent node :: rest) = .ok work ↔
      (pick node = true ∧ ∃ a later, measure node = .ok a ∧
        scanIntents pick measure limit (first + 1) rest = .ok later ∧ work = (first, node, a) :: later) ∨
      (pick node = false ∧ scanIntents pick measure (limit + 1) (first + 1) rest = .ok work) := by
  rw [scanIntents]
  by_cases picked : pick node = true
  · rw [if_pos picked]
    cases measured : measure node with
    | error e => simp [picked, bind, Except.bind]
    | ok a =>
      cases found : scanIntents pick measure limit (first + 1) rest with
      | error e => simp [picked, bind, Except.bind]
      | ok later => simp [picked, bind, Except.bind, eq_comm]
  · rw [if_neg picked]
    simp [picked]

/-- What a scan returns lies where it says, was picked, and was measured. No slot occurs twice. -/
theorem scanIntents_ok {α : Type} {pick : IntentNode → Bool} {measure : IntentNode → Except ProgramError α}
    {limit first : ℕ} {nodes : List RawNode} {work : List (ℕ × IntentNode × α)}
    (scanned : scanIntents pick measure limit first nodes = .ok work) :
    (∀ idx node a, (idx, node, a) ∈ work → first ≤ idx ∧ nodes[idx - first]? = some (.intent node) ∧
      pick node = true ∧ measure node = .ok a) ∧ (work.map Prod.fst).Nodup := by
  induction nodes generalizing limit first work with
  | nil =>
    have empty : work = [] := by
      cases limit <;> simp_all [scanIntents]
    subst empty
    simp
  | cons raw rest ih =>
    have skip : ∀ {limit' : ℕ} {more : List (ℕ × IntentNode × α)},
        scanIntents pick measure limit' (first + 1) rest = .ok more →
        (∀ idx node a, (idx, node, a) ∈ more → first + 1 ≤ idx ∧ (raw :: rest)[idx - first]? = some (.intent node) ∧
          pick node = true ∧ measure node = .ok a) ∧ (more.map Prod.fst).Nodup := by
      intro limit' more found
      obtain ⟨all, nodup⟩ := ih found
      refine ⟨fun idx node a member => ?_, nodup⟩
      obtain ⟨low, slot, picked, measured⟩ := all idx node a member
      refine ⟨low, ?_, picked, measured⟩
      rw [show idx - first = idx - (first + 1) + 1 by omega, List.getElem?_cons_succ]
      exact slot
    have weaken : ∀ {limit' : ℕ}, scanIntents pick measure limit' (first + 1) rest = .ok work →
        (∀ idx node a, (idx, node, a) ∈ work → first ≤ idx ∧ (raw :: rest)[idx - first]? = some (.intent node) ∧
          pick node = true ∧ measure node = .ok a) ∧ (work.map Prod.fst).Nodup := by
      intro limit' found
      obtain ⟨all, nodup⟩ := skip found
      exact ⟨fun idx node a member => ⟨by have := (all idx node a member).1; omega, (all idx node a member).2⟩, nodup⟩
    cases limit with
    | zero =>
      cases scanned
      simp
    | succ limit =>
      cases raw with
      | free next => exact weaken scanned
      | seat node => exact weaken scanned
      | intent node =>
        rcases scanIntents_intent.mp scanned with ⟨picked, a, tail, measured, more, rfl⟩ | ⟨-, scanned⟩
        · obtain ⟨all, nodup⟩ := skip more
          constructor
          · intro idx n a' member
            rcases List.mem_cons.mp member with same | member
            · cases same
              exact ⟨le_refl _, by simp, picked, measured⟩
            · obtain ⟨low, rest⟩ := all idx n a' member
              exact ⟨by omega, rest⟩
          · rw [List.map_cons, List.nodup_cons]
            refine ⟨fun member => ?_, nodup⟩
            obtain ⟨⟨idx, n, a'⟩, member', same⟩ := List.mem_map.mp member
            have low := (all idx n a' member').1
            change idx = first at same
            omega
        · exact weaken scanned

/-! ### Batches -/

/-- The intents of a batch lie in the book. -/
def Placed (b : IntentBook) (work : List (ℕ × IntentNode × ℕ)) : Prop :=
  (∀ idx node total, (idx, node, total) ∈ work → b.order idx = some (node.withLinks noLinks) ∧
    node.reservedCollateral + node.feeBuffer = total) ∧ (work.map Prod.fst).Nodup

theorem reservation_ok {node : IntentNode} {total : ℕ} (measured : reservation node = .ok total) :
    node.reservedCollateral + node.feeBuffer = total := by
  unfold reservation orOverflow at measured
  split at measured
  next a found =>
    cases measured
    exact (checkedAdd_eq_some.mp found).2
  · cases measured

theorem placed_of_scan {pick : IntentNode → Bool} {limit : ℕ} {work : List (ℕ × IntentNode × ℕ)}
    (scanned : scanIntents pick reservation limit 0 b.nodes = .ok work) : Placed b work := by
  obtain ⟨all, nodup⟩ := scanIntents_ok scanned
  refine ⟨fun idx node total member => ?_, nodup⟩
  obtain ⟨-, slot, -, measured⟩ := all idx node total member
  exact ⟨IntentBook.order_of_intent slot, reservation_ok measured⟩

/-- The orders without those of a batch. -/
def without (v : BookView) (taken : List ℕ) : BookView :=
  { v with order := fun i => if i ∈ taken then none else v.order i }

theorem without_cons (v : BookView) (idx : ℕ) (taken : List ℕ) :
    without { v with order := Function.update v.order idx none } taken = without v (idx :: taken) := by
  simp only [without, BookView.mk.injEq, and_true]
  funext j
  by_cases here : j = idx
  · simp [here]
  · simp [here]

/-- A batch of intents of one owner is taken out, and what it had reserved is the refund. -/
theorem removeAll_ok {work : List (ℕ × IntentNode × ℕ)} {refund total : ℕ} {b : IntentBook} (tidy : Tidy b)
    (placed : Placed b work) (ran : (removeAll work refund).run b = .ok total b') :
    Tidy b' ∧ b'.view = without b.view (work.map Prod.fst) ∧ total = refund + (work.map fun e => e.2.2).sum := by
  induction work generalizing b refund with
  | nil =>
    cases ran
    exact ⟨tidy, rfl, rfl⟩
  | cons entry rest ih =>
    obtain ⟨idx, node, amount⟩ := entry
    obtain ⟨l, slot⟩ := slot_of_order (placed.1 idx node amount List.mem_cons_self).1
    have nodup := List.nodup_cons.mp placed.2
    obtain ⟨b1, removed, tidy1, view1⟩ := run_removeIntent tidy slot
    have removed' : (removeIntent node.side idx).run b = .ok () b1 := removed
    rw [removeAll, Exec.run_bind_of_ok removed'] at ran
    simp only [Exec.bind_ok, Exec.orErr_ok, checkedAdd_eq_some] at ran
    obtain ⟨_, _, ⟨⟨_, rfl⟩, rfl⟩, ran⟩ := ran
    have order1 : b1.order = Function.update b.order idx none := congrArg BookView.order view1
    have placed1 : Placed b1 rest := by
      refine ⟨fun j n t member => ?_, nodup.2⟩
      obtain ⟨found, sum⟩ := placed.1 j n t (List.mem_cons_of_mem _ member)
      refine ⟨?_, sum⟩
      have other : j ≠ idx := by
        rintro rfl
        exact nodup.1 (List.mem_map.mpr ⟨_, member, rfl⟩)
      rw [order1, Function.update_of_ne other, found]
    obtain ⟨tidy2, view2, sum2⟩ := ih tidy1 placed1 ran
    refine ⟨tidy2, ?_, ?_⟩
    · rw [view2, view1, List.map_cons, ← without_cons]
      rfl
    · rw [sum2, List.map_cons, List.sum_cons, Nat.add_assoc]

/-- A post prunes a batch of its owner's expired intents. -/
theorem pruneOwnExpired_ok {owner : Pubkey} {now refund : ℕ} (tidy : Tidy b)
    (ran : (pruneOwnExpired owner now).run b = .ok refund b') :
    ∃ work, Placed b work ∧ (∀ e ∈ work, b.trader e.2.1.ownerSeat = some owner ∧ e.2.1.expirationSlot ≤ now) ∧ Tidy b' ∧
      b'.view = without b.view (work.map Prod.fst) ∧ refund = (work.map fun e => e.2.2).sum := by
  rw [pruneOwnExpired, Exec.bind_ok] at ran
  obtain ⟨seatIdx, c, found, ran⟩ := ran
  obtain ⟨same, spec⟩ := SeatTree.find_ok found tidy
  rw [same] at ran
  by_cases none : seatIdx = NULL_IDX
  · rw [if_pos none, Exec.pure_ok] at ran
    obtain ⟨rfl, rfl⟩ := ran
    refine ⟨[], ⟨fun _ _ _ member => ?_, List.nodup_nil⟩, fun _ member => ?_, tidy, ?_, rfl⟩
    · cases member
    · cases member
    · simp [without]
  · rw [if_neg none] at ran
    simp only [Exec.bind_ok, Exec.gets_ok, Exec.when_ok, Exec.pure_ok] at ran
    obtain ⟨work, _, ⟨scanned, rfl⟩, total, b1, removed, _, b2, released, rfl, rfl⟩ := ran
    have placed := placed_of_scan scanned
    obtain ⟨tidy1, view1, sum⟩ := removeAll_ok tidy placed removed
    obtain ⟨tidy2, view2⟩ : Tidy b2 ∧ b2.view = b1.view := by
      rcases released with ⟨-, released⟩ | ⟨-, rfl⟩
      · exact releaseSeat_ok tidy1 released
      · exact ⟨tidy1, rfl⟩
    obtain ⟨seat, slot, rfl⟩ : ∃ node, b.nodes[seatIdx]? = some (.seat node) ∧ node.trader = owner := by
      rcases spec with ⟨zero, -⟩ | seated
      · exact absurd zero none
      · exact seated
    refine ⟨work, placed, ?_, tidy2, view2.trans view1, by rw [sum, Nat.zero_add]⟩
    rintro ⟨idx, node, amount⟩ member
    obtain ⟨-, -, picked, -⟩ := (scanIntents_ok scanned).1 idx node amount member
    simp only [isOwnExpired, decide_eq_true_eq] at picked
    obtain ⟨mine, expired, -⟩ := picked
    refine ⟨?_, expired⟩
    change b.trader node.ownerSeat = _
    rw [mine]
    exact IntentBook.trader_of_seat slot

end Book

/-- Orders may leave. -/
theorem orderly_without {v : BookView} (orderly : v.Orderly) (taken : List ℕ) : (Book.without v taken).Orderly := by
  apply BookView.Orderly.mono orderly
  · exact le_refl _
  · exact le_refl _
  · exact fun _ _ seated => seated
  · intro j o placed
    simp only [Book.without] at placed
    split at placed
    · cases placed
    · exact ⟨o, placed, rfl, rfl, rfl⟩

/-- Without a batch the orders weigh so much less. -/
theorem tally_without {v : BookView} (weight : IntentNode → ℕ) {work : List (ℕ × IntentNode × ℕ)}
    (placed : ∀ idx node total, (idx, node, total) ∈ work → idx < v.header.capacity ∧ v.order idx = some (node.withLinks noLinks))
    (nodup : (work.map Prod.fst).Nodup) :
    (Book.without v (work.map Prod.fst)).tally weight + (work.map fun e => weight (e.2.1.withLinks noLinks)).sum =
      v.tally weight := by
  induction work generalizing v with
  | nil => simp [Book.without]
  | cons entry rest ih =>
    obtain ⟨idx, node, amount⟩ := entry
    obtain ⟨inside, here⟩ := placed idx node amount List.mem_cons_self
    have nodup' := List.nodup_cons.mp nodup
    let v1 : BookView := { v with order := Function.update v.order idx none }
    have first := BookView.tally_update weight weight inside (rfl : v1.order = _) rfl
      fun _ _ _ => rfl
    have next := @ih v1 (fun j n a member => by
      obtain ⟨inside', found⟩ := placed j n a (List.mem_cons_of_mem _ member)
      refine ⟨inside', ?_⟩
      have other : j ≠ idx := by
        rintro rfl
        exact nodup'.1 (List.mem_map.mpr ⟨_, member, rfl⟩)
      change Function.update v.order idx none j = _
      rw [Function.update_of_ne other, found]) nodup'.2
    rw [Book.without_cons] at next
    rw [here, Option.elim_some, Option.elim_none] at first
    simp only [List.map_cons, List.sum_cons]
    omega

/-- Without a batch, the trader of the batch has so much less reserved, and everybody else the same. -/
theorem reserved_without {v : BookView} {t : Pubkey} {work : List (ℕ × IntentNode × ℕ)}
    (placed : ∀ idx node total, (idx, node, total) ∈ work → idx < v.header.capacity ∧
      v.order idx = some (node.withLinks noLinks) ∧ node.reservedCollateral + node.feeBuffer = total)
    (nodup : (work.map Prod.fst).Nodup) :
    (Book.without v (work.map Prod.fst)).reserved t +
      (work.map fun e => if v.trader e.2.1.ownerSeat = some t then e.2.2 else 0).sum = v.reserved t := by
  have weights : (work.map fun e => if v.trader e.2.1.ownerSeat = some t then e.2.2 else 0) =
      work.map fun e => v.weigh t (e.2.1.withLinks noLinks) := by
    apply List.map_congr_left
    rintro ⟨idx, node, amount⟩ member
    obtain ⟨-, -, sum⟩ := placed idx node amount member
    rw [BookView.weigh, ← sum]
    rfl
  rw [weights]
  apply tally_without
  · intro idx node amount member
    obtain ⟨inside, here, -⟩ := placed idx node amount member
    exact ⟨inside, here⟩
  · exact nodup

end Polyleverage

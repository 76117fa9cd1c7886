import Polyleverage.Invariants.PositionMoves
import Polyleverage.RedBlack.Unseen

/-! # Taking intents out one by one

An intent that is taken out of the book is refunded to the margin account of its owner. Whether a batch of
intents of one owner tells the seat after each of them, or once at the end, is not seen by the trees.
-/

namespace Polyleverage

open RedBlack Machine

/-! ### The counter of a seat -/

namespace IntentBook

/-- Count fewer intents on the seat at `idx`. -/
def countDown (idx count : ℕ) (b : IntentBook) : IntentBook :=
  match b.nodes[idx]? with
  | some (.seat seat) => b.setNode idx (.seat { seat with activeIntentCount := saturatingSub seat.activeIntentCount count })
  | _ => b

section CountDown

variable {b : IntentBook} {idx i : ℕ}

theorem countDown_of_seat {seat : SeatNode} (slot : b.nodes[idx]? = some (.seat seat)) (count : ℕ) :
    b.countDown idx count =
      b.setNode idx (.seat { seat with activeIntentCount := saturatingSub seat.activeIntentCount count }) := by
  simp only [countDown, slot]

theorem countDown_of_not_seat (other : ∀ seat, b.nodes[idx]? ≠ some (.seat seat)) (count : ℕ) : b.countDown idx count = b := by
  unfold countDown
  split
  next seat slot => exact absurd slot (other seat)
  · rfl

@[simp] theorem header_countDown (count : ℕ) : (b.countDown idx count).header = b.header := by
  unfold countDown
  split <;> rfl

@[simp] theorem length_countDown (count : ℕ) : (b.countDown idx count).nodes.length = b.nodes.length := by
  unfold countDown
  split
  · exact length_setNode _
  · rfl

theorem getElem?_countDown_of_ne (count : ℕ) (other : i ≠ idx) : (b.countDown idx count).nodes[i]? = b.nodes[i]? := by
  unfold countDown
  split
  · exact getElem?_setNode_of_ne other
  · rfl

theorem seat_countDown {seat : SeatNode} (slot : b.nodes[idx]? = some (.seat seat)) (count : ℕ) :
    (b.countDown idx count).nodes[idx]? =
      some (.seat { seat with activeIntentCount := saturatingSub seat.activeIntentCount count }) := by
  rw [countDown_of_seat slot]
  exact getElem?_setNode_self (lt_length_of_getElem? slot)

/-- The intents of the book are the same. -/
theorem slot_countDown {node : IntentNode} (count : ℕ) :
    (b.countDown idx count).nodes[i]? = some (.intent node) ↔ b.nodes[i]? = some (.intent node) := by
  by_cases here : i = idx
  · subst here
    by_cases seated : ∃ seat, b.nodes[i]? = some (.seat seat)
    · obtain ⟨seat, slot⟩ := seated
      simp [seat_countDown slot, slot]
    · rw [not_exists] at seated
      rw [countDown_of_not_seat seated]
  · rw [getElem?_countDown_of_ne count here]

theorem intent_countDown (count i : ℕ) : (b.countDown idx count).intent i = b.intent i := by
  by_cases here : i = idx
  · subst here
    by_cases seated : ∃ seat, b.nodes[i]? = some (.seat seat)
    · obtain ⟨seat, slot⟩ := seated
      simp only [intent, seat_countDown slot, slot]
    · rw [not_exists] at seated
      rw [countDown_of_not_seat seated]
  · simp only [intent, getElem?_countDown_of_ne count here]

theorem countDown_zero (idx : ℕ) (b : IntentBook) : b.countDown idx 0 = b := by
  unfold countDown
  split
  next seat slot => exact setNode_self slot
  · rfl

/-- Counting down twice is counting down by both. -/
theorem countDown_add (idx count more : ℕ) (b : IntentBook) :
    (b.countDown idx count).countDown idx more = b.countDown idx (count + more) := by
  by_cases seated : ∃ seat, b.nodes[idx]? = some (.seat seat)
  · obtain ⟨seat, slot⟩ := seated
    rw [countDown_of_seat (seat_countDown slot count), countDown_of_seat slot, countDown_of_seat slot]
    simp only [setNode, List.set_set, saturatingSub, Nat.sub_sub]
  · rw [not_exists] at seated
    rw [countDown_of_not_seat seated, countDown_of_not_seat seated, countDown_of_not_seat seated]

/-- Another slot may be written before or after. -/
theorem setNode_countDown {raw : RawNode} (other : i ≠ idx) (count : ℕ) :
    (b.countDown idx count).setNode i raw = (b.setNode i raw).countDown idx count := by
  have same : (b.setNode i raw).nodes[idx]? = b.nodes[idx]? := getElem?_setNode_of_ne other.symm
  by_cases seated : ∃ seat, b.nodes[idx]? = some (.seat seat)
  · obtain ⟨seat, found⟩ := seated
    rw [countDown_of_seat found, countDown_of_seat (same.trans found)]
    simp only [setNode, List.set_comm _ _ other.symm]
  · rw [not_exists] at seated
    rw [countDown_of_not_seat seated, countDown_of_not_seat (same ▸ seated)]

/-- The header may be written before or after. -/
theorem withHeader_countDown (h : IntentBookHeader) (count : ℕ) :
    ({ b with header := h } : IntentBook).countDown idx count = { b.countDown idx count with header := h } := by
  by_cases seated : ∃ seat, b.nodes[idx]? = some (.seat seat)
  · obtain ⟨seat, found⟩ := seated
    rw [countDown_of_seat found, countDown_of_seat (b := { b with header := h }) found]
    rfl
  · rw [not_exists] at seated
    rw [countDown_of_not_seat seated, countDown_of_not_seat (b := { b with header := h }) seated]

end CountDown

end IntentBook

section CountDown

open IntentBook

variable {idx count side i : ℕ}

instance : LinkedPool.Unseen (IntentTree.pool side) (countDown idx count) where
  links b := by
    funext i
    change ((b.countDown idx count).intent i).map _ = (b.intent i).map _
    rw [intent_countDown]
  root b := by
    change IntentTree.treeRoot (b.countDown idx count) side = IntentTree.treeRoot b side
    simp only [IntentTree.treeRoot, header_countDown]
  size b := length_countDown count
  setLinks b i l := by
    change IntentTree.setLinks (b.countDown idx count) i l = (IntentTree.setLinks b i l).countDown idx count
    by_cases found : ∃ node, b.nodes[i]? = some (.intent node)
    · obtain ⟨node, slot⟩ := found
      simp only [IntentTree.setLinks, (slot_countDown count).mpr slot, slot]
      by_cases here : i = idx
      · subst here
        have inside := lt_length_of_getElem? slot
        rw [countDown_of_not_seat (by simp [slot]), countDown_of_not_seat (by simp [getElem?_setNode_self inside])]
      · exact setNode_countDown here count
    · rw [not_exists] at found
      have not_intent : ∀ node, (b.countDown idx count).nodes[i]? ≠ some (.intent node) := by
        intro node slot
        exact found node ((slot_countDown count).mp slot)
      have same : ∀ {c : IntentBook}, (∀ node, c.nodes[i]? ≠ some (.intent node)) → IntentTree.setLinks c i l = c := by
        intro c none
        unfold IntentTree.setLinks
        split
        next node slot => exact absurd slot (none node)
        · rfl
      rw [same not_intent, same found]
  setRoot b v := by
    change IntentTree.setTreeRoot (b.countDown idx count) side v = (IntentTree.setTreeRoot b side v).countDown idx count
    unfold IntentTree.setTreeRoot
    rw [header_countDown]
    split
    · exact (withHeader_countDown _ count).symm
    · split
      · exact (withHeader_countDown _ count).symm
      · rfl

/-- A slot of its own may be freed before or after. -/
theorem commutes_freeNode (other : i ≠ idx) : Exec.Commutes (countDown idx count) (IntentBook.freeNode i) where
  run_map b := by
    rw [IntentBook.freeNode, Exec.run_bind_get, Exec.run_bind_get, Exec.run_bind, Exec.run_bind, Exec.run_rejectIf,
      Exec.run_rejectIf, length_countDown, header_countDown]
    split
    · rfl
    · have same : (b.countDown idx count).setNode i (.free b.header.freelistHead) =
          (b.setNode i (.free b.header.freelistHead)).countDown idx count := setNode_countDown other count
      have freed : (b.countDown idx count).nodes.set i (.free b.header.freelistHead) =
          ((b.setNode i (.free b.header.freelistHead)).countDown idx count).nodes := congrArg IntentBook.nodes same
      simp only [Outcome.bind_ok, Exec.run_put, Outcome.mapState_ok, freed]
      rw [← withHeader_countDown]
      rfl

theorem commutes_removeIntent (other : i ≠ idx) : Exec.Commutes (countDown idx count) (Book.removeIntent side i) := by
  have freed : Exec.Commutes (countDown idx count) (IntentBook.freeNode i) := commutes_freeNode other
  exact inferInstanceAs (Exec.Commutes _ ((IntentTree.pool side).remove i >>= fun _ => IntentBook.freeNode i))

end CountDown

/-! ### Batches -/

namespace Book

variable {b b' : IntentBook}

theorem run_releaseSeat {idx : ℕ} {seat : SeatNode} (slot : b.nodes[idx]? = some (.seat seat)) (count : ℕ) :
    (releaseSeat idx count).run b = .ok () (b.countDown idx count) := by
  have read : (Exec.gets fun b : IntentBook => b.seat idx).run b = .ok seat b :=
    Exec.gets_ok.mpr ⟨IntentBook.seat_eq_ok.mpr slot, rfl⟩
  rw [releaseSeat, Exec.run_bind_of_ok read, Exec.run_modify, IntentBook.countDown_of_seat slot]

/-- An intent of a seated owner can be taken out. -/
theorem run_cancel (tidy : Tidy b) {i : ℕ} {o : IntentNode} {trader : Pubkey} (placed : b.order i = some o)
    (seated : b.trader o.ownerSeat = some trader) :
    ∃ b', (cancel o.side i o.ownerSeat).run b = .ok () b' ∧ Tidy b' ∧
      b'.view = { b.view with order := Function.update b.order i none } := by
  obtain ⟨l, slot⟩ := slot_of_order placed
  obtain ⟨b1, removed, tidy1, view1⟩ := run_removeIntent tidy slot
  have trader1 : b1.trader o.ownerSeat = some trader := by
    rw [show b1.trader = _ from congrArg BookView.trader view1]
    exact seated
  obtain ⟨seat, slot1, -⟩ := IntentBook.seat_of_trader trader1
  have ran : (cancel o.side i o.ownerSeat).run b = .ok () (b1.countDown o.ownerSeat 1) := by
    have removed' : (removeIntent o.side i).run b = .ok () b1 := removed
    rw [cancel, Exec.run_bind_of_ok removed', run_releaseSeat slot1]
  exact ⟨_, ran, cancel_ok tidy slot ran⟩

/-- The intents of a batch, one after the other. -/
def cancelEach : List (ℕ × IntentNode × Pubkey × ℕ) → BookM Unit
  | [] => pure ()
  | (idx, node, _) :: work => do
    cancel node.side idx node.ownerSeat
    cancelEach work

theorem run_cancelEach {work : List (ℕ × IntentNode × Pubkey × ℕ)} (tidy : Tidy b) (measured : Measured b work) :
    ∃ b', (cancelEach work).run b = .ok () b' ∧ Tidy b' ∧ b'.view = without b.view (work.map Prod.fst) := by
  induction work generalizing b with
  | nil => exact ⟨b, rfl, tidy, by simp [without]⟩
  | cons entry rest ih =>
    obtain ⟨idx, node, trader, total⟩ := entry
    obtain ⟨placed, seated, -⟩ := measured.1 idx node trader total List.mem_cons_self
    have placed' : b.order idx = some (node.withLinks noLinks) := placed
    obtain ⟨b1, cancelled, tidy1, view1⟩ := run_cancel tidy placed' seated
    have cancelled' : (cancel node.side idx node.ownerSeat).run b = .ok () b1 := cancelled
    obtain ⟨b', ran, tidy', view'⟩ := ih tidy1 (measured.tail view1)
    refine ⟨b', ?_, tidy', ?_⟩
    · rw [cancelEach, Exec.run_bind_of_ok cancelled', ran]
    · rw [view', view1, List.map_cons, ← without_cons]
      rfl

/-- What a batch reserves in all. -/
def released (work : List (ℕ × IntentNode × Pubkey × ℕ)) : ℕ := (work.map fun e => e.2.2.2).sum

/-- The same batch, for one owner. -/
def ofOne (work : List (ℕ × IntentNode × Pubkey × ℕ)) : List (ℕ × IntentNode × ℕ) :=
  work.map fun e => (e.1, e.2.1, e.2.2.2)

/-- A batch of one seat is taken out at once or one by one, and the seat is told at the end or in between. -/
theorem run_removeAll {work : List (ℕ × IntentNode × Pubkey × ℕ)} {seat : ℕ} {owner : Pubkey} (tidy : Tidy b)
    (measured : Measured b work) (mine : ∀ e ∈ work, e.2.1.ownerSeat = seat) (seated : b.trader seat = some owner)
    (refund count : ℕ) :
    ∃ b', Tidy b' ∧ b'.view = without b.view (work.map Prod.fst) ∧
      (∀ total b'', (removeAll (ofOne work) refund).run b = .ok total b'' → b'' = b' ∧ total = refund + released work) ∧
      (refund + released work < 2 ^ 64 → (removeAll (ofOne work) refund).run b = .ok (refund + released work) b') ∧
      (cancelEach work).run (b.countDown seat count) = .ok () (b'.countDown seat (count + work.length)) := by
  induction work generalizing b refund count with
  | nil =>
    refine ⟨b, tidy, by simp [without], ?_, fun _ => rfl, rfl⟩
    rintro total b'' ⟨⟩
    exact ⟨rfl, rfl⟩
  | cons entry rest ih =>
    obtain ⟨idx, node, trader, amount⟩ := entry
    obtain ⟨placed, -, -⟩ := measured.1 idx node trader amount List.mem_cons_self
    have own : node.ownerSeat = seat := mine _ List.mem_cons_self
    obtain ⟨l, slot⟩ := slot_of_order placed
    obtain ⟨b1, removed, tidy1, view1⟩ := run_removeIntent tidy slot
    have removed' : (removeIntent node.side idx).run b = .ok () b1 := removed
    have trader1 : b1.trader seat = some owner := by
      rw [show b1.trader = _ from congrArg BookView.trader view1]
      exact seated
    obtain ⟨b', tidy', view', inverse, forward, each⟩ := ih tidy1 (measured.tail view1)
      (fun e member => mine e (List.mem_cons_of_mem _ member)) trader1 (refund + amount) (count + 1)
    have sum : refund + released ((idx, node, trader, amount) :: rest) = refund + amount + released rest := by
      simp only [released, List.map_cons, List.sum_cons, Nat.add_assoc]
    have unfolded : (removeAll (ofOne ((idx, node, trader, amount) :: rest)) refund).run b =
        ((Exec.orErr (checkedAdd 64 refund amount) PolyleverageError.arithmeticOverflow : BookM ℕ) >>=
          fun refund => removeAll (ofOne rest) refund).run b1 := by
      simp only [ofOne, List.map_cons]
      rw [removeAll, Exec.run_bind_of_ok removed']
    refine ⟨b', tidy', ?_, ?_, ?_, ?_⟩
    · rw [view', view1, List.map_cons, ← without_cons]
      rfl
    · intro total b'' ran
      rw [unfolded, Exec.bind_check] at ran
      obtain ⟨_, added, ran⟩ := ran
      obtain ⟨-, rfl⟩ := checkedAdd_eq_some.mp added
      rw [sum]
      exact inverse total b'' ran
    · intro small
      rw [sum] at small
      have added : checkedAdd 64 refund amount = some (refund + amount) := checkedAdd_eq_some.mpr ⟨by omega, rfl⟩
      rw [unfolded, Exec.run_bind_of_ok (Exec.orErr_ok.mpr ⟨added, rfl⟩), forward small, sum]
    · obtain ⟨sn, slot1, -⟩ := IntentBook.seat_of_trader trader1
      have apart : idx ≠ seat := by
        rintro rfl
        obtain ⟨sn', slot', -⟩ := IntentBook.seat_of_trader seated
        rw [slot] at slot'
        cases slot'
      have commutes : Exec.Commutes (IntentBook.countDown seat count) (removeIntent node.side idx) :=
        commutes_removeIntent apart
      have taken : (removeIntent node.side idx).run (b.countDown seat count) = .ok () (b1.countDown seat count) :=
        commutes.ok removed'
      have told : (cancel node.side idx node.ownerSeat).run (b.countDown seat count) = .ok () (b1.countDown seat (count + 1)) := by
        rw [cancel, Exec.run_bind_of_ok taken, own, run_releaseSeat (IntentBook.seat_countDown slot1 count),
          IntentBook.countDown_add]
      rw [cancelEach, Exec.run_bind_of_ok told, each, List.length_cons, Nat.add_assoc, Nat.add_comm 1]

/-! ### Scanning again -/

section Scans

variable {α β : Type} {pick pick' : IntentNode → Bool} {measure : IntentNode → Except ProgramError α}
  {measure' : IntentNode → Except ProgramError β} {limit more first : ℕ} {nodes : List RawNode}

/-- A scan that could have gone on finds no more with another limit. -/
theorem scanIntents_limit {work : List (ℕ × IntentNode × α)} (scanned : scanIntents pick measure limit first nodes = .ok work)
    (all : nodes.length ≤ limit) (enough : work.length ≤ more) : scanIntents pick measure more first nodes = .ok work := by
  induction nodes generalizing limit more first work with
  | nil =>
    have empty : work = [] := by
      cases limit <;> simp_all [scanIntents]
    subst empty
    cases more <;> rfl
  | cons raw rest ih =>
    rw [List.length_cons] at all
    obtain ⟨limit, rfl⟩ := Nat.exists_eq_add_of_lt (Nat.zero_lt_of_lt all)
    rw [Nat.zero_add] at scanned all
    have below : rest.length ≤ limit := Nat.le_of_succ_le_succ all
    have skip : scanIntents pick measure (limit + 1) (first + 1) rest = .ok work →
        ∀ {more}, work.length ≤ more → scanIntents pick measure more (first + 1) rest = .ok work := by
      intro scanned more enough
      exact ih scanned (Nat.le_succ_of_le below) enough
    have stop : work.length ≤ 0 → work = [] := fun none => List.length_eq_zero_iff.mp (Nat.le_zero.mp none)
    cases raw with
    | free next =>
      cases more with
      | zero => rw [stop enough]; rfl
      | succ more => exact skip scanned enough
    | seat node =>
      cases more with
      | zero => rw [stop enough]; rfl
      | succ more => exact skip scanned enough
    | intent node =>
      rcases scanIntents_intent.mp scanned with ⟨picked, a, later, measured, found, rfl⟩ | ⟨passed, scanned⟩
      · rw [List.length_cons] at enough
        obtain ⟨more, rfl⟩ := Nat.exists_eq_add_of_lt (Nat.zero_lt_of_lt enough)
        rw [Nat.zero_add] at enough ⊢
        exact scanIntents_intent.mpr (.inl ⟨picked, a, later, measured, ih found below (Nat.le_of_succ_le_succ enough), rfl⟩)
      · cases more with
        | zero => rw [stop enough]; rfl
        | succ more => exact scanIntents_intent.mpr (.inr ⟨passed, skip scanned enough⟩)

/-- Scans that pick the same and measure alike find the same. -/
theorem scanIntents_map {f : α → β} {work : List (ℕ × IntentNode × α)} (same : ∀ node, pick' node = pick node)
    (alike : ∀ node a, measure node = .ok a → measure' node = .ok (f a))
    (scanned : scanIntents pick measure limit first nodes = .ok work) :
    scanIntents pick' measure' limit first nodes = .ok (work.map fun e => (e.1, e.2.1, f e.2.2)) := by
  induction nodes generalizing limit first work with
  | nil =>
    have empty : work = [] := by
      cases limit <;> simp_all [scanIntents]
    subst empty
    cases limit <;> rfl
  | cons raw rest ih =>
    cases limit with
    | zero =>
      cases scanned
      rfl
    | succ limit =>
      cases raw with
      | free next => exact ih scanned
      | seat node => exact ih scanned
      | intent node =>
        rcases scanIntents_intent.mp scanned with ⟨picked, a, later, measured, found, rfl⟩ | ⟨passed, scanned⟩
        · exact scanIntents_intent.mpr (.inl ⟨(same node).trans picked, f a, _, alike node a measured, ih found, rfl⟩)
        · exact scanIntents_intent.mpr (.inr ⟨(same node).trans passed, ih scanned⟩)

/-- Where nothing is to be picked, nothing is found. -/
theorem scanIntents_of_none (none : ∀ (j : ℕ) node, nodes[j]? = some (.intent node) → pick node = false) :
    scanIntents pick measure limit first nodes = .ok [] := by
  induction nodes generalizing limit first with
  | nil => cases limit <;> rfl
  | cons raw rest ih =>
    have later : ∀ {limit first}, scanIntents pick measure limit first rest = .ok [] :=
      ih fun j node slot => none (j + 1) node (by rw [List.getElem?_cons_succ, slot])
    cases limit with
    | zero => rfl
    | succ limit =>
      cases raw with
      | free next => exact later
      | seat node => exact later
      | intent node =>
        exact scanIntents_intent.mpr (.inr ⟨none 0 node rfl, later⟩)

/-- A scan that could have gone on has found whatever was to be picked. -/
theorem mem_of_scanIntents {work : List (ℕ × IntentNode × α)} (scanned : scanIntents pick measure limit first nodes = .ok work)
    (all : nodes.length ≤ limit) {j : ℕ} {node : IntentNode} (slot : nodes[j]? = some (.intent node)) (picked : pick node = true) :
    first + j ∈ work.map Prod.fst := by
  induction nodes generalizing limit first work j with
  | nil => cases slot
  | cons raw rest ih =>
    rw [List.length_cons] at all
    obtain ⟨limit, rfl⟩ := Nat.exists_eq_add_of_lt (Nat.zero_lt_of_lt all)
    rw [Nat.zero_add] at scanned all
    have below : rest.length ≤ limit := Nat.le_of_succ_le_succ all
    have skip : ∀ {limit'} {later : List (ℕ × IntentNode × α)}, rest.length ≤ limit' →
        scanIntents pick measure limit' (first + 1) rest = .ok later → j ≠ 0 → first + j ∈ later.map Prod.fst := by
      intro limit' later below found further
      obtain ⟨j, rfl⟩ := Nat.exists_eq_succ_of_ne_zero further
      rw [List.getElem?_cons_succ] at slot
      have member := ih found below slot
      rwa [Nat.add_assoc, Nat.add_comm 1] at member
    have further : (∀ node, raw ≠ .intent node) → j ≠ 0 := by
      rintro other rfl
      exact other node (Option.some.inj slot)
    cases raw with
    | free next => exact skip (Nat.le_succ_of_le below) scanned (further (by simp))
    | seat seat => exact skip (Nat.le_succ_of_le below) scanned (further (by simp))
    | intent other =>
      rcases scanIntents_intent.mp scanned with ⟨-, a, later, -, found, rfl⟩ | ⟨passed, scanned⟩
      · rw [List.map_cons, List.mem_cons]
        by_cases here : j = 0
        · left
          rw [here, Nat.add_zero]
        · right
          exact skip below found here
      · refine skip (Nat.le_succ_of_le below) scanned ?_
        rintro rfl
        cases slot
        rw [picked] at passed
        cases passed

end Scans

/-! ### The batch of a post -/

/-- A trader is found in its seat. -/
theorem run_find (tidy : Tidy b) {seat : ℕ} {owner : Pubkey} (seated : b.trader seat = some owner) :
    (SeatTree.find owner).run b = .ok seat b ∧ seat ≠ NULL_IDX := by
  obtain ⟨orders, seats, chain, laid⟩ := tidy
  obtain ⟨node, slot, rfl⟩ := IntentBook.seat_of_trader seated
  have used := (laid.seat_used slot).1
  have inside := laid.seated seat node slot used
  have key := SeatTree.key_of_seat slot
  obtain ⟨i, found, spec⟩ := laid.seatTree.find node.trader
  rw [SeatTree.find, found]
  rcases spec with ⟨-, absent⟩ | ⟨inside', y, key', same⟩
  · exact absurd (Pubkey.compare_eq_iff.mpr rfl) (absent seat inside node.trader key)
  · obtain rfl := laid.seatTree.key_inj inside inside' key key' same
    exact ⟨rfl, used⟩

/-- A trader has one seat. -/
theorem seat_unique (tidy : Tidy b) {i j : ℕ} {owner : Pubkey} (seated : b.trader i = some owner)
    (seated' : b.trader j = some owner) : i = j := by
  have found := (run_find tidy seated).1
  rw [(run_find tidy seated').1] at found
  cases found
  rfl

/-- An expired intent of this trader that is not used up. -/
def isExpiredOf (b : IntentBook) (owner : Pubkey) (now : ℕ) (node : IntentNode) : Bool :=
  isExpired now node ∧ b.trader node.ownerSeat = some owner

theorem isOwnExpired_eq (tidy : Tidy b) {seat : ℕ} {owner : Pubkey} (seated : b.trader seat = some owner) (now : ℕ)
    (node : IntentNode) : isOwnExpired seat now node = isExpiredOf b owner now node := by
  have mine : node.ownerSeat = seat ↔ b.trader node.ownerSeat = some owner := by
    constructor
    · rintro rfl
      exact seated
    · intro seated'
      exact seat_unique tidy seated' seated
  simp only [isOwnExpired, isExpiredOf, isExpired, mine, decide_eq_decide, decide_eq_true_eq]
  constructor
  · rintro ⟨own, expired, some_left⟩
    exact ⟨⟨some_left, expired⟩, own⟩
  · rintro ⟨⟨some_left, expired⟩, own⟩
    exact ⟨own, expired, some_left⟩

theorem reservation_of_measureExpired {node : IntentNode} {trader : Pubkey} {total : ℕ}
    (measured : measureExpired b node = .ok (trader, total)) : reservation node = .ok total := by
  cases seated : b.seat node.ownerSeat with
  | error e => simp [measureExpired, seated, bind, Except.bind] at measured
  | ok seat =>
    cases reserved : reservation node with
    | error e => simp [measureExpired, seated, reserved, bind, Except.bind] at measured
    | ok amount =>
      simp only [measureExpired, seated, reserved, bind, Except.bind, Except.ok.injEq, Prod.mk.injEq] at measured
      rw [measured.2]

section Own

variable {owner : Pubkey} {now : ℕ} {work : List (ℕ × IntentNode × Pubkey × ℕ)}

/-- What a scan finds of a trader is the trader's. -/
theorem trader_of_scan {limit : ℕ} (scanned : scanIntents (isExpiredOf b owner now) (measureExpired b) limit 0 b.nodes = .ok work)
    {e : ℕ × IntentNode × Pubkey × ℕ} (member : e ∈ work) : b.trader e.2.1.ownerSeat = some owner ∧ e.2.2.1 = owner := by
  obtain ⟨idx, node, trader, total⟩ := e
  obtain ⟨-, -, picked, -⟩ := (scanIntents_ok scanned).1 idx node _ member
  obtain ⟨-, seated, -⟩ := (measured_of_scan scanned).1 idx node trader total member
  have mine : b.trader node.ownerSeat = some owner := by
    simp only [isExpiredOf, decide_eq_true_eq] at picked
    exact picked.2
  refine ⟨mine, ?_⟩
  rw [seated] at mine
  exact Option.some.inj mine

/-- A post that finds no expired intent of its owner prunes nothing. -/
theorem run_pruneOwnExpired_of_none (tidy : Tidy b)
    (none : ∀ (j : ℕ) node, b.nodes[j]? = some (.intent node) → isExpiredOf b owner now node = false) :
    (pruneOwnExpired owner now).run b = .ok 0 b := by
  by_cases seated : ∃ seat, b.trader seat = some owner
  · obtain ⟨seat, seated⟩ := seated
    obtain ⟨found, used⟩ := run_find tidy seated
    have scanned : scanIntents (isOwnExpired seat now) reservation MAX_PRUNES_PER_POST 0 b.nodes = .ok [] :=
      scanIntents_of_none fun j node slot => (isOwnExpired_eq tidy seated now node).trans (none j node slot)
    have read : (Exec.gets fun b : IntentBook =>
        scanIntents (isOwnExpired seat now) reservation MAX_PRUNES_PER_POST 0 b.nodes).run b = .ok [] b :=
      Exec.gets_ok.mpr ⟨scanned, rfl⟩
    rw [pruneOwnExpired, Exec.run_bind_of_ok found, if_neg used, Exec.run_bind_of_ok read]
    rfl
  · have found : (SeatTree.find owner).run b = .ok NULL_IDX b := by
      obtain ⟨orders, seats, chain, laid⟩ := id tidy
      obtain ⟨i, found, -⟩ := laid.seatTree.find owner
      have found' : (SeatTree.find owner).run b = .ok i b := found
      obtain ⟨-, ⟨rfl, -⟩ | ⟨node, slot, rfl⟩⟩ := SeatTree.find_ok found' tidy
      · exact found'
      · exact absurd ⟨i, IntentBook.trader_of_seat slot⟩ seated
    rw [pruneOwnExpired, Exec.run_bind_of_ok found]
    rfl

/-- After the batch no expired intent of the trader is left. -/
theorem none_left (scanned : scanIntents (isExpiredOf b owner now) (measureExpired b) b.nodes.length 0 b.nodes = .ok work)
    (view : b'.view = without b.view (work.map Prod.fst)) {j : ℕ} {node : IntentNode} (slot : b'.nodes[j]? = some (.intent node)) :
    isExpiredOf b' owner now node = false := by
  have placed := IntentBook.order_of_intent slot
  have order : b'.order = (without b.view (work.map Prod.fst)).order := congrArg BookView.order view
  have traders : b'.trader = b.trader := congrArg BookView.trader view
  rw [order] at placed
  simp only [without] at placed
  split at placed
  · cases placed
  next kept =>
    obtain ⟨old, slot', same⟩ := IntentBook.intent_of_order placed
    rw [Bool.eq_false_iff]
    intro picked
    have picked' : isExpiredOf b owner now old = true := by
      have seats := congrArg IntentNode.ownerSeat same
      have slots := congrArg IntentNode.expirationSlot same
      have left := congrArg IntentNode.contractsRemaining same
      simp only [IntentNode.withLinks] at seats slots left
      simp only [isExpiredOf, isExpired, decide_eq_true_eq] at picked ⊢
      rwa [traders, ← seats, ← slots, ← left] at picked
    have member := mem_of_scanIntents scanned le_rfl slot' picked'
    rw [Nat.zero_add] at member
    exact kept member

/-- A post that finds some expired intents of its owner takes them out, as if each was cancelled. -/
theorem run_pruneOwnExpired (tidy : Tidy b)
    (scanned : scanIntents (isExpiredOf b owner now) (measureExpired b) b.nodes.length 0 b.nodes = .ok work)
    (few : work.length ≤ MAX_PRUNES_PER_POST) (some_work : work ≠ []) :
    ∃ b', (cancelEach work).run b = .ok () b' ∧ (pruneOwnExpired owner now).run b' = .ok 0 b' ∧
      (∀ refund b1, (pruneOwnExpired owner now).run b = .ok refund b1 → refund = released work ∧ b1 = b') ∧
      (released work < 2 ^ 64 → (pruneOwnExpired owner now).run b = .ok (released work) b') := by
  obtain ⟨e, member⟩ := List.exists_mem_of_ne_nil work some_work
  have seated := (trader_of_scan scanned member).1
  have measured := measured_of_scan scanned
  obtain ⟨found, used⟩ := run_find tidy seated
  have mine : ∀ e' ∈ work, e'.2.1.ownerSeat = e.2.1.ownerSeat := fun e' member' =>
    seat_unique tidy (trader_of_scan scanned member').1 seated
  have own : scanIntents (isOwnExpired e.2.1.ownerSeat now) reservation MAX_PRUNES_PER_POST 0 b.nodes = .ok (ofOne work) :=
    scanIntents_map (fun node => isOwnExpired_eq tidy seated now node) (fun node a => reservation_of_measureExpired)
      (scanIntents_limit scanned le_rfl few)
  have read : (Exec.gets fun b : IntentBook =>
      scanIntents (isOwnExpired e.2.1.ownerSeat now) reservation MAX_PRUNES_PER_POST 0 b.nodes).run b = .ok (ofOne work) b :=
    Exec.gets_ok.mpr ⟨own, rfl⟩
  have some_own : ofOne work ≠ [] := by
    simpa [ofOne] using some_work
  have counted : (ofOne work).length = work.length := List.length_map _
  have unfolded : (pruneOwnExpired owner now).run b = (do
      let refund ← removeAll (ofOne work) 0
      Exec.when (ofOne work ≠ []) (releaseSeat e.2.1.ownerSeat (ofOne work).length)
      pure refund).run b := by
    rw [pruneOwnExpired, Exec.run_bind_of_ok found, if_neg used, Exec.run_bind_of_ok read]
  obtain ⟨b1, tidy1, view1, inverse, forward, each⟩ := run_removeAll tidy measured mine seated 0 0
  rw [IntentBook.countDown_zero, Nat.zero_add] at each
  rw [Nat.zero_add] at inverse forward
  have seated1 : b1.trader e.2.1.ownerSeat = some owner := by
    rw [show b1.trader = _ from congrArg BookView.trader view1]
    exact seated
  obtain ⟨seat1, slot1, -⟩ := IntentBook.seat_of_trader seated1
  have told : (Exec.when (ofOne work ≠ []) (releaseSeat e.2.1.ownerSeat (ofOne work).length)).run b1 =
      .ok () (b1.countDown e.2.1.ownerSeat work.length) := by
    rw [Exec.run_when, if_pos some_own, run_releaseSeat slot1, counted]
  refine ⟨_, each, ?_, ?_, ?_⟩
  · obtain ⟨b', ran, tidy', view'⟩ := run_cancelEach tidy measured
    rw [each] at ran
    cases ran
    exact run_pruneOwnExpired_of_none tidy' fun j node => none_left scanned view'
  · intro refund b2 ran
    rw [unfolded, Exec.bind_ok] at ran
    obtain ⟨total, b3, removed, ran⟩ := ran
    obtain ⟨rfl, rfl⟩ := inverse total b3 removed
    rw [Exec.run_bind_of_ok told] at ran
    cases ran
    exact ⟨rfl, rfl⟩
  · intro small
    rw [unfolded, Exec.run_bind_of_ok (forward small), Exec.run_bind_of_ok told]
    rfl

end Own

end Book

/-! ### Refunds -/

namespace MarginAccount

variable {m m' : MarginAccount} {u : Unit}

/-- Amounts that are freed one after the other. -/
def freeEach : List ℕ → MarginM Unit
  | [] => pure ()
  | amount :: rest => do
    moveReservedToFree amount
    freeEach rest

/-- Two amounts are freed as one. -/
theorem free_then (first next : ℕ) :
    (moveReservedToFree first >>= fun _ => moveReservedToFree next).run m = .ok u m' ↔
      (moveReservedToFree (first + next)).run m = .ok u m' := by
  have different : Bucket.free ≠ Bucket.reserved := by decide
  simp only [Exec.bind_ok, moveReservedToFree, move_ok different, balance, setBalance]
  constructor
  · rintro ⟨_, _, ⟨enough, small, rfl⟩, enough', small', rfl⟩
    simp only at enough' small'
    refine ⟨by omega, by omega, ?_⟩
    simp only [MarginAccount.mk.injEq, true_and, and_true]
    omega
  · rintro ⟨enough, small, rfl⟩
    refine ⟨(), _, ⟨by omega, by omega, rfl⟩, by simp only; omega, by simp only; omega, ?_⟩
    simp only [MarginAccount.mk.injEq, true_and, and_true]
    omega

/-- Amounts are freed together as one by one. -/
theorem freeEach_ok (amount : ℕ) (rest : List ℕ) :
    (freeEach (amount :: rest)).run m = .ok u m' ↔ (moveReservedToFree (amount + rest.sum)).run m = .ok u m' := by
  induction rest generalizing amount m with
  | nil =>
    rw [freeEach, List.sum_nil, Nat.add_zero, Exec.bind_ok]
    constructor
    · rintro ⟨_, _, freed, done⟩
      cases done
      exact freed
    · intro freed
      exact ⟨(), m', freed, rfl⟩
  | cons next rest ih =>
    rw [List.sum_cons, ← Nat.add_assoc, ← ih (amount + next), freeEach, freeEach]
    constructor
    · intro ran
      rw [Exec.bind_ok] at ran
      obtain ⟨_, m1, first, ran⟩ := ran
      rw [Exec.bind_ok] at ran
      obtain ⟨_, m2, second, ran⟩ := ran
      have both : (moveReservedToFree (amount + next)).run m = .ok () m2 :=
        (free_then amount next).mp (by rw [Exec.run_bind_of_ok first, second])
      rw [freeEach, Exec.run_bind_of_ok both, ran]
    · intro ran
      rw [freeEach, Exec.bind_ok] at ran
      obtain ⟨_, m2, both, ran⟩ := ran
      have apart := (free_then amount next).mpr both
      rw [Exec.bind_ok] at apart
      obtain ⟨_, m1, first, second⟩ := apart
      rw [Exec.run_bind_of_ok first, Exec.run_bind_of_ok second, ran]

end MarginAccount

end Polyleverage

import Polyleverage.Invariants.BookOps
import Polyleverage.Invariants.NodePool

/-! # The seat registry is a map

A trader is given a seat once, and its index denotes the trader from then on. Intents come and go in the
same pool: what is done to them, and to their two trees, leaves the registry as it is.
-/

namespace Polyleverage

open RedBlack

namespace SeatRegistry

/-! ### Runs -/

inductive Op where
  | seat (trader : Pubkey)
  | alloc
  /-- An intent is written into a slot. -/
  | write (idx : ℕ) (node : IntentNode)
  | insert (side idx : ℕ)
  | remove (side idx : ℕ)
  | free (idx : ℕ)

/-- A pool, and the seat that each trader was given first. -/
structure State extends NodePool.PoolState where
  given : Pubkey → Option ℕ

def start (instrument : Pubkey) (capacity bump cachedMaxFeeBps : ℕ) : State :=
  ⟨NodePool.start instrument capacity bump cachedMaxFeeBps, fun _ => none⟩

/-- One operation. Where one fails, the writes that it made before stay. -/
def step (s : State) : Op → State
  | .seat trader =>
    match (SeatTree.findOrCreate trader).run s.book with
    | .ok i b => ⟨⟨b, Insert.insert i s.allocated⟩, Function.update s.given trader (some ((s.given trader).getD i))⟩
    | failed => { s with book := failed.state?.getD s.book }
  | .alloc => { s with toPoolState := NodePool.step s.toPoolState .alloc }
  | .write idx node => { s with toPoolState := NodePool.step s.toPoolState (.write idx (.intent node)) }
  | .insert side idx => { s with book := ((IntentTree.insert side idx).run s.book).state?.getD s.book }
  | .remove side idx => { s with book := ((IntentTree.remove side idx).run s.book).state?.getD s.book }
  | .free idx => { s with toPoolState := NodePool.step s.toPoolState (.free idx) }

/-- A slot that was handed out, and not for a seat. -/
def Own (s : State) (idx : ℕ) : Prop := idx ∈ s.allocated ∧ ∀ t, s.given t ≠ some idx

/-- Intents are written into slots that were handed out for them, and only these are freed. -/
def Legal (s : State) : Op → Prop
  | .write idx _ => Own s idx
  | .free idx => Own s idx
  | _ => True

inductive Run (s0 : State) : State → Prop where
  | start : Run s0 s0
  | step {s : State} (op : Op) : Run s0 s → Legal s op → Run s0 (step s op)

/-! ### The invariant -/

/-- The seat tree holds the seats that were given, each of its trader. The pool never grew. -/
structure Registered (capacity : ℕ) (s : State) (chain : List ℕ) (w : RedBlack.Tree ℕ) : Prop where
  acc : NodePool.Accounted capacity s.toPoolState chain
  ungrown : s.book.header.capacity = capacity
  valid : SeatTree.pool.Valid s.book w
  handed : ∀ i ∈ w.toList, i ∈ s.allocated
  given_iff : ∀ t i, s.given t = some i ↔ i ∈ w.toList ∧ s.book.trader i = some t

section Registered

variable {capacity : ℕ} {s : State} {chain : List ℕ} {w : RedBlack.Tree ℕ} {t : Pubkey} {i : ℕ}

theorem Registered.seat (reg : Registered capacity s chain w) (given : s.given t = some i) :
    ∃ node, s.book.nodes[i]? = some (.seat node) ∧ node.trader = t :=
  IntentBook.seat_of_trader ((reg.given_iff t i).mp given).2

/-- Every node of the tree is the seat of a trader. -/
theorem Registered.given_of_mem (reg : Registered capacity s chain w) (member : i ∈ w.toList) :
    ∃ t, s.given t = some i := by
  obtain ⟨node, slot⟩ := SeatTree.seat_of_mem reg.valid member
  exact ⟨node.trader, (reg.given_iff _ i).mpr ⟨member, IntentBook.trader_of_seat slot⟩⟩

theorem Registered.mem_iff (reg : Registered capacity s chain w) : i ∈ w.toList ↔ ∃ t, s.given t = some i := by
  constructor
  · exact reg.given_of_mem
  · rintro ⟨t, given⟩
    exact ((reg.given_iff t i).mp given).1

theorem Registered.ne_null (reg : Registered capacity s chain w) (given : s.given t = some i) : i ≠ NULL_IDX := by
  have handed := reg.handed i ((reg.given_iff t i).mp given).1
  exact Nat.one_le_iff_ne_zero.mp (reg.acc.lt_capacity handed).1

theorem Registered.injective (reg : Registered capacity s chain w) {t' : Pubkey} (given : s.given t = some i)
    (given' : s.given t' = some i) : t = t' := by
  have seated := ((reg.given_iff t i).mp given).2
  have seated' := ((reg.given_iff t' i).mp given').2
  exact Option.some.inj (seated.symm.trans seated')

/-- A slot of somebody else's is not in the tree. -/
theorem Registered.out (reg : Registered capacity s chain w) (own : Own s i) : i ∉ w.toList := by
  intro member
  obtain ⟨t, given⟩ := reg.given_of_mem member
  exact own.2 t given

/-- A lookup finds the seat that the trader was given. -/
theorem Registered.find (reg : Registered capacity s chain w) (t : Pubkey) :
    (SeatTree.find t).run s.book = .ok ((s.given t).getD NULL_IDX) s.book := by
  obtain ⟨j, ran, ⟨zero, absent⟩ | ⟨member, y, known, equal⟩⟩ := reg.valid.find t
  · have never : s.given t = none := by
      by_contra some
      obtain ⟨i, given⟩ := Option.ne_none_iff_exists'.mp some
      obtain ⟨node, slot, trader⟩ := reg.seat given
      have member := ((reg.given_iff t i).mp given).1
      exact absent i member node.trader (SeatTree.key_of_seat slot) (Pubkey.compare_eq_iff.mpr trader.symm)
    rw [never]
    exact ran.trans (congrArg (Outcome.ok · s.book) zero)
  · obtain ⟨node, slot⟩ := SeatTree.seat_of_mem reg.valid member
    rw [SeatTree.key_of_seat slot] at known
    cases known
    have trader : s.book.trader j = some t := by
      rw [IntentBook.trader_of_seat slot, Pubkey.compare_eq_iff.mp equal]
    rw [(reg.given_iff t j).mpr ⟨member, trader⟩]
    exact ran

end Registered

/-! ### What the other operations leave alone -/

section Steps

variable {capacity : ℕ} {s : State} {chain : List ℕ} {w : RedBlack.Tree ℕ}

/-- The accounting of the pool does not look at the links of its nodes. -/
theorem accounted_of_bare {p : NodePool.PoolState} {b : IntentBook} (acc : NodePool.Accounted capacity p chain)
    (bare : b.bare = p.book.bare) (head : b.header.freelistHead = p.book.header.freelistHead)
    (free : ∀ (i next : ℕ), p.book.nodes[i]? = some (.free next) → b.nodes[i]? = p.book.nodes[i]?) :
    NodePool.Accounted capacity ⟨b, p.allocated⟩ chain := by
  have length := IntentBook.length_of_bare bare
  have grown := IntentBook.capacity_of_bare bare
  have count := IntentBook.nodeCount_of_bare bare
  constructor
  · change FreeChain b.nodes b.header.freelistHead chain
    rw [head]
    apply acc.linked.congr
    intro i member
    obtain ⟨next, slot⟩ := acc.linked.free member
    exact free i next slot
  · exact acc.nodup
  · exact acc.apart
  · exact length.trans (acc.length.trans grown.symm)
  · exact lt_of_eq_of_lt grown acc.capacity_lt
  · exact le_of_le_of_eq acc.capacity_le grown.symm
  · exact le_of_le_of_eq acc.one_le count.symm
  · exact le_of_eq_of_le count acc.nodeCount_le
  · intro i
    have used := acc.used i
    simp only [NodePool.Used, grown, count] at used ⊢
    exact used

/-- A pool that never grew hands out a slot that was not handed out, or says that it is full. -/
theorem alloc_cases (acc : NodePool.Accounted capacity s.toPoolState chain) (ungrown : s.book.header.capacity = capacity) :
    (∃ i b, IntentBook.allocNode.run s.book = .ok i b ∧ i ∉ s.allocated ∧ b.nodes = s.book.nodes ∧
      b.header.capacity = s.book.header.capacity ∧ b.header.seatTreeRoot = s.book.header.seatTreeRoot) ∨
    IntentBook.allocNode.run s.book = .err PolyleverageError.intentBookFull s.book := by
  have spares : NodePool.Spares capacity s.toPoolState .alloc := .inl (ungrown.trans_le (Nat.le_max_left capacity 1))
  have promised := ((NodePool.stepOk_alloc_iff acc).mpr spares).1
  cases chain with
  | cons i rest =>
    obtain ⟨next, -, ran⟩ := NodePool.run_alloc_chain acc
    exact .inl ⟨_, _, ran, (promised _ _ ran).2.2, rfl, rfl, rfl⟩
  | nil =>
    by_cases room : s.book.header.nodeCount < s.book.header.capacity
    · have ran := NodePool.run_alloc_fresh acc room
      exact .inl ⟨_, _, ran, (promised _ _ ran).2.2, rfl, rfl, rfl⟩
    · exact .inr (NodePool.run_alloc_full acc (Nat.le_of_not_lt room))

/-- The registry stays what it is when the pool keeps the seats and the root of their tree. -/
theorem Registered.frame (reg : Registered capacity s chain w) {p : NodePool.PoolState} {chain' : List ℕ}
    (acc : NodePool.Accounted capacity p chain') (grown : p.book.header.capacity = s.book.header.capacity)
    (root : p.book.header.seatTreeRoot = s.book.header.seatTreeRoot)
    (seats : ∀ i ∈ w.toList, p.book.nodes[i]? = s.book.nodes[i]?) (handed : ∀ i ∈ w.toList, i ∈ p.allocated) :
    Registered capacity { s with toPoolState := p } chain' w := by
  constructor
  · exact acc
  · exact grown.trans reg.ungrown
  · apply SeatTree.valid_frame reg.valid
    · intro j member node slot
      exact ⟨node, (seats j member).trans slot, rfl, rfl⟩
    · exact root
  · exact handed
  · intro t i
    rw [reg.given_iff t i]
    apply and_congr_right
    intro member
    rw [IntentBook.trader, IntentBook.trader, seats i member]

theorem Registered.alloc (reg : Registered capacity s chain w) :
    ∃ chain', Registered capacity (step s .alloc) chain' w := by
  have spares : NodePool.Spares capacity s.toPoolState .alloc :=
    .inl (reg.ungrown.trans_le (Nat.le_max_left capacity 1))
  obtain ⟨chain', acc⟩ := NodePool.accounted_alloc reg.acc spares
  refine ⟨chain', reg.frame acc ?_ ?_ ?_ ?_⟩
  all_goals
    simp only [NodePool.step]
    obtain ⟨i, b, ran, -, nodes, grown, root⟩ | full := alloc_cases reg.acc reg.ungrown
  · simp only [ran, grown]
  · simp only [full]
  · simp only [ran, root]
  · simp only [full]
  · simp [ran, nodes]
  · simp [full]
  · simp only [ran]
    exact fun j member => Finset.mem_insert_of_mem (reg.handed j member)
  · simp only [full]
    exact reg.handed

theorem Registered.write (reg : Registered capacity s chain w) {idx : ℕ} (node : IntentNode) (own : Own s idx) :
    Registered capacity (step s (.write idx node)) chain w := by
  have out := reg.out own
  apply reg.frame (NodePool.accounted_write reg.acc _ own.1)
  · rfl
  · rfl
  · intro j member
    exact IntentBook.getElem?_setNode_of_ne (ne_of_mem_of_not_mem member out)
  · exact reg.handed

theorem Registered.free (reg : Registered capacity s chain w) {idx : ℕ} (own : Own s idx) :
    ∃ chain', Registered capacity (step s (.free idx)) chain' w := by
  have out := reg.out own
  obtain ⟨chain', acc⟩ := NodePool.accounted_free reg.acc own.1
  obtain ⟨low, high⟩ := reg.acc.lt_capacity own.1
  have accepted : ¬ (idx = NULL_IDX ∨ s.book.nodes.length ≤ idx) := by
    rintro (zero | outside)
    · exact Nat.one_le_iff_ne_zero.mp low zero
    · exact Nat.not_lt.mpr (reg.acc.length ▸ outside) high
  have ran : (IntentBook.freeNode idx).run s.book = .ok ()
      { header := { s.book.header with freelistHead := idx }
        nodes := s.book.nodes.set idx (.free s.book.header.freelistHead) } := by
    rw [IntentBook.freeNode, Exec.run_bind_get, Exec.run_bind_of_ok (a := ()) (Exec.rejectIf_ok.mpr ⟨accepted, rfl⟩)]
    rfl
  refine ⟨chain', reg.frame acc ?_ ?_ ?_ ?_⟩
  all_goals simp only [NodePool.step, ran]
  · intro j member
    exact List.getElem?_set_ne (ne_of_mem_of_not_mem member out).symm
  · intro j member
    exact Finset.mem_erase.mpr ⟨ne_of_mem_of_not_mem member out, reg.handed j member⟩

/-- Work on a tree of intents, however it ends. -/
theorem Registered.sameButTree (reg : Registered capacity s chain w) {side : ℕ} {b : IntentBook}
    (same : SameButTree side s.book b) : Registered capacity { s with book := b } chain w := by
  have acc : NodePool.Accounted capacity ⟨b, s.allocated⟩ chain := by
    apply accounted_of_bare reg.acc same.bare same.freelistHead
    intro i next slot
    exact same.notIntent i (by simp [slot])
  apply reg.frame acc
  · exact IntentBook.capacity_of_bare same.bare
  · exact same.seatTreeRoot
  · intro j member
    obtain ⟨node, slot⟩ := SeatTree.seat_of_mem reg.valid member
    exact same.notIntent j (by simp [slot])
  · exact reg.handed

/-- A program that only works on a tree of intents leaves the registry as it is, however it ends. -/
theorem Registered.relinked (reg : Registered capacity s chain w) {side : ℕ} {m : BookM Unit}
    (keeps : Exec.Keeps (IntentTree.pool side).Relinked m) :
    Registered capacity { s with book := (m.run s.book).state?.getD s.book } chain w := by
  cases left : (m.run s.book).state? with
  | none => exact reg
  | some b => exact reg.sameButTree (sameButTree_of_relinked (keeps s.book b left))

/-! ### Seats -/

/-- A seat that is given again changes nothing. -/
theorem Registered.seat_again (reg : Registered capacity s chain w) {t : Pubkey} {i : ℕ} (given : s.given t = some i) :
    (SeatTree.findOrCreate t).run s.book = .ok i s.book ∧ step s (.seat t) = s := by
  have found := reg.find t
  rw [given, Option.getD_some] at found
  have ran : (SeatTree.findOrCreate t).run s.book = .ok i s.book := by
    rw [SeatTree.findOrCreate, Exec.run_bind_of_ok found, if_pos (reg.ne_null given)]
    rfl
  refine ⟨ran, ?_⟩
  have handed : Insert.insert i s.allocated = s.allocated :=
    Finset.insert_eq_of_mem (reg.handed i ((reg.given_iff t i).mp given).1)
  have same : Function.update s.given t (some ((s.given t).getD i)) = s.given := by
    apply Function.update_eq_self_iff.mpr
    rw [given, Option.getD_some]
  simp only [step, ran, handed, same]

/-- The map of the seats that are given, when a new seat joins the tree. -/
theorem Registered.given_iff_update (reg : Registered capacity s chain w) {t : Pubkey} (never : s.given t = none) {i : ℕ}
    (outside : i ∉ w.toList) {b : IntentBook} (trader : b.trader = Function.update s.book.trader i (some t)) {w' : RedBlack.Tree ℕ}
    (mem : ∀ j, j ∈ w'.toList ↔ j = i ∨ j ∈ w.toList) (t' : Pubkey) (j : ℕ) :
    Function.update s.given t (some i) t' = some j ↔ j ∈ w'.toList ∧ b.trader j = some t' := by
  have elsewhere : j ∈ w.toList → b.trader j = s.book.trader j := by
    intro old
    rw [trader, Function.update_of_ne (ne_of_mem_of_not_mem old outside)]
  have here : b.trader i = some t := by rw [trader, Function.update_self]
  rw [mem]
  by_cases own : t' = t
  · subst own
    rw [Function.update_self]
    constructor
    · rintro ⟨rfl⟩
      exact ⟨.inl rfl, here⟩
    · rintro ⟨rfl | old, seated⟩
      · rfl
      · rw [elsewhere old] at seated
        rw [(reg.given_iff t' j).mpr ⟨old, seated⟩] at never
        cases never
  · rw [Function.update_of_ne own, reg.given_iff t' j]
    constructor
    · rintro ⟨old, seated⟩
      exact ⟨.inr old, (elsewhere old).trans seated⟩
    · rintro ⟨rfl | old, seated⟩
      · rw [here] at seated
        exact absurd (Option.some.inj seated).symm own
      · exact ⟨old, (elsewhere old).symm.trans seated⟩

/-- A seat that is given for the first time: the allocated slot goes into the tree. -/
theorem Registered.seat_new (reg : Registered capacity s chain w) {t : Pubkey} (never : s.given t = none) {i : ℕ}
    {b : IntentBook} (allocated : IntentBook.allocNode.run s.book = .ok i b) (out : i ∉ s.allocated)
    (nodes : b.nodes = s.book.nodes) (grown : b.header.capacity = s.book.header.capacity)
    (root : b.header.seatTreeRoot = s.book.header.seatTreeRoot) :
    ∃ b', (SeatTree.findOrCreate t).run s.book = .ok i b' ∧
      ∃ chain' w', Registered capacity ⟨⟨b', Insert.insert i s.allocated⟩, Function.update s.given t (some i)⟩ chain' w' := by
  have spares : NodePool.Spares capacity s.toPoolState .alloc :=
    .inl (reg.ungrown.trans_le (Nat.le_max_left capacity 1))
  obtain ⟨chain', acc⟩ := NodePool.accounted_alloc reg.acc spares
  simp only [NodePool.step, allocated] at acc
  have mine : i ∈ Insert.insert i s.allocated := Finset.mem_insert_self i s.allocated
  obtain ⟨low, high⟩ := acc.lt_capacity mine
  have inside : i < b.nodes.length := lt_of_lt_of_eq high acc.length.symm
  have outside : i ∉ w.toList := fun member => out (reg.handed i member)
  -- The node as it is written, before it is linked.
  let written := b.setNode i (.seat (SeatTree.freshSeat t))
  have slot : written.nodes[i]? = some (.seat (SeatTree.freshSeat t)) := IntentBook.getElem?_setNode_self inside
  have valid : SeatTree.pool.Valid written w := by
    apply SeatTree.valid_frame reg.valid
    · intro j member node found
      refine ⟨node, ?_, rfl, rfl⟩
      rw [IntentBook.getElem?_setNode_of_ne (ne_of_mem_of_not_mem member outside), nodes, found]
    · exact root
  have new : ∀ j ∈ w.toList, ∀ y, SeatTree.pool.key written j = .ok y → SeatTree.pool.order t y ≠ .eq := by
    intro j member y known equal
    obtain ⟨node, found⟩ := SeatTree.seat_of_mem valid member
    rw [SeatTree.key_of_seat found] at known
    cases known
    rw [IntentBook.getElem?_setNode_of_ne (ne_of_mem_of_not_mem member outside), nodes] at found
    have trader : s.book.trader j = some t := by
      rw [IntentBook.trader_of_seat found, ← Pubkey.compare_eq_iff.mp equal]
    rw [(reg.given_iff t j).mpr ⟨member, trader⟩] at never
    cases never
  obtain ⟨b', w', ran, valid', relinked, mem, -⟩ := valid.insert (Nat.one_le_iff_ne_zero.mp low)
    (SeatTree.links_of_seat slot) (SeatTree.key_of_seat slot) outside new
  have same := sameButSeats_of_relinked relinked
  have trader : b'.trader = Function.update s.book.trader i (some t) := by
    have view := IntentBook.view_of_bare same.bare
    rw [IntentBook.view_setNode inside] at view
    have here : b'.trader = Function.update b.trader i (some t) := congrArg BookView.trader view
    rw [here]
    congr 1
    funext j
    rw [IntentBook.trader, IntentBook.trader, nodes]
  refine ⟨b', ?_, chain', w', ?_⟩
  · have found := reg.find t
    rw [never, Option.getD_none] at found
    rw [SeatTree.findOrCreate, Exec.run_bind_of_ok found, if_neg (by simp), Exec.run_bind_of_ok allocated]
    have wrote : (IntentBook.writeSeat i (SeatTree.freshSeat t)).run b = .ok () written := by
      rw [IntentBook.writeSeat, Exec.run_bind_get,
        Exec.run_bind_of_ok (a := ()) (Exec.rejectIf_ok.mpr ⟨Nat.not_le.mpr inside, rfl⟩)]
      rfl
    have linked : (SeatTree.insert i).run written = .ok () b' := ran
    rw [Exec.run_bind_of_ok wrote, Exec.run_bind_of_ok linked]
    rfl
  · constructor
    · apply accounted_of_bare (NodePool.accounted_write acc (.seat (SeatTree.freshSeat t)) mine) same.bare
        same.freelistHead
      intro j next found
      have free : written.nodes[j]? = some (.free next) := found
      exact same.notSeat j (by simp [free])
    · have kept : b'.header.capacity = written.header.capacity := IntentBook.capacity_of_bare same.bare
      exact kept.trans (grown.trans reg.ungrown)
    · exact valid'
    · intro j member
      rcases (mem j).mp member with rfl | old
      · exact mine
      · exact Finset.mem_insert_of_mem (reg.handed j old)
    · exact reg.given_iff_update never outside trader mem

/-- A trader is given the seat it was given first, or a new one, or is told that the book is full. -/
theorem Registered.seat_cases (reg : Registered capacity s chain w) (t : Pubkey) :
    (∃ i, s.given t = some i ∧ (SeatTree.findOrCreate t).run s.book = .ok i s.book ∧ step s (.seat t) = s) ∨
    (∃ i b chain' w', s.given t = none ∧ (SeatTree.findOrCreate t).run s.book = .ok i b ∧
      Registered capacity ⟨⟨b, Insert.insert i s.allocated⟩, Function.update s.given t (some i)⟩ chain' w') ∨
    (SeatTree.findOrCreate t).run s.book = .err PolyleverageError.intentBookFull s.book := by
  cases given : s.given t with
  | some i => exact .inl ⟨i, rfl, reg.seat_again given⟩
  | none =>
    right
    obtain ⟨i, b, allocated, out, nodes, grown, root⟩ | full := alloc_cases reg.acc reg.ungrown
    · left
      obtain ⟨b', ran, chain', w', reg'⟩ := reg.seat_new given allocated out nodes grown root
      exact ⟨i, b', chain', w', rfl, ran, reg'⟩
    · right
      have found := reg.find t
      rw [given, Option.getD_none] at found
      rw [SeatTree.findOrCreate, Exec.run_bind_of_ok found, if_neg (by simp), Exec.run_bind, full]
      rfl

theorem Registered.seat_step (reg : Registered capacity s chain w) (t : Pubkey) :
    ∃ chain' w', Registered capacity (step s (.seat t)) chain' w' := by
  obtain ⟨i, -, -, same⟩ | ⟨i, b, chain', w', never, ran, reg'⟩ | full := reg.seat_cases t
  · rw [same]
    exact ⟨chain, w, reg⟩
  · refine ⟨chain', w', ?_⟩
    simp only [step, ran, never, Option.getD_none]
    exact reg'
  · refine ⟨chain, w, ?_⟩
    simp only [step, full]
    exact reg

/-- A seat that was given is not taken back. -/
theorem given_step (op : Op) {t : Pubkey} {i : ℕ} (given : s.given t = some i) : (step s op).given t = some i := by
  cases op with
  | seat trader =>
    simp only [step]
    split
    · by_cases own : t = trader
      · subst own
        rw [given, Option.getD_some]
        exact Function.update_self ..
      · rw [← given]
        exact Function.update_of_ne own ..
    · exact given
  | _ => exact given

end Steps

/-! ### Whole runs -/

section Runs

variable {capacity : ℕ} {s s' : State}

theorem registered_start {instrument : Pubkey} {bump cachedMaxFeeBps : ℕ} (fits : capacity < 2 ^ 32) :
    Registered capacity (start instrument capacity bump cachedMaxFeeBps) [] .leaf where
  acc := NodePool.accounted_start fits
  ungrown := rfl
  valid := LinkedPool.valid_leaf rfl
  handed i member := by cases member
  given_iff t i := by
    constructor
    · rintro ⟨⟩
    · rintro ⟨⟨⟩, -⟩

theorem registered_step {chain : List ℕ} {w : RedBlack.Tree ℕ} (reg : Registered capacity s chain w) {op : Op} (legal : Legal s op) :
    ∃ chain' w', Registered capacity (step s op) chain' w' := by
  cases op with
  | seat trader => exact reg.seat_step trader
  | alloc =>
    obtain ⟨chain', reg'⟩ := reg.alloc
    exact ⟨chain', w, reg'⟩
  | write idx node => exact ⟨chain, w, reg.write node legal⟩
  | insert side idx => exact ⟨chain, w, reg.relinked (LinkedPool.keeps_insert idx)⟩
  | remove side idx => exact ⟨chain, w, reg.relinked (LinkedPool.keeps_remove idx)⟩
  | free idx =>
    obtain ⟨chain', reg'⟩ := reg.free legal
    exact ⟨chain', w, reg'⟩

theorem registered_run {chain : List ℕ} {w : RedBlack.Tree ℕ} (reg : Registered capacity s chain w) (run : Run s s') :
    ∃ chain' w', Registered capacity s' chain' w' := by
  induction run with
  | start => exact ⟨chain, w, reg⟩
  | step op _ legal ih =>
    obtain ⟨chain', w', reg'⟩ := ih
    exact registered_step reg' legal

theorem given_run (run : Run s s') {t : Pubkey} {i : ℕ} (given : s.given t = some i) : s'.given t = some i := by
  induction run with
  | start => exact given
  | step op _ _ ih => exact given_step op ih

/-- The registry is a map from traders to seats: its tree holds the seats that were given, a lookup returns
the seat given first, no two traders share one, and a seat denotes its trader for as long as the run goes on.
The only failure is that of a full book. -/
theorem seat_registry_faithful {instrument : Pubkey} {bump cachedMaxFeeBps : ℕ} (fits : capacity < 2 ^ 32)
    (run : Run (start instrument capacity bump cachedMaxFeeBps) s) :
    (∃ w, SeatTree.pool.Valid s.book w ∧ ∀ i, i ∈ w.toList ↔ ∃ t, s.given t = some i) ∧
    (∀ t, (SeatTree.find t).run s.book = .ok ((s.given t).getD NULL_IDX) s.book ∧ s.given t ≠ some NULL_IDX) ∧
    (∀ t t' i, s.given t = some i → s.given t' = some i → t = t') ∧
    (∀ t i s', s.given t = some i → Run s s' → s'.given t = some i ∧ s'.book.trader i = some t) ∧
    (∀ t, (∃ i b, (SeatTree.findOrCreate t).run s.book = .ok i b ∧ ∀ j, s.given t = some j → i = j) ∨
      (SeatTree.findOrCreate t).run s.book = .err PolyleverageError.intentBookFull s.book) := by
  obtain ⟨chain, w, reg⟩ := registered_run (registered_start fits) run
  refine ⟨⟨w, reg.valid, fun i => reg.mem_iff⟩, fun t => ⟨reg.find t, fun given => reg.ne_null given rfl⟩,
    fun t t' i given given' => reg.injective given given', fun t i s' given later => ?_, fun t => ?_⟩
  · obtain ⟨chain', w', reg'⟩ := registered_run reg later
    have given' := given_run later given
    exact ⟨given', ((reg'.given_iff t i).mp given').2⟩
  · obtain ⟨i, given, ran, -⟩ | ⟨i, b, -, -, never, ran, -⟩ | full := reg.seat_cases t
    · left
      refine ⟨i, s.book, ran, ?_⟩
      rw [given]
      rintro j ⟨rfl⟩
      rfl
    · left
      refine ⟨i, b, ran, ?_⟩
      rw [never]
      rintro j ⟨⟩
    · exact .inr full

/-- A slot that was just handed out is nobody's seat. -/
theorem own_alloc {chain : List ℕ} {w : RedBlack.Tree ℕ} (reg : Registered capacity s chain w) {i : ℕ} {b : IntentBook}
    (allocated : IntentBook.allocNode.run s.book = .ok i b) : Own (step s .alloc) i := by
  obtain ⟨i', b', ran, out, -⟩ | full := alloc_cases reg.acc reg.ungrown
  · rw [allocated] at ran
    cases ran
    constructor
    · simp only [step, NodePool.step, allocated]
      exact Finset.mem_insert_self i s.allocated
    · intro t given
      exact out (reg.handed i ((reg.given_iff t i).mp given).1)
  · rw [allocated] at full
    cases full

end Runs

/-- An order to buy one contract. -/
def placed (priceFp : ℕ) : IntentNode :=
  { side := SIDE_LONG, color := .red, flags := 0, left := NULL_IDX, right := NULL_IDX, parent := NULL_IDX
    priceFp, id := 1, ownerSeat := 1, contractsTotal := 1, contractsRemaining := 1, expirationSlot := 10
    postSeq := 1, reservedCollateral := 1, feeBuffer := 0 }

/-- A seat, and a slot for an intent. -/
def seated : State := step (step (start default 5 255 0) (.seat ⟨7⟩)) .alloc

/-- The intent comes and goes, and a second seat takes its slot. -/
def shared : State :=
  step (step (step (step (step seated (.write 2 (placed 600000))) (.insert SIDE_LONG 2)) (.remove SIDE_LONG 2)) (.free 2))
    (.seat ⟨3⟩)

theorem shared_run : Run (start default 5 255 0) shared := by
  have first : Run (start default 5 255 0) (step (start default 5 255 0) (.seat ⟨7⟩)) := .step _ .start trivial
  obtain ⟨chain, w, reg⟩ := registered_run (registered_start (by decide)) first
  have own : Own seated 2 := own_alloc reg rfl
  apply Run.step (.seat ⟨3⟩)
  · apply Run.step (.free 2)
    · apply Run.step (.remove SIDE_LONG 2)
      · apply Run.step (.insert SIDE_LONG 2)
        · apply Run.step (.write 2 (placed 600000))
          · exact .step .alloc first trivial
          · exact own
        · trivial
      · trivial
    · exact own
  · trivial

theorem seat_registry_faithful_shared : (SeatTree.find ⟨7⟩).run shared.book = .ok 1 shared.book ∧
    (SeatTree.find ⟨3⟩).run shared.book = .ok 2 shared.book := by
  have faithful := seat_registry_faithful (by decide) shared_run
  exact ⟨(faithful.2.1 ⟨7⟩).1, (faithful.2.1 ⟨3⟩).1⟩

end SeatRegistry

end Polyleverage

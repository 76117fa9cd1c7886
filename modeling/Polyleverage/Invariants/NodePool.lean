import Polyleverage.State.IntentBook
import Mathlib.Data.Finset.Basic

/-! # The node pool

A free slot lies on the free list or was never used. The list is a chain of distinct slots that ends
in the sentinel. A pool that never grew hands out every slot at most once at a time; one that grew
does so as long as it is not asked for a slot when none is left.
-/

namespace Polyleverage

open Machine

/-- The free slots in the order in which they will be handed out. -/
def FreeChain (nodes : List RawNode) : ℕ → List ℕ → Prop
  | head, [] => head = NULL_IDX
  | head, i :: rest => head = i ∧ i ≠ NULL_IDX ∧ ∃ next, nodes[i]? = some (.free next) ∧ FreeChain nodes next rest

section FreeChain

variable {nodes nodes' : List RawNode} {head : ℕ} {chain : List ℕ}

theorem FreeChain.congr (linked : FreeChain nodes head chain) (same : ∀ i ∈ chain, nodes'[i]? = nodes[i]?) :
    FreeChain nodes' head chain := by
  induction chain generalizing head with
  | nil => exact linked
  | cons i rest ih =>
    obtain ⟨here, present, next, slot, below⟩ := linked
    refine ⟨here, present, next, ?_, ih below fun j member => same j (List.mem_cons_of_mem i member)⟩
    rw [same i List.mem_cons_self, slot]

theorem FreeChain.free (linked : FreeChain nodes head chain) {i : ℕ} (member : i ∈ chain) :
    ∃ next, nodes[i]? = some (.free next) := by
  induction chain generalizing head with
  | nil => cases member
  | cons j rest ih =>
    obtain ⟨-, -, next, slot, below⟩ := linked
    rcases List.mem_cons.mp member with rfl | member
    · exact ⟨next, slot⟩
    · exact ih below member

/-- The list is empty exactly when its head is the sentinel. -/
theorem FreeChain.head_eq_zero (linked : FreeChain nodes head chain) : head = NULL_IDX ↔ chain = [] := by
  cases chain with
  | nil => simpa [FreeChain] using linked
  | cons i rest =>
    obtain ⟨rfl, present, -⟩ := linked
    simp [present]

/-- Pushing a slot. -/
theorem FreeChain.push (linked : FreeChain nodes head chain) {i : ℕ} (present : i ≠ NULL_IDX)
    (inside : i < nodes.length) (out : i ∉ chain) : FreeChain (nodes.set i (.free head)) i (i :: chain) := by
  refine ⟨rfl, present, head, by simp [inside], linked.congr fun j member => ?_⟩
  have other : i ≠ j := by
    rintro rfl
    exact out member
  rw [List.getElem?_set_ne other]

end FreeChain

namespace NodePool

/-! ### Runs of the pool -/

inductive PoolOp where
  | alloc
  | free (idx : ℕ)
  | expand (additionalNodes : ℕ)
  /-- A caller writes into a slot it was handed. -/
  | write (idx : ℕ) (node : RawNode)

/-- A book and the slots that are handed out. -/
structure PoolState where
  book : IntentBook
  allocated : Finset ℕ

def start (instrument : Pubkey) (capacity bump cachedMaxFeeBps : ℕ) : PoolState :=
  ⟨IntentBook.initIntentBook instrument capacity bump cachedMaxFeeBps, ∅⟩

/-- One operation. One that fails changes nothing. -/
def step (s : PoolState) : PoolOp → PoolState
  | .alloc =>
    match IntentBook.allocNode.run s.book with
    | .ok i b => ⟨b, Insert.insert i s.allocated⟩
    | _ => s
  | .free idx =>
    match (IntentBook.freeNode idx).run s.book with
    | .ok _ b => ⟨b, s.allocated.erase idx⟩
    | _ => s
  | .expand additionalNodes =>
    match (IntentBook.expandNodes additionalNodes).run s.book with
    | .ok _ b => ⟨b, s.allocated⟩
    | _ => s
  | .write idx node => ⟨s.book.setNode idx node, s.allocated⟩

/-- Callers free and write only what they were handed. -/
def Legal (s : PoolState) : PoolOp → Prop
  | .free idx => idx ∈ s.allocated
  | .write idx _ => idx ∈ s.allocated
  | _ => True

/-- Every slot but the sentinel is handed out. -/
def Exhausted (s : PoolState) : Prop :=
  ∀ i, 1 ≤ i → i < s.book.header.capacity → i ∈ s.allocated

/-- What the pool promises of a state: the free list is a chain of distinct slots that are not handed
out, and the capacity is the number of slots. -/
def StateOk (s : PoolState) : Prop :=
  (∃ chain, FreeChain s.book.nodes s.book.header.freelistHead chain ∧ chain.Nodup ∧ ∀ i ∈ chain, i ∉ s.allocated) ∧
    s.book.nodes.length = s.book.header.capacity

/-- What the pool promises of an allocation: a slot that is not handed out, or the error for a full
book exactly when there is none. -/
def StepOk (s : PoolState) : PoolOp → Prop
  | .alloc =>
    (∀ i b, IntentBook.allocNode.run s.book = .ok i b → 1 ≤ i ∧ i < s.book.header.capacity ∧ i ∉ s.allocated) ∧
      ((∃ b, IntentBook.allocNode.run s.book = .err PolyleverageError.intentBookFull b) ↔ Exhausted s)
  | _ => True

/-- A pool that grew is not asked for a slot when none is left. -/
def Spares (capacity : ℕ) (s : PoolState) : PoolOp → Prop
  | .alloc => s.book.header.capacity ≤ max capacity 1 ∨ ¬ Exhausted s
  | _ => True

/-- The states that operations reach when each meets a condition on the state before it. -/
inductive Run (s0 : PoolState) (allowed : PoolState → PoolOp → Prop) : PoolState → Prop where
  | start : Run s0 allowed s0
  | step {s : PoolState} (op : PoolOp) : Run s0 allowed s → allowed s op → Run s0 allowed (step s op)

/-! ### The accounting -/

/-- The slots that were ever handed out or put on the free list: those below the node count, and those
that the pool grew by. -/
def Used (capacity : ℕ) (b : IntentBook) (i : ℕ) : Prop :=
  1 ≤ i ∧ i < b.header.capacity ∧ (i < b.header.nodeCount ∨ max capacity 1 ≤ i)

/-- Every used slot is either handed out or on the free list. -/
structure Accounted (capacity : ℕ) (s : PoolState) (chain : List ℕ) : Prop where
  linked : FreeChain s.book.nodes s.book.header.freelistHead chain
  nodup : chain.Nodup
  apart : ∀ i ∈ chain, i ∉ s.allocated
  length : s.book.nodes.length = s.book.header.capacity
  capacity_lt : s.book.header.capacity < 2 ^ 32
  capacity_le : capacity ≤ s.book.header.capacity
  one_le : 1 ≤ s.book.header.nodeCount
  nodeCount_le : s.book.header.nodeCount ≤ max capacity 1
  used : ∀ i, (i ∈ s.allocated ∨ i ∈ chain) ↔ Used capacity s.book i

section Accounted

variable {capacity : ℕ} {s : PoolState} {chain : List ℕ}

theorem Accounted.lt_capacity (acc : Accounted capacity s chain) {i : ℕ} (member : i ∈ s.allocated) :
    1 ≤ i ∧ i < s.book.header.capacity := by
  have used := (acc.used i).mp (.inl member)
  exact ⟨used.1, used.2.1⟩

end Accounted

/-! ### One operation -/

section Steps

variable {capacity : ℕ} {s : PoolState} {chain : List ℕ}

/-- An allocation from the free list. -/
theorem run_alloc_chain {i : ℕ} {rest : List ℕ} (acc : Accounted capacity s (i :: rest)) :
    ∃ next, FreeChain s.book.nodes next rest ∧ IntentBook.allocNode.run s.book =
      .ok i { s.book with header := { s.book.header with freelistHead := next } } := by
  obtain ⟨head, present, next, slot, below⟩ := acc.linked
  refine ⟨next, below, ?_⟩
  rw [IntentBook.allocNode, Exec.run_bind_get, if_pos (by rw [head]; exact present)]
  simp only [head, slot, RawNode.nextFree]
  rfl

/-- An allocation of a slot never used. -/
theorem run_alloc_fresh (acc : Accounted capacity s []) (room : s.book.header.nodeCount < s.book.header.capacity) :
    IntentBook.allocNode.run s.book = .ok s.book.header.nodeCount
      { s.book with header := { s.book.header with nodeCount := s.book.header.nodeCount + 1 } } := by
  have empty : s.book.header.freelistHead = NULL_IDX := acc.linked
  have small : s.book.header.nodeCount + 1 < 2 ^ 32 := by
    have := acc.capacity_lt
    omega
  rw [IntentBook.allocNode, Exec.run_bind_get, if_neg (by simp [empty])]
  rw [Exec.run_bind_of_ok (a := ()) (Exec.rejectIf_ok.mpr ⟨by omega, rfl⟩)]
  rw [Exec.run_bind_of_ok (Exec.orErr_ok.mpr ⟨checkedAdd_eq_some.mpr ⟨small, rfl⟩, rfl⟩)]
  rfl

/-- An allocation when every slot was used. -/
theorem run_alloc_full (acc : Accounted capacity s []) (none : s.book.header.capacity ≤ s.book.header.nodeCount) :
    IntentBook.allocNode.run s.book = .err PolyleverageError.intentBookFull s.book := by
  have empty : s.book.header.freelistHead = NULL_IDX := acc.linked
  rw [IntentBook.allocNode, Exec.run_bind_get, if_neg (by simp [empty]), Exec.run_bind, Exec.run_rejectIf,
    if_pos none]
  rfl

/-- An allocation keeps its promise exactly when it spares the pool. -/
theorem stepOk_alloc_iff (acc : Accounted capacity s chain) : StepOk s .alloc ↔ Spares capacity s .alloc := by
  cases chain with
  | cons i rest =>
    obtain ⟨next, -, ran⟩ := run_alloc_chain acc
    have used := (acc.used i).mp (.inr List.mem_cons_self)
    have out := acc.apart i List.mem_cons_self
    have left : ¬ Exhausted s := fun full => out (full i used.1 used.2.1)
    constructor
    · exact fun _ => .inr left
    · intro _
      refine ⟨fun j b other => ?_, ?_⟩
      · rw [ran] at other
        cases other
        exact ⟨used.1, used.2.1, out⟩
      · simp [ran, left]
  | nil =>
    have one := acc.one_le
    have bound := acc.nodeCount_le
    by_cases room : s.book.header.nodeCount < s.book.header.capacity
    · have ran := run_alloc_fresh acc room
      have member : s.book.header.nodeCount ∈ s.allocated ↔ s.book.header.nodeCount = max capacity 1 := by
        have used := acc.used s.book.header.nodeCount
        simp only [List.not_mem_nil, or_false, Used] at used
        rw [used]
        omega
      have full : Exhausted s ↔ s.book.header.nodeCount = max capacity 1 := by
        constructor
        · intro full
          exact member.mp (full _ one room)
        · intro all i low high
          refine ((acc.used i).mpr ⟨low, high, ?_⟩).resolve_right (by simp)
          omega
      have spares : Spares capacity s .alloc ↔ ¬ Exhausted s := by
        constructor
        · rintro (small | left)
          · rw [full]
            omega
          · exact left
        · exact fun left => .inr left
      rw [spares, full, ← member]
      constructor
      · intro ok
        exact (ok.1 _ _ ran).2.2
      · intro out
        refine ⟨fun j b other => ?_, ?_⟩
        · rw [ran] at other
          cases other
          exact ⟨one, room, out⟩
        · simp [ran, full, ← member, out]
    · have ran := run_alloc_full acc (Nat.le_of_not_lt room)
      have full : Exhausted s := by
        intro i low high
        refine ((acc.used i).mpr ⟨low, high, ?_⟩).resolve_right (by simp)
        omega
      constructor
      · intro _
        left
        omega
      · intro _
        refine ⟨fun j b other => ?_, ?_⟩
        · rw [ran] at other
          cases other
        · simp [ran, full]

theorem accounted_alloc (acc : Accounted capacity s chain) (spares : Spares capacity s .alloc) :
    ∃ chain', Accounted capacity (step s .alloc) chain' := by
  cases chain with
  | cons i rest =>
    obtain ⟨next, below, ran⟩ := run_alloc_chain acc
    have nodup := List.nodup_cons.mp acc.nodup
    refine ⟨rest, ?_⟩
    simp only [step, ran]
    refine ⟨below, nodup.2, fun j member inserted => ?_, acc.length, acc.capacity_lt, acc.capacity_le, acc.one_le,
      acc.nodeCount_le, fun j => ?_⟩
    · rcases Finset.mem_insert.mp inserted with rfl | old
      · exact nodup.1 member
      · exact acc.apart j (List.mem_cons_of_mem i member) old
    · have used := acc.used j
      rw [List.mem_cons] at used
      rw [Finset.mem_insert]
      constructor
      · intro present
        exact used.mp (by tauto)
      · intro present
        have := used.mpr present
        tauto
  | nil =>
    by_cases room : s.book.header.nodeCount < s.book.header.capacity
    · have ran := run_alloc_fresh acc room
      have out := ((stepOk_alloc_iff acc).mpr spares).1 _ _ ran
      have one := acc.one_le
      have bound := acc.nodeCount_le
      have below : s.book.header.nodeCount + 1 ≤ max capacity 1 := by
        have used := acc.used s.book.header.nodeCount
        simp only [List.not_mem_nil, or_false, Used] at used
        rw [used] at out
        omega
      refine ⟨[], ?_⟩
      simp only [step, ran]
      refine ⟨acc.linked, List.nodup_nil, by simp, acc.length, acc.capacity_lt, acc.capacity_le, ?_, below,
        fun j => ?_⟩
      · exact Nat.le_add_left 1 _
      · have used := acc.used j
        simp only [List.not_mem_nil, or_false, Used, Finset.mem_insert] at used ⊢
        rw [used]
        omega
    · have ran := run_alloc_full acc (Nat.le_of_not_lt room)
      refine ⟨[], ?_⟩
      simp only [step, ran]
      exact acc

theorem accounted_free (acc : Accounted capacity s chain) {idx : ℕ} (member : idx ∈ s.allocated) :
    ∃ chain', Accounted capacity (step s (.free idx)) chain' := by
  obtain ⟨low, high⟩ := acc.lt_capacity member
  have inside : idx < s.book.nodes.length := by
    rw [acc.length]
    exact high
  have present : idx ≠ NULL_IDX := by
    intro zero
    rw [zero] at low
    exact absurd low (by decide)
  have ran : (IntentBook.freeNode idx).run s.book = .ok ()
      { header := { s.book.header with freelistHead := idx }
        nodes := s.book.nodes.set idx (.free s.book.header.freelistHead) } := by
    have accepted : ¬ (idx = NULL_IDX ∨ s.book.nodes.length ≤ idx) := by
      rintro (zero | outside)
      · exact present zero
      · omega
    rw [IntentBook.freeNode, Exec.run_bind_get, Exec.run_bind_of_ok (a := ()) (Exec.rejectIf_ok.mpr ⟨accepted, rfl⟩)]
    rfl
  have out : idx ∉ chain := fun free => acc.apart idx free member
  refine ⟨idx :: chain, ?_⟩
  simp only [step, ran]
  refine ⟨acc.linked.push present inside out, List.nodup_cons.mpr ⟨out, acc.nodup⟩, fun j free => ?_, ?_,
    acc.capacity_lt, acc.capacity_le, acc.one_le, acc.nodeCount_le, fun j => ?_⟩
  · rw [Finset.mem_erase]
    rcases List.mem_cons.mp free with rfl | free
    · exact fun kept => kept.1 rfl
    · exact fun kept => acc.apart j free kept.2
  · rw [List.length_set, acc.length]
  · have used := acc.used j
    rw [Finset.mem_erase, List.mem_cons]
    change _ ↔ Used capacity s.book j
    rw [← used]
    by_cases same : j = idx
    · subst same
      simp [member]
    · simp [same]

theorem accounted_write (acc : Accounted capacity s chain) {idx : ℕ} (node : RawNode) (member : idx ∈ s.allocated) :
    Accounted capacity (step s (.write idx node)) chain := by
  refine ⟨acc.linked.congr fun j free => ?_, acc.nodup, acc.apart, ?_, acc.capacity_lt, acc.capacity_le, acc.one_le,
    acc.nodeCount_le, acc.used⟩
  · have other : j ≠ idx := by
      rintro rfl
      exact acc.apart j free member
    exact IntentBook.getElem?_setNode_of_ne other
  · exact (IntentBook.length_setNode node).trans acc.length

/-- Pushing consecutive slots. The sentinel is never on the list, also when it is pushed. -/
theorem run_pushFreeFrom (first count : ℕ) {b : IntentBook} {chain : List ℕ}
    (linked : FreeChain b.nodes b.header.freelistHead chain) (nodup : chain.Nodup)
    (inside : first + count ≤ b.nodes.length) (apart : ∀ i ∈ chain, i < first ∨ first + count ≤ i)
    (empty : first = NULL_IDX → chain = []) :
    ∃ b' chain', (IntentBook.pushFreeFrom first count).run b = .ok () b' ∧
      FreeChain b'.nodes b'.header.freelistHead chain' ∧ chain'.Nodup ∧
      (∀ i, i ∈ chain' ↔ i ∈ chain ∨ 1 ≤ i ∧ first ≤ i ∧ i < first + count) ∧
      b'.nodes.length = b.nodes.length ∧
      b'.header = { b.header with freelistHead := b'.header.freelistHead } := by
  induction count generalizing first b chain with
  | zero =>
    refine ⟨b, chain, rfl, linked, nodup, fun i => ?_, rfl, rfl⟩
    constructor
    · exact .inl
    · rintro (old | ⟨-, low, high⟩)
      · exact old
      · exact absurd (Nat.lt_of_le_of_lt low high) (Nat.lt_irrefl _)
  | succ count ih =>
    have accepted : ¬ b.nodes.length ≤ first := by omega
    let pushed : IntentBook :=
      { header := { b.header with freelistHead := first }
        nodes := b.nodes.set first (.free b.header.freelistHead) }
    have ran : (IntentBook.pushFree first).run b = .ok () pushed := by
      rw [IntentBook.pushFree, Exec.run_bind_get,
        Exec.run_bind_of_ok (a := ()) (Exec.abortIf_ok.mpr ⟨accepted, rfl⟩)]
      rfl
    have length : pushed.nodes.length = b.nodes.length := List.length_set
    have out : first ∉ chain := by
      intro member
      have := apart first member
      omega
    -- The sentinel ends the list that it is pushed on.
    obtain ⟨mid, linkedMid, nodupMid, memMid, emptyMid⟩ : ∃ mid, FreeChain pushed.nodes first mid ∧ mid.Nodup ∧
        (∀ i, i ∈ mid ↔ i ∈ chain ∨ 1 ≤ i ∧ i = first) ∧ (first + 1 = NULL_IDX → mid = []) := by
      by_cases zero : first = NULL_IDX
      · obtain rfl := empty zero
        refine ⟨[], zero, List.nodup_nil, fun i => ?_, fun _ => rfl⟩
        simp only [List.not_mem_nil, false_or, false_iff, zero, NULL_IDX]
        omega
      · refine ⟨first :: chain, linked.push zero (by omega) out, List.nodup_cons.mpr ⟨out, nodup⟩, fun i => ?_, ?_⟩
        · have positive : 1 ≤ first := Nat.one_le_iff_ne_zero.mpr zero
          rw [List.mem_cons]
          constructor
          · rintro (rfl | member)
            · exact .inr ⟨positive, rfl⟩
            · exact .inl member
          · rintro (member | ⟨-, rfl⟩)
            · exact .inr member
            · exact .inl rfl
        · intro impossible
          exact absurd impossible (Nat.succ_ne_zero first)
    have apartMid : ∀ i ∈ mid, i < first + 1 ∨ first + 1 + count ≤ i := by
      intro i member
      rcases (memMid i).mp member with old | ⟨-, rfl⟩
      · have := apart i old
        omega
      · omega
    have insideMid : first + 1 + count ≤ pushed.nodes.length := by omega
    obtain ⟨b', chain', ran', linked', nodup', mem', length', header'⟩ :=
      ih (first + 1) (b := pushed) linkedMid nodupMid insideMid apartMid emptyMid
    refine ⟨b', chain', ?_, linked', nodup', fun i => ?_, length'.trans length, header'⟩
    · rw [IntentBook.pushFreeFrom, Exec.run_bind_of_ok ran]
      exact ran'
    · rw [mem', memMid]
      constructor
      · rintro ((old | ⟨positive, rfl⟩) | fresh)
        · exact .inl old
        · exact .inr ⟨positive, le_refl _, by omega⟩
        · exact .inr ⟨fresh.1, by omega, by omega⟩
      · rintro (old | fresh)
        · exact .inl (.inl old)
        · by_cases same : i = first
          · exact .inl (.inr ⟨fresh.1, same⟩)
          · exact .inr ⟨fresh.1, by omega, by omega⟩

/-- Growing the pool, when the new capacity fits. -/
theorem run_expandNodes {b : IntentBook} {chain : List ℕ} {additionalNodes : ℕ}
    (linked : FreeChain b.nodes b.header.freelistHead chain) (nodup : chain.Nodup)
    (length : b.nodes.length = b.header.capacity) (bounded : ∀ i ∈ chain, i < b.header.capacity)
    (fits : b.header.capacity + additionalNodes < 2 ^ 32) :
    ∃ b' chain', (IntentBook.expandNodes additionalNodes).run b = .ok () b' ∧
      FreeChain b'.nodes b'.header.freelistHead chain' ∧ chain'.Nodup ∧
      (∀ i, i ∈ chain' ↔ i ∈ chain ∨ 1 ≤ i ∧ b.header.capacity ≤ i ∧ i < b.header.capacity + additionalNodes) ∧
      b'.nodes.length = b.header.capacity + additionalNodes ∧
      b'.header = { b.header with
        capacity := b.header.capacity + additionalNodes
        freelistHead := b'.header.freelistHead } := by
  let grown : IntentBook :=
    { header := { b.header with capacity := b.header.capacity + additionalNodes }
      nodes := b.nodes ++ List.replicate additionalNodes (.free NULL_IDX) }
  have lengthGrown : grown.nodes.length = b.header.capacity + additionalNodes := by
    simp [grown, length]
  have linkedGrown : FreeChain grown.nodes grown.header.freelistHead chain := by
    apply linked.congr
    intro i member
    exact List.getElem?_append_left (by rw [length]; exact bounded i member)
  obtain ⟨b', chain', ran, linked', nodup', mem', length', header'⟩ := run_pushFreeFrom
    b.header.capacity additionalNodes (b := grown) linkedGrown nodup (by omega)
    (fun i member => .inl (bounded i member)) fun zero => by
      apply List.eq_nil_iff_forall_not_mem.mpr
      intro i member
      have := bounded i member
      rw [zero] at this
      exact absurd this (Nat.not_lt_zero i)
  refine ⟨b', chain', ?_, linked', nodup', mem', length'.trans lengthGrown, header'⟩
  rw [IntentBook.expandNodes, Exec.run_bind, Exec.run_modify, Outcome.bind_ok, Exec.run_bind_get,
    Exec.run_bind_of_ok (Exec.orErr_ok.mpr ⟨checkedAdd_eq_some.mpr ⟨fits, rfl⟩, rfl⟩), Exec.run_bind, Exec.run_put,
    Outcome.bind_ok]
  exact ran

/-- Growing the pool beyond its range fails. -/
theorem run_expandNodes_overflow {b : IntentBook} {additionalNodes : ℕ}
    (large : 2 ^ 32 ≤ b.header.capacity + additionalNodes) :
    ∃ e b', (IntentBook.expandNodes additionalNodes).run b = .err e b' := by
  have none : checkedAdd 32 b.header.capacity additionalNodes = none := if_neg (Nat.not_lt.mpr large)
  refine ⟨PolyleverageError.arithmeticOverflow, { b with nodes := b.nodes ++ List.replicate additionalNodes (.free NULL_IDX) }, ?_⟩
  rw [IntentBook.expandNodes, Exec.run_bind, Exec.run_modify, Outcome.bind_ok, Exec.run_bind_get, Exec.run_bind, none]
  rfl

theorem accounted_expand (acc : Accounted capacity s chain) (additionalNodes : ℕ) :
    ∃ chain', Accounted capacity (step s (.expand additionalNodes)) chain' := by
  by_cases fits : s.book.header.capacity + additionalNodes < 2 ^ 32
  · have bounded : ∀ i ∈ chain, i < s.book.header.capacity := by
      intro i member
      exact ((acc.used i).mp (.inr member)).2.1
    obtain ⟨b', chain', ran, linked', nodup', mem', length', header'⟩ :=
      run_expandNodes acc.linked acc.nodup acc.length bounded fits
    have capacity' : b'.header.capacity = s.book.header.capacity + additionalNodes := by rw [header']
    have count' : b'.header.nodeCount = s.book.header.nodeCount := by rw [header']
    have low := acc.capacity_le
    refine ⟨chain', ?_⟩
    simp only [step, ran]
    refine ⟨linked', nodup', fun i member allocated => ?_, length'.trans capacity'.symm, ?_, ?_, ?_, ?_, fun i => ?_⟩
    · rcases (mem' i).mp member with old | ⟨-, fresh, -⟩
      · exact acc.apart i old allocated
      · have := (acc.lt_capacity allocated).2
        omega
    · exact capacity' ▸ fits
    · change capacity ≤ b'.header.capacity
      omega
    · exact count' ▸ acc.one_le
    · exact count' ▸ acc.nodeCount_le
    · have used := acc.used i
      have count := acc.nodeCount_le
      simp only [mem', ← or_assoc, used, Used, capacity', count']
      omega
  · obtain ⟨e, b', ran⟩ := run_expandNodes_overflow (Nat.le_of_not_lt fits)
    refine ⟨chain, ?_⟩
    simp only [step, ran]
    exact acc

end Steps

/-! ### Whole runs -/

theorem accounted_start {instrument : Pubkey} {capacity bump cachedMaxFeeBps : ℕ} (fits : capacity < 2 ^ 32) :
    Accounted capacity (start instrument capacity bump cachedMaxFeeBps) [] := by
  refine ⟨rfl, List.nodup_nil, by simp, List.length_replicate, fits, le_refl _, le_refl _, ?_, fun i => ?_⟩
  · exact Nat.le_max_right capacity 1
  · simp only [start, Finset.notMem_empty, List.not_mem_nil, or_self, false_iff, Used, IntentBook.initIntentBook]
    omega

/-- Every operation that spares the pool keeps the accounting. -/
theorem accounted_step {capacity : ℕ} {s : PoolState} {chain : List ℕ} (acc : Accounted capacity s chain)
    {op : PoolOp} (legal : Legal s op) (spares : Spares capacity s op) :
    ∃ chain', Accounted capacity (step s op) chain' := by
  cases op with
  | alloc => exact accounted_alloc acc spares
  | free idx => exact accounted_free acc legal
  | expand additionalNodes => exact accounted_expand acc additionalNodes
  | write idx node => exact ⟨chain, accounted_write acc node legal⟩

theorem accounted_run {instrument : Pubkey} {capacity bump cachedMaxFeeBps : ℕ} (fits : capacity < 2 ^ 32)
    {s : PoolState} (run : Run (start instrument capacity bump cachedMaxFeeBps)
      (fun s op => Legal s op ∧ Spares capacity s op) s) :
    ∃ chain, Accounted capacity s chain := by
  induction run with
  | start => exact ⟨[], accounted_start fits⟩
  | step op _ allowed ih =>
    obtain ⟨chain, acc⟩ := ih
    exact accounted_step acc allowed.1 allowed.2

/-- In a legal run that spares the pool every state is as promised, and the next operation keeps its
promise exactly when it spares the pool as well. -/
theorem run_keeps_promises {instrument : Pubkey} {capacity bump cachedMaxFeeBps : ℕ} (fits : capacity < 2 ^ 32)
    {s : PoolState} (run : Run (start instrument capacity bump cachedMaxFeeBps)
      (fun s op => Legal s op ∧ Spares capacity s op) s) :
    StateOk s ∧ ∀ op, StepOk s op ↔ Spares capacity s op := by
  obtain ⟨chain, acc⟩ := accounted_run fits run
  refine ⟨⟨⟨chain, acc.linked, acc.nodup, acc.apart⟩, acc.length⟩, fun op => ?_⟩
  cases op with
  | alloc => exact stepOk_alloc_iff acc
  | free idx => exact Iff.rfl
  | expand additionalNodes => exact Iff.rfl
  | write idx node => exact Iff.rfl

/-- A pool of two slots that hands out its one slot and grows by one. -/
def grownPool : PoolState :=
  step (step (start default 2 255 0) .alloc) (.expand 1)

theorem grownPool_run : Run (start default 2 255 0) (fun s op => Legal s op ∧ Spares 2 s op) grownPool := by
  apply Run.step (.expand 1)
  · apply Run.step .alloc
    · exact .start
    · exact ⟨trivial, .inl (by decide)⟩
  · exact ⟨trivial, trivial⟩

theorem run_keeps_promises_grownPool : StateOk grownPool ∧ ∀ op, StepOk grownPool op ↔ Spares 2 grownPool op :=
  run_keeps_promises (by decide) grownPool_run

/-- The grown pool hands out its new slot twice: its node count, which the growth left behind, names
the slot that came from the free list. -/
theorem grownPool_hands_out_live_slot : ¬ ∀ (instrument : Pubkey) (capacity bump cachedMaxFeeBps : ℕ) (s : PoolState),
    capacity < 2 ^ 32 → Run (start instrument capacity bump cachedMaxFeeBps) Legal s →
      StateOk s ∧ ∀ op, Legal s op → StepOk s op := by
  intro promised
  let s := step grownPool .alloc
  have run : Run (start default 2 255 0) Legal s := by
    apply Run.step .alloc
    · apply Run.step (.expand 1)
      · exact .step .alloc .start trivial
      · trivial
    · trivial
  have again : IntentBook.allocNode.run s.book =
      .ok 2 { s.book with header := { s.book.header with nodeCount := 3 } } := by rfl
  have live : 2 ∈ s.allocated := by decide
  obtain ⟨-, ok⟩ := promised default 2 255 0 s (by decide) run
  exact ((ok .alloc trivial).1 2 _ again).2.2 live

end NodePool

end Polyleverage

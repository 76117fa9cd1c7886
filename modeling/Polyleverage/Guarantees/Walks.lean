import Mathlib.Data.List.TakeWhile
import Polyleverage.Guarantees.InlineDiscovery

/-! # The walk through a side

A walk visits the nodes of a valid tree one after the other, best first, until its visitor wants no more. The stack
of 64 entries is enough for every tree that a pool with 32-bit indices has room for.
-/

namespace Polyleverage

open RedBlack

namespace IntentTree

variable {σ α : Type} {side nowSlot : ℕ} {b : IntentBook} {w : RedBlack.Tree ℕ}

/-! ### Visitors that remember -/

/-- The walk, for a visitor that has a state of its own and says whether to go on. -/
def walkWith (side : ℕ) (visitor : ℕ → IntentNode → σ → Bool × σ) : ℕ → List ℕ → ℕ → σ → BookM σ
  | 0, _, _, _ => Exec.abort
  | fuel + 1, stack, cur, kept =>
    if cur ≠ NULL_IDX then do
      Exec.rejectIf (STACK_CAP ≤ stack.length) PolyleverageError.arithmeticOverflow
      let left ← getLeft side cur
      walkWith side visitor fuel (cur :: stack) left kept
    else
      match stack with
      | [] => pure kept
      | top :: rest => do
        let node ← Exec.gets (IntentBook.intent · top)
        if (visitor top node kept).1 then walkWith side visitor fuel rest node.right (visitor top node kept).2
        else pure (visitor top node kept).2

/-- Visit the intents of a side, and end with the state of the visitor. -/
def forEachBestFirstWith (side : ℕ) (visitor : ℕ → IntentNode → σ → Bool × σ) (kept : σ) : BookM σ := do
  let root ← Exec.gets (treeRoot · side)
  let b ← Exec.get
  walkWith side visitor (2 * b.nodes.length + 2) [] root kept

/-- The visitor that remembers what it was looking for. -/
def finder (wanted : ℕ → IntentNode → Option α) (i : ℕ) (node : IntentNode) (kept : Option α) : Bool × Option α :=
  match wanted i node with
  | some found => (false, some found)
  | none => (true, kept)

/-- At a node the walk goes down to the left, with the node on the stack. -/
theorem walkWith_push (visitor : ℕ → IntentNode → σ → Bool × σ) (fuel : ℕ) (stack : List ℕ) {cur : ℕ} (present : cur ≠ NULL_IDX)
    (kept : σ) : walkWith side visitor (fuel + 1) stack cur kept = (do
      Exec.rejectIf (STACK_CAP ≤ stack.length) PolyleverageError.arithmeticOverflow
      let left ← getLeft side cur
      walkWith side visitor fuel (cur :: stack) left kept) :=
  if_pos present

/-- At the null slot the walk visits the node on the stack, and goes on to its right. -/
theorem walkWith_pop (visitor : ℕ → IntentNode → σ → Bool × σ) (fuel : ℕ) (top : ℕ) (stack : List ℕ) (kept : σ) :
    walkWith side visitor (fuel + 1) (top :: stack) NULL_IDX kept = (do
      let node ← Exec.gets (IntentBook.intent · top)
      if (visitor top node kept).1 then walkWith side visitor fuel stack node.right (visitor top node kept).2
      else pure (visitor top node kept).2) := by
  rfl

theorem walk_eq_walkWith (wanted : ℕ → IntentNode → Option α) (fuel : ℕ) (stack : List ℕ) (cur : ℕ) :
    walk side wanted fuel stack cur = walkWith side (finder wanted) fuel stack cur none := by
  induction fuel generalizing stack cur with
  | zero => rfl
  | succ fuel ih =>
    by_cases present : cur ≠ NULL_IDX
    · rw [walk_push wanted fuel stack present, walkWith_push _ fuel stack present]
      simp only [ih]
    · obtain rfl := not_not.mp present
      cases stack with
      | nil => rfl
      | cons top rest =>
        rw [walk_pop, walkWith_pop]
        apply congrArg
        funext node
        rw [finder]
        cases wanted top node with
        | some found => rfl
        | none => exact ih rest node.right

/-- A search is a walk whose visitor remembers what it found. -/
theorem forEachBestFirst_eq (wanted : ℕ → IntentNode → Option α) :
    forEachBestFirst side wanted = forEachBestFirstWith side (finder wanted) none := by
  simp only [forEachBestFirst, forEachBestFirstWith, walk_eq_walkWith]

/-! ### What is visited -/

/-- Visit one node after the other, as long as the visitor goes on. -/
def visitAll (visitor : ℕ → IntentNode → σ → Bool × σ) : List (ℕ × IntentNode) → σ → Bool × σ
  | [], kept => (true, kept)
  | x :: rest, kept =>
    if (visitor x.1 x.2 kept).1 then visitAll visitor rest (visitor x.1 x.2 kept).2 else (false, (visitor x.1 x.2 kept).2)

theorem visitAll_append (visitor : ℕ → IntentNode → σ → Bool × σ) (xs ys : List (ℕ × IntentNode)) (kept : σ) :
    visitAll visitor (xs ++ ys) kept =
      if (visitAll visitor xs kept).1 then visitAll visitor ys (visitAll visitor xs kept).2 else visitAll visitor xs kept := by
  induction xs generalizing kept with
  | nil => rfl
  | cons x rest ih =>
    rw [List.cons_append, visitAll, visitAll, ih]
    split <;> simp_all

/-- The nodes in these slots. -/
def nodesIn (b : IntentBook) (slots : List ℕ) : List (ℕ × IntentNode) :=
  slots.filterMap fun i => (b.intent i).toOption.map fun node => (i, node)

theorem nodesIn_append (b : IntentBook) (xs ys : List ℕ) : nodesIn b (xs ++ ys) = nodesIn b xs ++ nodesIn b ys :=
  List.filterMap_append

theorem nodesIn_cons {i : ℕ} {node : IntentNode} (slot : b.nodes[i]? = some (.intent node)) (rest : List ℕ) :
    nodesIn b (i :: rest) = (i, node) :: nodesIn b rest := by
  have read : b.intent i = .ok node := IntentBook.intent_eq_ok.mpr slot
  rw [nodesIn, List.filterMap_cons, read]
  rfl

theorem slot_of_read {i : ℕ} {x : ℕ × IntentNode} (found : x ∈ (b.intent i).toOption.map fun node => (i, node)) :
    b.nodes[i]? = some (.intent x.2) ∧ x.1 = i := by
  obtain ⟨node, read, rfl⟩ := Option.map_eq_some_iff.mp found
  refine ⟨?_, rfl⟩
  rw [← IntentBook.intent_eq_ok]
  cases known : b.intent i with
  | error e => rw [known] at read; cases read
  | ok node' => rw [known] at read; cases read; rfl

theorem mem_nodesIn {slots : List ℕ} {i : ℕ} {node : IntentNode} :
    (i, node) ∈ nodesIn b slots ↔ i ∈ slots ∧ b.nodes[i]? = some (.intent node) := by
  rw [nodesIn, List.mem_filterMap]
  constructor
  · rintro ⟨j, member, found⟩
    obtain ⟨slot, rfl⟩ := slot_of_read found
    exact ⟨member, slot⟩
  · rintro ⟨member, slot⟩
    refine ⟨i, member, ?_⟩
    rw [IntentBook.intent_eq_ok.mpr slot]
    rfl

/-- The walk through a subtree visits its nodes in order, and then goes on with the nodes above. -/
theorem run_walkWith (visitor : ℕ → IntentNode → σ → Bool × σ) {t : RedBlack.Tree ℕ} {path : List (Frame ℕ)}
    (shape : (pool side).Shape b (plug t path)) (fuel : ℕ) (stack : List ℕ) (room : stack.length + t.height ≤ STACK_CAP)
    (kept : σ) :
    (walkWith side visitor (fuel + 2 * t.toList.length) stack t.top kept).run b =
      if (visitAll visitor (nodesIn b t.toList) kept).1 then
        (walkWith side visitor fuel stack NULL_IDX (visitAll visitor (nodesIn b t.toList) kept).2).run b
      else .ok (visitAll visitor (nodesIn b t.toList) kept).2 b := by
  induction t generalizing path fuel stack kept with
  | leaf => rfl
  | node c l a r ihl ihr =>
    obtain ⟨present, linked, -⟩ := shape.parts.1
    obtain ⟨node, slot, links⟩ := intent_of_links linked
    have left : (pool side).Shape b (plug l (⟨.left, c, a, r⟩ :: path)) := shape
    have right : (pool side).Shape b (plug r (⟨.right, c, a, l⟩ :: path)) := shape
    simp only [RedBlack.Tree.height_node] at room
    have steps : fuel + 2 * (RedBlack.Tree.node c l a r).toList.length =
        (fuel + 2 * r.toList.length + 1 + 2 * l.toList.length) + 1 := by
      simp only [RedBlack.Tree.toList, List.length_append, List.length_cons]
      omega
    have push : ¬ STACK_CAP ≤ stack.length := by omega
    have descend : (getLeft side a).run b = .ok l.top b := LinkedPool.run_child .left present linked
    have pop : (Exec.gets (IntentBook.intent · a) : BookM IntentNode).run b = .ok node b := by
      rw [Exec.run_gets, IntentBook.intent_eq_ok.mpr slot]
    have next : node.right = r.top := congrArg Links.right links
    have below := ihl left (fuel + 2 * r.toList.length + 1) (a :: stack) (by simp only [List.length_cons]; omega) kept
    rw [steps, RedBlack.Tree.top_node, walkWith_push visitor _ _ present, Exec.run_bind, Exec.run_rejectIf, if_neg push,
      Outcome.bind_ok, Exec.run_bind_of_ok descend, below]
    simp only [RedBlack.Tree.toList, nodesIn_append, nodesIn_cons slot, visitAll_append]
    split
    next on =>
      -- The left subtree is done, and the node on the stack comes next.
      rw [walkWith_pop, Exec.run_bind_of_ok pop, visitAll]
      split
      next on' =>
        rw [next]
        exact ihr right fuel stack (by omega) _
      next => rfl
    next => rfl

/-- A walk visits the nodes of a valid tree in their order. -/
theorem run_forEachBestFirstWith (visitor : ℕ → IntentNode → σ → Bool × σ) (valid : (pool side).Valid b w)
    (small : b.nodes.length < 2 ^ 32) (kept : σ) :
    (forEachBestFirstWith side visitor kept).run b = .ok (visitAll visitor (nodesIn b w.toList) kept).2 b := by
  have whole : (pool side).Shape b (plug w []) := valid.shape
  have size : w.toList.length ≤ b.nodes.length := valid.shape.length_le_size
  obtain ⟨n, balanced⟩ := valid.balanced
  have height : w.height ≤ 2 * (33 - 1) := balanced.height_le_of_length_lt (m := 33) (by omega)
  have enough : 2 * b.nodes.length + 2 = (2 * (b.nodes.length - w.toList.length) + 1) + 1 + 2 * w.toList.length := by omega
  have root : (Exec.gets (treeRoot · side) : BookM ℕ).run b = .ok w.top b := by
    have top : treeRoot b side = .ok w.top := valid.shape.root
    rw [Exec.run_gets, top]
  rw [forEachBestFirstWith, Exec.run_bind_of_ok root, Exec.run_bind_get, enough,
    run_walkWith visitor whole _ [] (by simp only [List.length_nil, STACK_CAP]; omega)]
  split <;> rfl

/-! ### The order of the visits -/

/-- A higher bid or a lower ask; at the same price the earlier post, and then the smaller id. -/
def Ahead (side : ℕ) (x y : IntentNode) : Prop :=
  BetterPrice side x.priceFp y.priceFp ∨
    x.priceFp = y.priceFp ∧ (x.postSeq < y.postSeq ∨ x.postSeq = y.postSeq ∧ x.id < y.id)

theorem inFront_iff {x y : IntentNode} : InFront side x y ↔ Ahead side x y := by
  unfold InFront Ahead BetterPrice cmpKey IntentNode.key
  split
  · simp only [Ordering.then_eq_lt, Nat.compare_eq_lt, Nat.compare_eq_eq, eq_comm (a := y.priceFp)]
  · simp only [Ordering.then_eq_lt, Nat.compare_eq_lt, Nat.compare_eq_eq]

theorem nodesIn_of_valid (valid : (pool side).Valid b w) :
    (nodesIn b w.toList).map Prod.fst = w.toList ∧
      (nodesIn b w.toList).Pairwise fun x y => Ahead side x.2 y.2 := by
  have present : ∀ i ∈ w.toList, ∃ node, b.nodes[i]? = some (.intent node) := by
    intro i member
    obtain ⟨l, linked⟩ := valid.shape.stored.links_ok member
    obtain ⟨node, slot, -⟩ := intent_of_links linked
    exact ⟨node, slot⟩
  constructor
  · generalize w.toList = slots at present
    induction slots with
    | nil => rfl
    | cons i rest ih =>
      obtain ⟨node, slot⟩ := present i List.mem_cons_self
      rw [nodesIn_cons slot, List.map_cons, ih fun j member => present j (List.mem_cons_of_mem i member)]
  · apply List.Pairwise.filterMap _ _ valid.ordered
    intro i j precedes x hx y hy
    obtain ⟨slot, rfl⟩ := slot_of_read hx
    obtain ⟨slot', rfl⟩ := slot_of_read hy
    rw [← inFront_iff]
    exact (LinkedPool.precedes_iff (key_of_intent slot) (key_of_intent slot')).mp precedes

/-- The visitor that notes what it sees. -/
def noting (goOn : ℕ → IntentNode → Bool) (i : ℕ) (node : IntentNode) (seen : List (ℕ × IntentNode)) :
    Bool × List (ℕ × IntentNode) :=
  (goOn i node, seen ++ [(i, node)])

/-- It sees all up to the first one where it stops. -/
theorem visitAll_noting (goOn : ℕ → IntentNode → Bool) (nodes seen : List (ℕ × IntentNode)) :
    (visitAll (noting goOn) nodes seen).2 =
      seen ++ (nodes.takeWhile (fun x => goOn x.1 x.2) ++ (nodes.find? fun x => !goOn x.1 x.2).toList) := by
  induction nodes generalizing seen with
  | nil => simp [visitAll]
  | cons x rest ih =>
    rw [visitAll, List.takeWhile_cons, List.find?_cons]
    cases on : goOn x.1 x.2 with
    | true => simp [noting, on, ih]
    | false => simp [noting, on]

/-- A search visits the nodes up to the first one that it wants. -/
theorem visitAll_finder (wanted : ℕ → IntentNode → Option α) (nodes : List (ℕ × IntentNode)) :
    (visitAll (finder wanted) nodes none).2 = nodes.findSome? fun x => wanted x.1 x.2 := by
  induction nodes with
  | nil => rfl
  | cons x rest ih =>
    rw [visitAll, List.findSome?_cons, finder]
    cases wanted x.1 x.2 with
    | some found => rfl
    | none => exact ih

theorem run_firstLive_of_valid (valid : (pool side).Valid b w) (small : b.nodes.length < 2 ^ 32) (nowSlot : ℕ) :
    (firstLive side nowSlot).run b = .ok ((nodesIn b w.toList).find? fun x => x.2.IsLive nowSlot) b := by
  rw [firstLive, run_forEachBestFirst _ valid small, nodesIn]
  congr 1
  induction w.toList with
  | nil => rfl
  | cons i rest ih =>
    rw [List.findSome?_cons, List.filterMap_cons, seen, ih]
    cases b.intent i with
    | error e => rfl
    | ok node =>
      simp only [Except.toOption, Option.map_some, List.find?_cons, IntentNode.IsLive]
      by_cases live : 0 < node.contractsRemaining ∧ nowSlot < node.expirationSlot <;> simp [live]

/-- In a line of orders the first live one is the one that is ahead of all other live ones. -/
theorem find?_live_iff {nodes : List (ℕ × IntentNode)} (ordered : nodes.Pairwise fun x y => Ahead side x.2 y.2)
    {x : ℕ × IntentNode} :
    (nodes.find? fun x => x.2.IsLive nowSlot) = some x ↔
      x ∈ nodes ∧ x.2.IsLive nowSlot ∧ ∀ y ∈ nodes, y.2.IsLive nowSlot → y ≠ x → Ahead side x.2 y.2 := by
  constructor
  · intro found
    obtain ⟨live, before, after, rfl, dead⟩ := List.find?_eq_some_iff_append.mp found
    refine ⟨by simp, of_decide_eq_true live, ?_⟩
    intro y member live' other
    rw [List.pairwise_append, List.pairwise_cons] at ordered
    rw [List.mem_append, List.mem_cons] at member
    obtain earlier | same | later := member
    · exact absurd live' (by simpa using dead y earlier)
    · exact absurd same other
    · exact ordered.2.1.1 y later
  · rintro ⟨member, live, first⟩
    cases found : nodes.find? fun x => x.2.IsLive nowSlot with
    | none => exact absurd live (by simpa using List.find?_eq_none.mp found x member)
    | some y =>
      obtain ⟨live', before, after, rfl, dead⟩ := List.find?_eq_some_iff_append.mp found
      rw [List.mem_append, List.mem_cons] at member
      obtain earlier | same | later := member
      · exact absurd live (by simpa using dead x earlier)
      · rw [same]
      · -- Neither can be ahead of the other.
        rw [List.pairwise_append, List.pairwise_cons] at ordered
        have ahead := inFront_iff.mpr (ordered.2.1.1 x later)
        by_contra different
        have behind := inFront_iff.mpr (first y (by simp) (of_decide_eq_true live') fun same => different (by rw [same]))
        exact InFront.irrefl (ahead.trans behind)

/-- In every valid tree that a pool has room for, the walk never runs out of stack and visits every node once, best
first, up to where its visitor stops. A search is such a walk. The first live order is the one that is ahead of all
other live ones. -/
theorem walk_exact (valid : (pool side).Valid b w) (small : b.nodes.length < 2 ^ 32) :
    ∃ nodes : List (ℕ × IntentNode),
      nodes.map Prod.fst = w.toList ∧ w.toList.Nodup ∧ (∀ x ∈ nodes, b.nodes[x.1]? = some (.intent x.2)) ∧
        nodes.Pairwise (fun x y => Ahead side x.2 y.2) ∧
        (forEachBestFirstWith side (noting fun _ _ => true) []).run b = .ok nodes b ∧
        (∀ goOn : ℕ → IntentNode → Bool, (forEachBestFirstWith side (noting goOn) []).run b =
          .ok (nodes.takeWhile (fun x => goOn x.1 x.2) ++ (nodes.find? fun x => !goOn x.1 x.2).toList) b) ∧
        (∀ (σ : Type) (visitor : ℕ → IntentNode → σ → Bool × σ) (kept : σ),
          (forEachBestFirstWith side visitor kept).run b = .ok (visitAll visitor nodes kept).2 b) ∧
        (∀ (α : Type) (wanted : ℕ → IntentNode → Option α),
          forEachBestFirst side wanted = forEachBestFirstWith side (finder wanted) none ∧
          (forEachBestFirst side wanted).run b = .ok (nodes.findSome? fun x => wanted x.1 x.2) b) ∧
        ∀ nowSlot, ∃ found, (firstLive side nowSlot).run b = .ok found b ∧
          (∀ x, found = some x ↔
            x ∈ nodes ∧ x.2.IsLive nowSlot ∧ ∀ y ∈ nodes, y.2.IsLive nowSlot → y ≠ x → Ahead side x.2 y.2) ∧
          (found = none ↔ ∀ x ∈ nodes, ¬ x.2.IsLive nowSlot) := by
  obtain ⟨slots, ordered⟩ := nodesIn_of_valid valid
  have noted : ∀ goOn : ℕ → IntentNode → Bool, (forEachBestFirstWith side (noting goOn) []).run b = .ok
      ((nodesIn b w.toList).takeWhile (fun x => goOn x.1 x.2) ++ ((nodesIn b w.toList).find? fun x => !goOn x.1 x.2).toList) b := by
    intro goOn
    rw [run_forEachBestFirstWith _ valid small, visitAll_noting, List.nil_append]
  refine ⟨nodesIn b w.toList, slots, valid.shape.nodup, fun x member => (mem_nodesIn.mp member).2, ordered, ?_, noted,
    fun σ visitor kept => run_forEachBestFirstWith visitor valid small kept,
    fun α wanted => ⟨forEachBestFirst_eq wanted, ?_⟩, ?_⟩
  · have all : (nodesIn b w.toList).takeWhile (fun _ => true) = nodesIn b w.toList :=
      List.takeWhile_eq_self_iff.mpr fun _ _ => rfl
    have none : (nodesIn b w.toList).find? (fun _ => !true) = none := List.find?_eq_none.mpr fun _ _ => Bool.false_ne_true
    rw [noted, all, none, Option.toList_none, List.append_nil]
  · rw [forEachBestFirst_eq, run_forEachBestFirstWith _ valid small, visitAll_finder]
  · intro nowSlot
    refine ⟨_, run_firstLive_of_valid valid small nowSlot, fun x => find?_live_iff ordered, ?_⟩
    simp [List.find?_eq_none]

/-- In a book with one bid the walk visits the bid, and finds it live until it expires. -/
theorem walk_exact_bidden : ∃ i node,
    (forEachBestFirstWith SIDE_LONG (noting fun _ _ => true) []).run Sample.bidden = .ok [(i, node)] Sample.bidden ∧
      (firstLive SIDE_LONG 99).run Sample.bidden = .ok (some (i, node)) Sample.bidden ∧
      (firstLive SIDE_LONG 100).run Sample.bidden = .ok none Sample.bidden := by
  obtain ⟨orders, seats, chain, laid⟩ := Sample.wellFormed_bidden.consistent.tidy
  have valid := laid.orderTree SIDE_LONG (.inl rfl)
  obtain ⟨nodes, slots, -, -, -, visited, -, -, -, first⟩ := walk_exact valid (by decide +kernel)
  have count : ((forEachBestFirstWith SIDE_LONG (noting fun _ _ => true) []).run Sample.bidden).value?.map
      (List.map fun x => (x.2.contractsRemaining, x.2.expirationSlot)) = some [(1, 100)] := by decide +kernel
  rw [visited] at count
  obtain ⟨⟨i, node⟩, rfl, amounts⟩ := List.map_eq_singleton_iff.mp (Option.some.inj count)
  obtain ⟨contracts, expiry⟩ : node.contractsRemaining = 1 ∧ node.expirationSlot = 100 := Prod.mk.inj amounts
  obtain ⟨found, ran, chosen, -⟩ := first 99
  obtain ⟨found', ran', -, absent⟩ := first 100
  refine ⟨i, node, visited, ?_, ?_⟩
  · have live : node.IsLive 99 := ⟨by omega, by omega⟩
    rw [ran, (chosen (i, node)).mpr ⟨List.mem_singleton_self _, live, fun y member _ other => absurd (List.mem_singleton.mp member) other⟩]
  · rw [ran', absent.mpr]
    intro x member live
    obtain rfl := List.mem_singleton.mp member
    have later : 100 < node.expirationSlot := live.2
    omega

end IntentTree

end Polyleverage

import Polyleverage.Guarantees.Nodes
import Polyleverage.Invariants.Cancels
import Polyleverage.Invariants.Posting
import Polyleverage.Invariants.Withdrawals

/-! # Removing expired orders

An expired order leaves a book by a cancel, by a prune, or when its owner posts. A prune works through the
orders it has collected, and a post takes out a whole batch at once. In the end the book and the margin
accounts are the same.
-/

namespace Polyleverage

open Machine

variable {rt : Runtime} {inv : rt.Invocation} {s s' t : Ledger} {inst : InstrumentConfig} {instrument : Pubkey} {u : Unit}

/-- The two ledgers hold the same accounts. -/
def Ledger.Alike (s t : Ledger) : Prop := ∀ k, s.get k = t.get k

/-- The slot of an intent, the intent, its trader, and what it reserves. -/
abbrev Removal := ℕ × IntentNode × Pubkey × ℕ

variable {e : Removal} {work : List Removal} {now : ℕ}

section Specification

variable (rt inst)

/-- The margin account that a removal refunds. -/
def refundAddress (e : Removal) : Pubkey := rt.address (.margin e.2.2.1 inst.collateralMint)

/-- An intent leaves the book, and what it reserved is freed. -/
def Withdrawn (e : Removal) (s t : Ledger) : Prop :=
  ∃ b b' m m', s.get inst.intentBook = ⟨rt.programId, .intentBook b⟩ ∧
    s.get (refundAddress rt inst e) = ⟨rt.programId, .marginAccount m⟩ ∧
    (Book.cancel e.2.1.side e.1 e.2.1.ownerSeat).run b = .ok () b' ∧
    (MarginAccount.moveReservedToFree e.2.2.2).run m = .ok () m' ∧
    t = (s.setData inst.intentBook (.intentBook b')).setData (refundAddress rt inst e) (.marginAccount m')

def WithdrawnAll : List Removal → Ledger → Ledger → Prop
  | [], s, t => s = t
  | e :: work, s, t => ∃ v, Withdrawn rt inst e s v ∧ WithdrawnAll work v t

/-- The call cancels this intent, by whoever signs, not before the slot `now`. -/
structure Cancels (instrument : Pubkey) (now : ℕ) (e : Removal) (c : Call rt) : Prop where
  instruction : ∃ id, c.instruction = .cancelIntent id ∧ id.toNat = e.2.1.id
  accounts : ∃ caller rest, c.inv.accounts = caller :: instrument :: inst.intentBook :: refundAddress rt inst e :: rest ∧
    c.inv.isSigner caller = true
  writable : c.inv.isWritable inst.intentBook = true ∧ c.inv.isWritable (refundAddress rt inst e) = true
  later : now ≤ c.inv.slot

/-- Each of the calls returns, one after the other. -/
def AllReturn : List (Call rt) → Ledger → Prop
  | [], _ => True
  | c :: calls, s => c.returns s = true ∧ AllReturn calls (execute rt c s)

end Specification

/-! ### Cancelling -/

/-- The accounts of an instrument and its book, from which these intents may be removed. -/
structure Pending (rt : Runtime) (inst : InstrumentConfig) (instrument : Pubkey) (now : ℕ) (work : List Removal) (s : Ledger) :
    Prop where
  genuine : Genuine rt s
  founded : BookAt rt Founded inst.intentBook s
  listed : s.get instrument = ⟨rt.programId, .instrumentConfig inst⟩
  held : ∃ b, s.get inst.intentBook = ⟨rt.programId, .intentBook b⟩ ∧ Measured b work
  expired : ∀ e ∈ work, e.2.1.expirationSlot ≤ now

/-- A cancel does what it says. -/
theorem cancel_iff {c : Call rt} (pending : Pending rt inst instrument now (e :: work) s) (cancels : Cancels rt inst instrument now e c) :
    (process rt c.inv c.instruction).run s = .ok u t ↔ Withdrawn rt inst e s t := by
  obtain ⟨b, held, measured⟩ := pending.held
  obtain ⟨placed, seated, sum⟩ := measured.1 e.1 e.2.1 e.2.2.1 e.2.2.2 List.mem_cons_self
  have consistent := (pending.founded b held).2.consistent
  obtain ⟨l, found⟩ := slot_of_order placed
  have slot : b.nodes[e.1]? = some (.intent (e.2.1.withLinks l)) := found
  obtain ⟨id, instruction, named⟩ := cancels.instruction
  obtain ⟨caller, rest, accounts, signed⟩ := cancels.accounts
  have authorized : authorizeCaller caller c.inv.slot e.2.2.1 (e.2.1.withLinks l) = .ok () := by
    have expired : e.2.1.expirationSlot ≤ now := pending.expired e List.mem_cons_self
    have later := cancels.later
    have gone : ¬ (caller ≠ e.2.2.1 ∧ c.inv.slot < e.2.1.expirationSlot) := by omega
    exact if_neg gone
  have cancel {t : Ledger} (owned : s.owner (refundAddress rt inst e) = rt.programId) :=
    cancelIntent_eq_ok (u := u) (t := t) pending.genuine (data_of_get pending.listed) held consistent slot seated authorized rfl owned
      cancels.writable.1 cancels.writable.2
  have id_eq : (e.2.1.withLinks l).id = id.toNat := named.symm
  have total_eq : (e.2.1.withLinks l).reservedCollateral + (e.2.1.withLinks l).feeBuffer = e.2.2.2 := sum
  rw [id_eq, total_eq] at cancel
  rw [instruction]
  simp only [process, processCancelIntent, accounts, Exec.bind_check, exists_const, signed, cancels.writable, true_and]
  constructor
  · rintro ⟨owned, ran⟩
    have owned' := owned (refundAddress rt inst e) (by simp)
    obtain ⟨b', m, m', found, cancelled, freed, rfl⟩ := (cancel owned').mp ran
    exact ⟨b, b', m, m', held, get_eq_of_data owned' found, cancelled, freed, rfl⟩
  · rintro ⟨b0, b', m, m', held0, found, cancelled, freed, rfl⟩
    rw [held] at held0
    cases held0
    refine ⟨?_, (cancel (owner_of_get found)).mpr ⟨b', m, m', data_of_get found, cancelled, freed, rfl⟩⟩
    simp [owner_of_get pending.listed, owner_of_get held, owner_of_get found]

/-- After a cancel the other intents are still there to be removed. -/
theorem Pending.tail {c : Call rt} (pending : Pending rt inst instrument now (e :: work) s)
    (cancels : Cancels rt inst instrument now e c) (withdrawn : Withdrawn rt inst e s t) :
    Pending rt inst instrument now work t := by
  have ran : (process rt c.inv c.instruction).run s = .ok () t := (cancel_iff pending cancels).mpr withdrawn
  obtain ⟨b, b', m, m', held, found, cancelled, -, rfl⟩ := withdrawn
  obtain ⟨b0, held0, measured⟩ := pending.held
  rw [held] at held0
  cases held0
  obtain ⟨placed, -, -⟩ := measured.1 e.1 e.2.1 e.2.2.1 e.2.2.2 List.mem_cons_self
  obtain ⟨l, slot⟩ := slot_of_order placed
  have slot' : b.nodes[e.1]? = some (.intent (e.2.1.withLinks l)) := slot
  obtain ⟨-, view⟩ := Book.cancel_ok (pending.founded b held).2.consistent.tidy slot' cancelled
  have other : inst.intentBook ≠ refundAddress rt inst e := book_ne_margin held found
  refine ⟨(upkeep_process pending.genuine ran).genuine, ?_, ?_, ⟨b', ?_, measured.tail view⟩, fun e' member =>
    pending.expired e' (List.mem_cons_of_mem e member)⟩
  · apply (bookInvariant_founded rt).process pending.genuine pending.founded ran (fun _ => id)
    rintro ⟨count, grows, -⟩
    obtain ⟨id, instruction, -⟩ := cancels.instruction
    rw [instruction] at grows
    cases grows
  · rw [Ledger.get_setData_of_ne, Ledger.get_setData_of_ne, pending.listed]
    · intro same
      have listed := pending.listed
      rw [same, held] at listed
      cases listed
    · intro same
      have listed := pending.listed
      rw [same, found] at listed
      cases listed
  · rw [Ledger.get_setData_of_ne _ _ other, Ledger.get_setData_self, owner_of_get held]

/-- Cancels that all return take out their intents. -/
theorem allReturn_iff {calls : List (Call rt)} (matched : List.Forall₂ (Cancels rt inst instrument now) work calls)
    (pending : Pending rt inst instrument now work s) :
    AllReturn rt calls s ∧ runCalls rt calls s = t ↔ WithdrawnAll rt inst work s t := by
  induction matched generalizing s with
  | nil => simp [AllReturn, WithdrawnAll]
  | @cons e c work calls cancels matched ih =>
    rw [AllReturn, WithdrawnAll, runCalls_cons]
    constructor
    · rintro ⟨⟨returns, later⟩, same⟩
      have withdrawn : Withdrawn rt inst e s (execute rt c s) := (cancel_iff pending cancels).mp (c.ran returns)
      exact ⟨_, withdrawn, (ih (pending.tail cancels withdrawn)).mp ⟨later, same⟩⟩
    · rintro ⟨v, withdrawn, rest⟩
      have ran : (process rt c.inv c.instruction).run s = .ok () v := (cancel_iff pending cancels).mpr withdrawn
      have after : execute rt c s = v := execute_of_ran ran
      obtain ⟨later, same⟩ := (ih (pending.tail cancels withdrawn)).mpr rest
      rw [after]
      exact ⟨⟨Call.returns_of_ran ran, later⟩, same⟩

/-! ### Pruning -/

/-- The first of the margin accounts is taken when it is the trader's. -/
theorem findMargin_head {trader mint k : Pubkey} {rest : List Pubkey} {found : Pubkey × List Pubkey}
    (address : rt.address (.margin trader mint) = k)
    (identity : ∀ m, s.get k = ⟨rt.programId, .marginAccount m⟩ → m.owner = trader ∧ m.collateralMint = mint) :
    (findMargin rt trader mint (k :: rest)).run s = .ok found t ↔
      (∃ m, s.get k = ⟨rt.programId, .marginAccount m⟩) ∧ (k, rest) = found ∧ s = t := by
  simp only [findMargin, Exec.bind_check, exists_const, List.mem_singleton, forall_eq]
  constructor
  · rintro ⟨owned, m, held, ran⟩
    have at_margin := get_eq_of_data owned held
    rw [if_pos (identity m at_margin)] at ran
    simp only [Exec.bind_check, Exec.pure_ok] at ran
    obtain ⟨_, -, same⟩ := ran
    exact ⟨⟨m, at_margin⟩, same⟩
  · rintro ⟨⟨m, at_margin⟩, same⟩
    refine ⟨owner_of_get at_margin, m, data_of_get at_margin, ?_⟩
    rw [if_pos (identity m at_margin)]
    simp only [Exec.bind_check, Exec.pure_ok]
    exact ⟨_, ⟨address, rfl⟩, same⟩

/-- A prune refunds the first intent and takes it out, and goes on. -/
theorem pruneAll_eq_ok {b : IntentBook} {idx total : ℕ} {node node' : IntentNode} {trader book mint k : Pubkey} {rest : List Pubkey}
    (held : s.get book = ⟨rt.programId, .intentBook b⟩) (slot : b.nodes[idx]? = some (.intent node'))
    (seat : node'.ownerSeat = node.ownerSeat) (address : rt.address (.margin trader mint) = k)
    (identity : ∀ m, s.get k = ⟨rt.programId, .marginAccount m⟩ → m.owner = trader ∧ m.collateralMint = mint)
    (writable : inv.isWritable book = true) (writable' : inv.isWritable k = true) :
    (pruneAll rt inv book mint ((idx, node, trader, total) :: work) (k :: rest)).run s = .ok u t ↔
      ∃ b' m m', s.get k = ⟨rt.programId, .marginAccount m⟩ ∧ (Book.cancel node.side idx node.ownerSeat).run b = .ok () b' ∧
        (MarginAccount.moveReservedToFree total).run m = .ok () m' ∧
        (pruneAll rt inv book mint work rest).run ((s.setData k (.marginAccount m')).setData book (.intentBook b')) = .ok u t := by
  have read : (Exec.gets (IntentBook.intent · idx)).run b = .ok node' b := Exec.gets_ok.mpr ⟨IntentBook.intent_eq_ok.mpr slot, rfl⟩
  have pruned : (pruneSlot idx node.side).run b = (Book.cancel node.side idx node.ownerSeat).run b := by
    rw [pruneSlot, Exec.run_bind_of_ok read, seat]
  rw [pruneAll, Exec.bind_ok]
  constructor
  · rintro ⟨_, _, found, ran⟩
    obtain ⟨⟨m, at_margin⟩, rfl, rfl⟩ := (findMargin_head address identity).mp found
    simp only [Exec.bind_ok] at ran
    obtain ⟨_, s1, refunded, _, s2, taken, ran⟩ := ran
    obtain ⟨x, m', at_margin', freed, rfl⟩ := (atAccount_eq_ok writable' (owner_of_get at_margin)).mp refunded
    rw [data_of_get at_margin, AccountData.loadMargin_ok] at at_margin'
    cases at_margin'
    obtain ⟨x, b', at_book, inner, rfl⟩ := (atAccount_eq_ok writable (by rw [Ledger.owner_setData, owner_of_get held])).mp taken
    rw [Ledger.data_setData_of_ne _ _ (book_ne_margin held at_margin), data_of_get held, AccountData.loadBook_ok] at at_book
    cases at_book
    rw [pruned] at inner
    exact ⟨b', m, m', at_margin, inner, freed, ran⟩
  · rintro ⟨b', m, m', at_margin, inner, freed, ran⟩
    have found : AccountData.loadMargin (s.data k) = .ok m := AccountData.loadMargin_ok.mpr (data_of_get at_margin)
    have at_book : AccountData.loadBook ((s.setData k (.marginAccount m')).data book) = .ok b := by
      rw [Ledger.data_setData_of_ne _ _ (book_ne_margin held at_margin), AccountData.loadBook_ok, data_of_get held]
    have refunded : (atMargin rt inv k (MarginAccount.moveReservedToFree total)).run s = .ok () (s.setData k (.marginAccount m')) :=
      run_atAccount writable' (owner_of_get at_margin) found freed
    have taken : (atBook rt inv book (pruneSlot idx node.side)).run (s.setData k (.marginAccount m')) =
        .ok () ((s.setData k (.marginAccount m')).setData book (.intentBook b')) :=
      run_atAccount writable (by rw [Ledger.owner_setData, owner_of_get held]) at_book (pruned.trans inner)
    refine ⟨(k, rest), s, (findMargin_head address identity).mpr ⟨⟨m, at_margin⟩, rfl, rfl⟩, ?_⟩
    rw [Exec.run_bind_of_ok refunded, Exec.run_bind_of_ok taken, ran]

/-- The order of the two writes is not seen. -/
theorem Ledger.Alike.withdraw {j k : Pubkey} {d d' : AccountData} (alike : s.Alike s') (other : j ≠ k) :
    ((s.setData j d).setData k d').Alike ((s'.setData k d').setData j d) := by
  intro i
  have owners : ∀ k, s.owner k = s'.owner k := fun k => congrArg Account.owner (alike k)
  by_cases at_k : i = k
  · subst at_k
    rw [Ledger.get_setData_self, Ledger.owner_setData, Ledger.get_setData_of_ne _ _ other.symm, Ledger.get_setData_self, owners]
  · rw [Ledger.get_setData_of_ne _ _ at_k]
    by_cases at_j : i = j
    · subst at_j
      rw [Ledger.get_setData_self, Ledger.get_setData_self, Ledger.owner_setData, owners]
    · rw [Ledger.get_setData_of_ne _ _ at_j, Ledger.get_setData_of_ne _ _ at_j, Ledger.get_setData_of_ne _ _ at_k]
      exact alike i

/-- A prune takes out what the cancels take out. -/
theorem pruneAll_iff {calls : List (Call rt)} (spare : List Pubkey)
    (matched : List.Forall₂ (Cancels rt inst instrument now) work calls) (pending : Pending rt inst instrument now work s)
    (alike : s.Alike s') (writable : inv.isWritable inst.intentBook = true)
    (writable' : ∀ e ∈ work, inv.isWritable (refundAddress rt inst e) = true) :
    (∀ t', (pruneAll rt inv inst.intentBook inst.collateralMint work (work.map (refundAddress rt inst) ++ spare)).run s' = .ok u t' →
      ∃ t, WithdrawnAll rt inst work s t ∧ t.Alike t') ∧
    ∀ t, WithdrawnAll rt inst work s t →
      ∃ t', (pruneAll rt inv inst.intentBook inst.collateralMint work (work.map (refundAddress rt inst) ++ spare)).run s' = .ok u t' := by
  induction matched generalizing s s' with
  | nil =>
    refine ⟨fun t' ran => ⟨s, rfl, ?_⟩, fun t same => ⟨s', rfl⟩⟩
    cases ran
    exact alike
  | @cons e c work calls cancels matched ih =>
    obtain ⟨b, held, measured⟩ := pending.held
    obtain ⟨placed, -, -⟩ := measured.1 e.1 e.2.1 e.2.2.1 e.2.2.2 List.mem_cons_self
    obtain ⟨l, slot⟩ := slot_of_order placed
    have slot' : b.nodes[e.1]? = some (.intent (e.2.1.withLinks l)) := slot
    have writableE : inv.isWritable (refundAddress rt inst e) = true := writable' e List.mem_cons_self
    have held' : s'.get inst.intentBook = ⟨rt.programId, .intentBook b⟩ := alike inst.intentBook ▸ held
    have identity : ∀ m, s'.get (refundAddress rt inst e) = ⟨rt.programId, .marginAccount m⟩ →
        m.owner = e.2.2.1 ∧ m.collateralMint = inst.collateralMint := by
      intro m at_margin
      rw [← alike] at at_margin
      exact pending.genuine.margin_identity rfl (owner_of_get at_margin) (data_of_get at_margin)
    have step (t' : Ledger) : (pruneAll rt inv inst.intentBook inst.collateralMint (e :: work)
        (refundAddress rt inst e :: (work.map (refundAddress rt inst) ++ spare))).run s' = .ok u t' ↔ _ :=
      pruneAll_eq_ok held' slot' rfl rfl identity writable writableE
    constructor
    · intro t' ran
      obtain ⟨b', m, m', at_margin, cancelled, freed, ran⟩ := (step t').mp ran
      rw [← alike] at at_margin
      have other : inst.intentBook ≠ refundAddress rt inst e := book_ne_margin held at_margin
      have withdrawn : Withdrawn rt inst e s _ := ⟨b, b', m, m', held, at_margin, cancelled, freed, rfl⟩
      obtain ⟨t, rest, same⟩ := (ih (pending.tail cancels withdrawn) (alike.withdraw other)
        fun e' member => writable' e' (List.mem_cons_of_mem e member)).1 t' ran
      exact ⟨t, ⟨_, withdrawn, rest⟩, same⟩
    · rintro t ⟨v, withdrawn, rest⟩
      have pending' := pending.tail cancels withdrawn
      obtain ⟨b0, b', m, m', held0, at_margin, cancelled, freed, rfl⟩ := withdrawn
      rw [held] at held0
      cases held0
      have other : inst.intentBook ≠ refundAddress rt inst e := book_ne_margin held at_margin
      obtain ⟨t', ran⟩ := (ih pending' (alike.withdraw other)
        fun e' member => writable' e' (List.mem_cons_of_mem e member)).2 t rest
      exact ⟨t', (step t').mpr ⟨b', m, m', alike _ ▸ at_margin, cancelled, freed, ran⟩⟩

section Specification

variable (rt inst)

/-- The call prunes these intents of the book, with the margin accounts of their traders in the same order. -/
structure Prunes (instrument : Pubkey) (b : IntentBook) (work : List Removal) (c : Call rt) : Prop where
  instruction : c.instruction = .pruneExpired
  accounts : ∃ caller spare,
    c.inv.accounts = caller :: instrument :: inst.intentBook :: (work.map (refundAddress rt inst) ++ spare) ∧
      c.inv.isSigner caller = true
  writable : c.inv.isWritable inst.intentBook = true ∧ ∀ e ∈ work, c.inv.isWritable (refundAddress rt inst e) = true
  selects : Book.scanIntents (isExpired c.inv.slot) (measureExpired b) (c.inv.accounts.length - 3) 0 b.nodes = .ok work

/-- The call posts for this owner, who has these expired intents in the book. -/
structure Posts (instrument owner : Pubkey) (b : IntentBook) (work : List Removal) (c : Call rt) : Prop where
  instruction : ∃ args, c.instruction = .postIntent args
  accounts : ∃ config margin rest, c.inv.accounts = owner :: config :: instrument :: inst.intentBook :: margin :: rest
  finds : Book.scanIntents (Book.isExpiredOf b owner c.inv.slot) (measureExpired b) b.nodes.length 0 b.nodes = .ok work
  few : work.length ≤ Book.MAX_PRUNES_PER_POST

end Specification

/-- What a scan selects is expired. -/
theorem expired_of_scan {b : IntentBook} {pick : IntentNode → Bool} {limit : ℕ}
    (expires : ∀ node, pick node = true → isExpired now node = true)
    (scanned : Book.scanIntents pick (measureExpired b) limit 0 b.nodes = .ok work) : ∀ e ∈ work, e.2.1.expirationSlot ≤ now := by
  rintro ⟨idx, node, trader, total⟩ member
  obtain ⟨-, -, picked, -⟩ := (Book.scanIntents_ok scanned).1 idx node _ member
  have expired := expires node picked
  simp only [isExpired, decide_eq_true_eq] at expired
  exact expired.2

/-- Once the work is found, a prune is what it does to the work. -/
theorem prune_iff {b : IntentBook} {c : Call rt} (listed : s.get instrument = ⟨rt.programId, .instrumentConfig inst⟩)
    (held : s.get inst.intentBook = ⟨rt.programId, .intentBook b⟩) (prunes : Prunes rt inst instrument b work c) :
    ∃ spare, ∀ t, (process rt c.inv c.instruction).run s = .ok u t ↔
      (pruneAll rt c.inv inst.intentBook inst.collateralMint work (work.map (refundAddress rt inst) ++ spare)).run s = .ok u t := by
  obtain ⟨caller, spare, accounts, signed⟩ := prunes.accounts
  have selects := prunes.selects
  have count : c.inv.accounts.length - 3 = (work.map (refundAddress rt inst) ++ spare).length := by
    rw [accounts]
    simp
  rw [count] at selects
  refine ⟨spare, fun t => ?_⟩
  rw [prunes.instruction]
  simp only [process, processPruneExpired, accounts, Exec.bind_check, exists_const, signed, prunes.writable.1, true_and,
    data_of_get listed, data_of_get held, AccountData.instrumentConfig.injEq, AccountData.intentBook.injEq, exists_eq_left',
    ne_eq, not_not, selects, Except.ok.injEq]
  simp [owner_of_get listed, owner_of_get held]

/-! ### Posting -/

/-- A batch of one owner's intents leaves the book, and what it reserved is freed. -/
theorem withdrawnAll_iff {owner margin : Pubkey} (address : rt.address (.margin owner inst.collateralMint) = margin)
    (mine : ∀ e' ∈ e :: work, e'.2.2.1 = owner) :
    WithdrawnAll rt inst (e :: work) s t ↔
      ∃ b b' m m', s.get inst.intentBook = ⟨rt.programId, .intentBook b⟩ ∧ s.get margin = ⟨rt.programId, .marginAccount m⟩ ∧
        (Book.cancelEach (e :: work)).run b = .ok () b' ∧
        (MarginAccount.freeEach ((e :: work).map fun e => e.2.2.2)).run m = .ok () m' ∧
        t = (s.setData inst.intentBook (.intentBook b')).setData margin (.marginAccount m') := by
  have here {e : Removal} (own : e.2.2.1 = owner) : refundAddress rt inst e = margin := by
    rw [refundAddress, own, address]
  have cons (e : Removal) (work : List Removal) : Book.cancelEach (e :: work) =
      (Book.cancel e.2.1.side e.1 e.2.1.ownerSeat >>= fun _ => Book.cancelEach work) := rfl
  induction work generalizing e s with
  | nil =>
    have own := here (mine e List.mem_cons_self)
    constructor
    · rintro ⟨_, ⟨b, b', m, m', held, at_margin, cancelled, freed, rfl⟩, rfl⟩
      rw [own] at at_margin ⊢
      refine ⟨b, b', m, m', held, at_margin, ?_, ?_, rfl⟩
      · rw [cons, Exec.run_bind_of_ok cancelled]
        rfl
      · rw [List.map_cons, MarginAccount.freeEach, Exec.run_bind_of_ok freed]
        rfl
    · rintro ⟨b, b', m, m', held, at_margin, cancelled, freed, rfl⟩
      rw [cons, Exec.bind_ok] at cancelled
      obtain ⟨_, _, cancelled, done⟩ := cancelled
      cases done
      rw [List.map_cons, MarginAccount.freeEach, Exec.bind_ok] at freed
      obtain ⟨_, _, freed, done⟩ := freed
      cases done
      rw [← own] at at_margin
      refine ⟨_, ⟨b, b', m, m', held, at_margin, cancelled, freed, rfl⟩, ?_⟩
      rw [own, WithdrawnAll]
  | cons next work ih =>
    have own := here (mine e List.mem_cons_self)
    have later {v : Ledger} := ih (s := v) (e := next) fun e' member => mine e' (List.mem_cons_of_mem e member)
    rw [WithdrawnAll]
    constructor
    · rintro ⟨_, ⟨b, b1, m, m1, held, at_margin, cancelled, freed, rfl⟩, rest⟩
      rw [own] at at_margin rest
      have apart := book_ne_margin held at_margin
      obtain ⟨b1', b', m1', m', held1, at_margin1, cancelled', freed', rfl⟩ := later.mp rest
      rw [Ledger.get_setData_of_ne _ _ apart, Ledger.get_setData_self] at held1
      rw [Ledger.get_setData_self] at at_margin1
      cases congrArg Account.data held1
      cases congrArg Account.data at_margin1
      refine ⟨b, b', m, m', held, at_margin, ?_, ?_, ?_⟩
      · rw [cons, Exec.run_bind_of_ok cancelled, cancelled']
      · rw [List.map_cons, MarginAccount.freeEach, Exec.run_bind_of_ok freed, freed']
      · rw [Ledger.setData_between _ _ _ _ apart, Ledger.setData_between _ _ _ _ apart.symm]
    · rintro ⟨b, b', m, m', held, at_margin, cancelled, freed, rfl⟩
      have apart := book_ne_margin held at_margin
      rw [cons, Exec.bind_ok] at cancelled
      obtain ⟨_, b1, cancelled, cancelled'⟩ := cancelled
      rw [List.map_cons, MarginAccount.freeEach, Exec.bind_ok] at freed
      obtain ⟨_, m1, freed, freed'⟩ := freed
      refine ⟨_, ⟨b, b1, m, m1, held, own ▸ at_margin, cancelled, freed, rfl⟩, ?_⟩
      rw [own]
      refine later.mpr ⟨b1, b', m1, m', ?_, ?_, cancelled', freed', ?_⟩
      · rw [Ledger.get_setData_of_ne _ _ apart, Ledger.get_setData_self, owner_of_get held]
      · rw [Ledger.get_setData_self, Ledger.owner_setData, owner_of_get at_margin]
      · rw [Ledger.setData_between _ _ _ _ apart, Ledger.setData_between _ _ _ _ apart.symm]

/-- The part of a post that writes. -/
def writePost (rt : Runtime) (inv : rt.Invocation) (ctx : PostCtx) (mint : Pubkey) (bump reserve : ℕ) (d : Book.Draft) : LedgerM ℕ := do
  let refund ← atBook rt inv ctx.book (Book.pruneOwnExpired ctx.owner inv.slot)
  atMargin rt inv ctx.margin (reserveForPost ctx.owner mint bump refund reserve)
  atBook rt inv ctx.book (Book.post ctx.owner d)

theorem writePost_eq_ok {ctx : PostCtx} {mint : Pubkey} {bump reserve id : ℕ} {d : Book.Draft} {b : IntentBook} {m : MarginAccount}
    (held : s.get ctx.book = ⟨rt.programId, .intentBook b⟩) (held' : s.get ctx.margin = ⟨rt.programId, .marginAccount m⟩)
    (writable : inv.isWritable ctx.book = true) (writable' : inv.isWritable ctx.margin = true) :
    (writePost rt inv ctx mint bump reserve d).run s = .ok id t ↔
      ∃ refund b1 m1 b2, (Book.pruneOwnExpired ctx.owner inv.slot).run b = .ok refund b1 ∧
        (reserveForPost ctx.owner mint bump refund reserve).run m = .ok () m1 ∧ (Book.post ctx.owner d).run b1 = .ok id b2 ∧
        t = (s.setData ctx.margin (.marginAccount m1)).setData ctx.book (.intentBook b2) := by
  have apart := book_ne_margin held held'
  have owned : ∀ {d : AccountData} {k : Pubkey}, (s.setData k d).owner ctx.margin = rt.programId := by
    intro d k
    rw [Ledger.owner_setData, owner_of_get held']
  have owned' : ∀ {d d' : AccountData} {j k : Pubkey}, ((s.setData j d).setData k d').owner ctx.book = rt.programId := by
    intro d d' j k
    rw [Ledger.owner_setData, Ledger.owner_setData, owner_of_get held]
  rw [writePost, Exec.bind_ok]
  constructor
  · rintro ⟨refund, s1, pruned, ran⟩
    obtain ⟨x, b1, found, pruned, rfl⟩ := (atAccount_eq_ok writable (owner_of_get held)).mp pruned
    rw [data_of_get held, AccountData.loadBook_ok] at found
    cases found
    rw [Exec.bind_ok] at ran
    obtain ⟨_, s2, reserved, posted⟩ := ran
    obtain ⟨x, m1, found, reserved, rfl⟩ := (atAccount_eq_ok writable' owned).mp reserved
    rw [Ledger.data_setData_of_ne _ _ apart.symm, data_of_get held', AccountData.loadMargin_ok] at found
    cases found
    obtain ⟨x, b2, found, posted, rfl⟩ := (atAccount_eq_ok writable owned').mp posted
    rw [Ledger.data_setData_of_ne _ _ apart, Ledger.data_setData_self, AccountData.loadBook_ok] at found
    cases found
    exact ⟨refund, b1, m1, b2, pruned, reserved, posted, Ledger.setData_between _ _ _ _ apart⟩
  · rintro ⟨refund, b1, m1, b2, pruned, reserved, posted, rfl⟩
    have found : AccountData.loadBook (s.data ctx.book) = .ok b := AccountData.loadBook_ok.mpr (data_of_get held)
    have found' : AccountData.loadMargin ((s.setData ctx.book (.intentBook b1)).data ctx.margin) = .ok m := by
      rw [Ledger.data_setData_of_ne _ _ apart.symm, AccountData.loadMargin_ok, data_of_get held']
    have found2 : AccountData.loadBook (((s.setData ctx.book (.intentBook b1)).setData ctx.margin (.marginAccount m1)).data ctx.book) =
        .ok b1 := by
      rw [Ledger.data_setData_of_ne _ _ apart, Ledger.data_setData_self, AccountData.loadBook_ok]
    refine ⟨refund, _, run_atAccount writable (owner_of_get held) found pruned, ?_⟩
    have second : (atMargin rt inv ctx.margin (reserveForPost ctx.owner mint bump refund reserve)).run _ = .ok () _ :=
      run_atAccount writable' owned found' reserved
    have third : (atBook rt inv ctx.book (Book.post ctx.owner d)).run _ = .ok id _ := run_atAccount writable owned' found2 posted
    rw [Exec.run_bind_of_ok second, third, Ledger.setData_between _ _ _ _ apart]

/-- A refund may be made before the rest of a post. -/
theorem reserveForPost_split {owner mint : Pubkey} {bump refund reserve : ℕ} {m m2 : MarginAccount} (some_refund : 0 < refund) :
    (reserveForPost owner mint bump refund reserve).run m = .ok u m2 ↔
      ∃ m1, (MarginAccount.moveReservedToFree refund).run m = .ok () m1 ∧
        (reserveForPost owner mint bump 0 reserve).run m1 = .ok u m2 := by
  have split (m : MarginAccount) (refund : ℕ) : (reserveForPost owner mint bump refund reserve).run m = .ok u m2 ↔
      m.requireIdentity owner mint bump = .ok () ∧
        ((Exec.when (0 < refund) (MarginAccount.moveReservedToFree refund) : MarginM Unit) >>=
          fun _ => MarginAccount.moveFreeToReserved reserve).run m = .ok u m2 := by
    rw [reserveForPost, Exec.run_bind_get, Exec.bind_ok]
    constructor
    · rintro ⟨_, _, checked, ran⟩
      obtain ⟨identified, rfl⟩ := Exec.ofExcept_ok.mp checked
      exact ⟨identified, ran⟩
    · rintro ⟨identified, ran⟩
      exact ⟨(), m, Exec.ofExcept_ok.mpr ⟨identified, rfl⟩, ran⟩
  have same {m1 : MarginAccount} (freed : (MarginAccount.moveReservedToFree refund).run m = .ok () m1) :
      m1.requireIdentity owner mint bump = m.requireIdentity owner mint bump := by
    obtain ⟨-, -, rfl⟩ := (MarginAccount.move_ok (by decide)).mp freed
    rfl
  have frees : Exec.when (0 < refund) (MarginAccount.moveReservedToFree refund) = MarginAccount.moveReservedToFree refund :=
    if_pos some_refund
  rw [split, frees, Exec.bind_ok]
  constructor
  · rintro ⟨identified, _, m1, freed, ran⟩
    exact ⟨m1, freed, (split m1 0).mpr ⟨(same freed).trans identified, ran⟩⟩
  · rintro ⟨m1, freed, ran⟩
    obtain ⟨identified, ran⟩ := (split m1 0).mp ran
    exact ⟨(same freed).symm.trans identified, (), m1, freed, ran⟩

/-- Removals leave one ledger. -/
theorem withdrawnAll_unique {t' : Ledger} (withdrawn : WithdrawnAll rt inst work s t) (withdrawn' : WithdrawnAll rt inst work s t') :
    t = t' := by
  induction work generalizing s with
  | nil => exact withdrawn.symm.trans withdrawn'
  | cons e work ih =>
    obtain ⟨v, ⟨b, b', m, m', held, at_margin, cancelled, freed, rfl⟩, rest⟩ := withdrawn
    obtain ⟨v', ⟨b0, b0', m0, m0', held0, at_margin0, cancelled0, freed0, rfl⟩, rest'⟩ := withdrawn'
    rw [held] at held0
    rw [at_margin] at at_margin0
    cases held0
    cases at_margin0
    rw [cancelled] at cancelled0
    rw [freed] at freed0
    cases cancelled0
    cases freed0
    exact ih rest rest'

/-- A post that returned has written. -/
theorem writes_of_postIntent {ctx : PostCtx} {args : PostIntentArgs} {id : ℕ} (plain : ctx.session = none)
    (ran : (postIntent rt inv ctx args).run s = .ok id t) :
    ∃ inst bump reserve d, s.data ctx.instrument = .instrumentConfig inst ∧ inv.isWritable ctx.book = true ∧
      inv.isWritable ctx.margin = true ∧ rt.address (.margin ctx.owner inst.collateralMint) = ctx.margin ∧
      (writePost rt inv ctx inst.collateralMint bump reserve d).run s = .ok id t := by
  simp only [postIntent, plain, Exec.bind_check, exists_const] at ran
  obtain ⟨writable, writable', -, -, -, -, inst, found, -, -, bump, address, -, -, -, -, collateral, -, -, -, buffer, -, total, -,
    ran⟩ := ran
  exact ⟨inst, bump, total, args.draft collateral buffer, found, writable, writable', address.1, ran⟩

/-- Ledgers that differ in a book and a margin account, and not in what a post checks of these. -/
structure Twins (book margin : Pubkey) (s t : Ledger) : Prop where
  owners : ∀ k, t.owner k = s.owner k
  others : ∀ k, k ≠ book → k ≠ margin → t.data k = s.data k
  books : ∃ b b', s.data book = .intentBook b ∧ t.data book = .intentBook b' ∧ b'.header.cachedMaxFeeBps = b.header.cachedMaxFeeBps
  margins : ∃ m m', s.data margin = .marginAccount m ∧ t.data margin = .marginAccount m'

theorem Twins.symm {book margin : Pubkey} (twins : Twins book margin s t) : Twins book margin t s where
  owners k := (twins.owners k).symm
  others k notBook notMargin := (twins.others k notBook notMargin).symm
  books := by
    obtain ⟨b, b', held, held', same⟩ := twins.books
    exact ⟨b', b, held', held, same.symm⟩
  margins := by
    obtain ⟨m, m', held, held'⟩ := twins.margins
    exact ⟨m', m, held', held⟩

/-- The checks of a post do not tell twins apart. -/
theorem Twins.postIntent {ctx : PostCtx} {args : PostIntentArgs} {id : ℕ} {v : Ledger} (twins : Twins ctx.book ctx.margin s t)
    (plain : ctx.session = none)
    (writes : ∀ inst bump reserve d, s.data ctx.instrument = .instrumentConfig inst → inv.isWritable ctx.book = true →
      inv.isWritable ctx.margin = true → rt.address (.margin ctx.owner inst.collateralMint) = ctx.margin →
      (writePost rt inv ctx inst.collateralMint bump reserve d).run s = .ok id v →
      (writePost rt inv ctx inst.collateralMint bump reserve d).run t = .ok id v)
    (ran : (postIntent rt inv ctx args).run s = .ok id v) : (postIntent rt inv ctx args).run t = .ok id v := by
  obtain ⟨b, b', held, held', fee⟩ := twins.books
  obtain ⟨m, m', at_margin, at_margin'⟩ := twins.margins
  have kept {k : Pubkey} {d : AccountData} (found : s.data k = d) (notBook : ∀ b, d ≠ .intentBook b)
      (notMargin : ∀ m, d ≠ .marginAccount m) : t.data k = d := by
    rw [← found]
    apply twins.others
    · rintro rfl
      exact notBook b (found.symm.trans held)
    · rintro rfl
      exact notMargin m (found.symm.trans at_margin)
  simp only [Polyleverage.postIntent, plain, Exec.bind_check, exists_const] at ran ⊢
  obtain ⟨writable, writable', owned, cfg, config, unpaused, inst, found, active, at_book, bump, address, side, contracts, priced,
    unexpired, collateral, collateral_eq, b0, held0, buffer, buffer_eq, total, total_eq, ran⟩ := ran
  rw [held, AccountData.intentBook.injEq] at held0
  subst held0
  refine ⟨writable, writable', fun k member => (twins.owners k).trans (owned k member), cfg, kept config (by simp) (by simp), unpaused,
    inst, kept found (by simp) (by simp), active, at_book, bump, address, side, contracts, priced, unexpired, collateral, collateral_eq,
    b', held', buffer, by rwa [fee], total, total_eq, ?_⟩
  exact writes inst bump total _ found writable writable' address.1 ran

section Batch

variable {ctx : PostCtx} {b : IntentBook} (tidy : Tidy b) (held : s.get inst.intentBook = ⟨rt.programId, .intentBook b⟩)
  (at_book : inst.intentBook = ctx.book) (address : rt.address (.margin ctx.owner inst.collateralMint) = ctx.margin)
  (finds : Book.scanIntents (Book.isExpiredOf b ctx.owner inv.slot) (measureExpired b) b.nodes.length 0 b.nodes = .ok (e :: work))

include tidy held at_book address finds

/-- What a post takes out is what it would not find if it was gone, and it is gone in a twin. -/
theorem twins_of_withdrawn (withdrawn : WithdrawnAll rt inst (e :: work) s t) : Twins ctx.book ctx.margin s t := by
  have mine : ∀ e' ∈ e :: work, e'.2.2.1 = ctx.owner := fun e' member => (Book.trader_of_scan finds member).2
  obtain ⟨b0, b', m, m', held0, at_margin, cancelled, -, rfl⟩ := (withdrawnAll_iff address mine).mp withdrawn
  rw [held] at held0
  cases held0
  obtain ⟨b1, ran, -, view⟩ := Book.run_cancelEach tidy (measured_of_scan finds)
  rw [cancelled] at ran
  cases ran
  have apart := book_ne_margin held at_margin
  rw [at_book] at held apart ⊢
  refine ⟨fun k => ?_, fun k notBook notMargin => ?_, ⟨b, b', data_of_get held, ?_, ?_⟩, ⟨m, m', data_of_get at_margin, ?_⟩⟩
  · rw [Ledger.owner_setData, Ledger.owner_setData]
  · rw [Ledger.data_setData_of_ne _ _ notMargin, Ledger.data_setData_of_ne _ _ notBook]
  · rw [Ledger.data_setData_of_ne _ _ apart, Ledger.data_setData_self]
  · exact congrArg (fun v : BookView => v.header.cachedMaxFeeBps) view
  · rw [Ledger.data_setData_self]

variable {mint : Pubkey} {bump reserve id : ℕ} {d : Book.Draft} {v : Ledger} (positive : 0 < e.2.2.2)
  (few : (e :: work).length ≤ Book.MAX_PRUNES_PER_POST) (writable : inv.isWritable ctx.book = true)
  (writable' : inv.isWritable ctx.margin = true)

include positive few writable writable'

/-- A post prunes its batch as if each intent had been cancelled before. -/
theorem writePost_iff {m : MarginAccount} (at_margin : s.get ctx.margin = ⟨rt.programId, .marginAccount m⟩) :
    (writePost rt inv ctx mint bump reserve d).run s = .ok id v ↔
      ∃ t, WithdrawnAll rt inst (e :: work) s t ∧ (writePost rt inv ctx mint bump reserve d).run t = .ok id v := by
  have mine : ∀ e' ∈ e :: work, e'.2.2.1 = ctx.owner := fun e' member => (Book.trader_of_scan finds member).2
  obtain ⟨b', each, again, inverse, forward⟩ := Book.run_pruneOwnExpired tidy finds few (List.cons_ne_nil e work)
  have some_refund : 0 < Book.released (e :: work) := by
    simp only [Book.released, List.map_cons, List.sum_cons]
    omega
  have lump {m' : MarginAccount} : (MarginAccount.freeEach ((e :: work).map fun e => e.2.2.2)).run m = .ok () m' ↔
      (MarginAccount.moveReservedToFree (Book.released (e :: work))).run m = .ok () m' := by
    rw [List.map_cons, MarginAccount.freeEach_ok, Book.released, List.map_cons, List.sum_cons]
  have held' : s.get ctx.book = ⟨rt.programId, .intentBook b⟩ := at_book ▸ held
  have apart := book_ne_margin held' at_margin
  have book_after {m' : MarginAccount} : ((s.setData ctx.book (.intentBook b')).setData ctx.margin (.marginAccount m')).get ctx.book =
      ⟨rt.programId, .intentBook b'⟩ := by
    rw [Ledger.get_setData_of_ne _ _ apart, Ledger.get_setData_self, owner_of_get held']
  have margin_after {m' : MarginAccount} : ((s.setData ctx.book (.intentBook b')).setData ctx.margin (.marginAccount m')).get ctx.margin =
      ⟨rt.programId, .marginAccount m'⟩ := by
    rw [Ledger.get_setData_self, Ledger.owner_setData, owner_of_get at_margin]
  have same {m' m1 : MarginAccount} {b2 : IntentBook} :
      (((s.setData ctx.book (.intentBook b')).setData ctx.margin (.marginAccount m')).setData ctx.margin (.marginAccount m1)).setData
        ctx.book (.intentBook b2) = (s.setData ctx.margin (.marginAccount m1)).setData ctx.book (.intentBook b2) := by
    rw [Ledger.setData_setData, Ledger.setData_between _ _ _ _ apart]
  rw [writePost_eq_ok held' at_margin writable writable']
  constructor
  · rintro ⟨refund, b1, m1, b2, pruned, reserved, posted, rfl⟩
    obtain ⟨rfl, rfl⟩ := inverse refund b1 pruned
    obtain ⟨m', freed, reserved'⟩ := (reserveForPost_split some_refund).mp reserved
    refine ⟨_, (withdrawnAll_iff address mine).mpr ⟨b, b1, m, m', held, at_margin, each, lump.mpr freed, rfl⟩, ?_⟩
    rw [at_book]
    exact (writePost_eq_ok book_after margin_after writable writable').mpr ⟨0, b1, m1, b2, again, reserved', posted, same.symm⟩
  · rintro ⟨t, withdrawn, ran⟩
    obtain ⟨b0, b0', m0, m', held0, at_margin0, cancelled, freed, rfl⟩ := (withdrawnAll_iff address mine).mp withdrawn
    rw [held] at held0
    rw [at_margin] at at_margin0
    cases held0
    cases at_margin0
    rw [each] at cancelled
    cases cancelled
    rw [at_book, writePost_eq_ok book_after margin_after writable writable'] at ran
    obtain ⟨refund, b1, m1, b2, pruned, reserved, posted, rfl⟩ := ran
    rw [again] at pruned
    cases pruned
    have freed' := lump.mp freed
    have small : Book.released (e :: work) < 2 ^ 64 := by
      have := ((MarginAccount.move_ok (by decide)).mp freed').2.1
      omega
    exact ⟨_, b', m1, b2, forward small, (reserveForPost_split some_refund).mpr ⟨m', freed', reserved⟩, posted, same⟩

end Batch

/-- What a call that posts does, once its checks are through. -/
theorem post_iff {c : Call rt} {args : PostIntentArgs} {owner config book margin : Pubkey} {rest : List Pubkey}
    (instruction : c.instruction = .postIntent args)
    (accounts : c.inv.accounts = owner :: config :: instrument :: book :: margin :: rest) :
    (process rt c.inv c.instruction).run s = .ok u t ↔ c.inv.isSigner owner = true ∧ ∃ id v,
      (postIntent rt c.inv ⟨owner, owner, config, instrument, book, margin, none, 5⟩ args).run s = .ok id v ∧
        (Exec.when (args.tryMatch ≠ 0)
          (inlineMatch rt c.inv ⟨owner, owner, config, instrument, book, margin, none, 5⟩ args id)).run v = .ok u t := by
  rw [instruction]
  simp only [process, processPostIntent, unpackPostIntent, accounts, doPostIntentInner]
  rw [Exec.bind_ok]
  constructor
  · rintro ⟨ctx, s1, unpacked, ran⟩
    simp only [Exec.bind_check, exists_const, Exec.pure_ok] at unpacked
    obtain ⟨signed, rfl, rfl⟩ := unpacked
    exact ⟨signed, Exec.bind_ok.mp ran⟩
  · rintro ⟨signed, ran⟩
    refine ⟨_, s, ?_, Exec.bind_ok.mpr ran⟩
    simp only [Exec.bind_check, exists_const, Exec.pure_ok]
    exact ⟨signed, trivial, trivial⟩

/-- An intent of a sound book reserves something. -/
theorem Pending.positive (pending : Pending rt inst instrument now (e :: work) s) : 0 < e.2.2.2 := by
  obtain ⟨b, held, measured⟩ := pending.held
  obtain ⟨placed, -, sum⟩ := measured.1 e.1 e.2.1 e.2.2.1 e.2.2.2 List.mem_cons_self
  obtain ⟨l, found⟩ := slot_of_order placed
  have slot : b.nodes[e.1]? = some (.intent (e.2.1.withLinks l)) := found
  obtain ⟨c, listed, some_left, reserved⟩ := (pending.founded b held).2.backed e.1 _ slot
  have some_left' : e.2.1.contractsRemaining ≠ 0 := some_left
  have reserved' : e.2.1.reservedCollateral = e.2.1.contractsRemaining * c.collateralBucket := reserved
  have positive := Nat.mul_pos (Nat.pos_of_ne_zero some_left') (Nat.pos_of_ne_zero (pending.genuine.listed_ok listed).2.1)
  omega

/-- A post that prunes its batch does what it does after the batch was cancelled. -/
theorem post_agrees {b : IntentBook} {c : Call rt} {owner : Pubkey} (pending : Pending rt inst instrument now work s)
    (held : s.get inst.intentBook = ⟨rt.programId, .intentBook b⟩) (posts : Posts rt inst instrument owner b work c) :
    (process rt c.inv c.instruction).run s = .ok u t ↔
      ∃ v, WithdrawnAll rt inst work s v ∧ (process rt c.inv c.instruction).run v = .ok u t := by
  cases work with
  | nil => simp [WithdrawnAll]
  | cons e work =>
    obtain ⟨args, instruction⟩ := posts.instruction
    obtain ⟨config, margin, rest, accounts⟩ := posts.accounts
    have tidy := (pending.founded b held).2.consistent.tidy
    have at_instrument := data_of_get pending.listed
    simp only [post_iff instruction accounts]
    generalize at_ctx : (⟨owner, owner, config, instrument, inst.intentBook, margin, none, 5⟩ : PostCtx) = ctx
    have plain : ctx.session = none := by rw [← at_ctx]
    have at_book : inst.intentBook = ctx.book := by rw [← at_ctx]
    have at_instrument' : s.data ctx.instrument = .instrumentConfig inst := by rw [← at_ctx, at_instrument]
    have finds : Book.scanIntents (Book.isExpiredOf b ctx.owner c.inv.slot) (measureExpired b) b.nodes.length 0 b.nodes =
        .ok (e :: work) := by rw [← at_ctx, posts.finds]
    have writes {inst' : InstrumentConfig} {bump reserve id : ℕ} {d : Book.Draft} {w : Ledger} {m : MarginAccount}
        (found : s.data ctx.instrument = .instrumentConfig inst') (writable : c.inv.isWritable ctx.book = true)
        (writable' : c.inv.isWritable ctx.margin = true)
        (address : rt.address (.margin ctx.owner inst'.collateralMint) = ctx.margin)
        (at_margin : s.get ctx.margin = ⟨rt.programId, .marginAccount m⟩) :
        (writePost rt c.inv ctx inst'.collateralMint bump reserve d).run s = .ok id w ↔ ∃ v, WithdrawnAll rt inst (e :: work) s v ∧
          (writePost rt c.inv ctx inst'.collateralMint bump reserve d).run v = .ok id w := by
      rw [at_instrument'] at found
      cases found
      exact writePost_iff tidy held at_book address finds pending.positive posts.few writable writable' at_margin
    have twins {v : Ledger} (address : rt.address (.margin ctx.owner inst.collateralMint) = ctx.margin)
        (withdrawn : WithdrawnAll rt inst (e :: work) s v) : Twins ctx.book ctx.margin s v :=
      twins_of_withdrawn tidy held at_book address finds withdrawn
    constructor
    · rintro ⟨signed, id, w, posted, matched⟩
      obtain ⟨x⟩ := postIntent_ok posted
      have at_margin : s.get ctx.margin = ⟨rt.programId, .marginAccount x.m⟩ := get_eq_of_data (x.owned _ (by simp)) x.margin_eq
      obtain ⟨inst', bump, reserve, d, found, writable, writable', address, wrote⟩ := writes_of_postIntent plain posted
      obtain ⟨v, withdrawn, wrote'⟩ := (writes found writable writable' address at_margin).mp wrote
      have same : inst' = inst := AccountData.instrumentConfig.inj (found.symm.trans at_instrument')
      refine ⟨v, withdrawn, signed, id, w, ?_, matched⟩
      apply (twins (same ▸ address) withdrawn).postIntent plain _ posted
      intro inst' bump reserve d found writable writable' address wrote
      obtain ⟨v', withdrawn', wrote'⟩ := (writes found writable writable' address at_margin).mp wrote
      rwa [withdrawnAll_unique withdrawn withdrawn']
    · rintro ⟨v, withdrawn, signed, id, w, posted, matched⟩
      have mine : ∀ e' ∈ e :: work, e'.2.2.1 = ctx.owner := fun e' member => (Book.trader_of_scan finds member).2
      obtain ⟨b0, b', m, m', held0, at_margin, -, -, left⟩ := (withdrawnAll_iff rfl mine).mp withdrawn
      have at_instrument_v : v.data ctx.instrument = .instrumentConfig inst := by
        rw [left, Ledger.data_setData_of_ne, Ledger.data_setData_of_ne, at_instrument']
        · intro same
          rw [same, data_of_get held0] at at_instrument'
          cases at_instrument'
        · intro same
          rw [same, data_of_get at_margin] at at_instrument'
          cases at_instrument'
      obtain ⟨inst', -, -, -, found, -, -, address, -⟩ := writes_of_postIntent plain posted
      obtain rfl : inst' = inst := AccountData.instrumentConfig.inj (found.symm.trans at_instrument_v)
      rw [address] at at_margin
      refine ⟨signed, id, w, ?_, matched⟩
      apply (twins address withdrawn).symm.postIntent plain _ posted
      intro inst2 bump reserve d found2 writable writable' address2 wrote
      obtain rfl : inst2 = inst' := AccountData.instrumentConfig.inj (found2.symm.trans at_instrument_v)
      exact (writes at_instrument' writable writable' address2 at_margin).mpr ⟨v, withdrawn, wrote⟩

/-! ### Runs -/

/-- What a run that never grows the book leaves is ready for removals. -/
theorem pending_of_run {start : Ledger} {b : IntentBook} {pick : IntentNode → Bool} {limit : ℕ} (gen : Genesis rt start)
    (calls : List (Call rt))
    (plain : ∀ past c, past ++ [c] <+: calls → c.returns (runCalls rt past start) = true → ¬ c.Expands inst.intentBook)
    (listed : (runCalls rt calls start).get instrument = ⟨rt.programId, .instrumentConfig inst⟩)
    (held : (runCalls rt calls start).get inst.intentBook = ⟨rt.programId, .intentBook b⟩)
    (expires : ∀ node, pick node = true → isExpired now node = true)
    (scanned : Book.scanIntents pick (measureExpired b) limit 0 b.nodes = .ok work) :
    Pending rt inst instrument now work (runCalls rt calls start) where
  genuine := by
    have reached : Reachable rt (fun _ => True) (runCalls rt calls start) := .runCalls (fun _ _ => trivial) (.genesis gen)
    exact genuine_of_reachable reached
  founded := (bookInvariant_founded rt).run gen calls plain
  listed := listed
  held := ⟨b, held, measured_of_scan scanned⟩
  expired := expired_of_scan expires scanned

/-- However an expired order is removed, the ledger is the same: a prune leaves all accounts as the cancels of its intents
in the order of their slots do, and a post that prunes leaves the ledger that it leaves after such cancels. -/
theorem removals_agree {start : Ledger} {b : IntentBook} (gen : Genesis rt start) (calls : List (Call rt))
    (plain : ∀ past c, past ++ [c] <+: calls → c.returns (runCalls rt past start) = true → ¬ c.Expands inst.intentBook)
    (reached : runCalls rt calls start = s) (listed : s.get instrument = ⟨rt.programId, .instrumentConfig inst⟩)
    (held : s.get inst.intentBook = ⟨rt.programId, .intentBook b⟩) :
    (∀ prune work cancels, Prunes rt inst instrument b work prune →
      List.Forall₂ (Cancels rt inst instrument prune.inv.slot) work cancels →
        (prune.returns s = true ↔ AllReturn rt cancels s) ∧
          (prune.returns s = true → (runCalls rt cancels s).Alike (execute rt prune s))) ∧
    ∀ post owner work cancels, Posts rt inst instrument owner b work post →
      List.Forall₂ (Cancels rt inst instrument post.inv.slot) work cancels →
        (post.returns s = true ↔ AllReturn rt cancels s ∧ post.returns (runCalls rt cancels s) = true) ∧
          (post.returns s = true → execute rt post s = execute rt post (runCalls rt cancels s)) := by
  subst reached
  constructor
  · intro prune work cancels prunes matched
    have pending := pending_of_run gen calls plain listed held (fun _ picked => picked) prunes.selects
    obtain ⟨spare, runs⟩ := prune_iff (u := ()) listed held prunes
    have same : (runCalls rt calls start).Alike (runCalls rt calls start) := fun _ => rfl
    obtain ⟨inverse, forward⟩ := pruneAll_iff (u := ()) spare matched pending same prunes.writable.1 prunes.writable.2
    refine ⟨⟨fun returns => ?_, fun returns => ?_⟩, fun returns => ?_⟩
    · obtain ⟨t, withdrawn, -⟩ := inverse _ ((runs _).mp (prune.ran returns))
      exact ((allReturn_iff matched pending).mpr withdrawn).1
    · obtain ⟨t, ran⟩ := forward _ ((allReturn_iff matched pending).mp ⟨returns, rfl⟩)
      exact Call.returns_of_ran ((runs t).mpr ran)
    · obtain ⟨t, withdrawn, alike⟩ := inverse _ ((runs _).mp (prune.ran returns))
      rwa [((allReturn_iff matched pending).mpr withdrawn).2]
  · intro post owner work cancels posts matched
    have expires : ∀ node, Book.isExpiredOf b owner post.inv.slot node = true → isExpired post.inv.slot node = true := by
      intro node picked
      simp only [Book.isExpiredOf, decide_eq_true_eq] at picked
      exact picked.1
    have pending := pending_of_run gen calls plain listed held expires posts.finds
    have agrees {t : Ledger} := post_agrees (u := ()) (t := t) pending held posts
    have after : post.returns (runCalls rt calls start) = true → AllReturn rt cancels (runCalls rt calls start) ∧
        (process rt post.inv post.instruction).run (runCalls rt cancels (runCalls rt calls start)) =
          .ok () (execute rt post (runCalls rt calls start)) := by
      intro returns
      obtain ⟨v, withdrawn, ran⟩ := agrees.mp (post.ran returns)
      obtain ⟨all, same⟩ := (allReturn_iff matched pending).mpr withdrawn
      rw [same]
      exact ⟨all, ran⟩
    refine ⟨⟨fun returns => ?_, ?_⟩, fun returns => ?_⟩
    · exact ⟨(after returns).1, Call.returns_of_ran (after returns).2⟩
    · rintro ⟨all, returns⟩
      exact Call.returns_of_ran (agrees.mpr ⟨_, (allReturn_iff matched pending).mp ⟨all, rfl⟩, post.ran returns⟩)
    · exact (execute_of_ran (after returns).2).symm

namespace Sample

/-- Carol prunes what has expired of Alice and Bob. -/
def prune : Call Runtime.sample :=
  callAt 101 0 [] .pruneExpired [carol] [carol, Sample.instrument poly, book poly, marginOf alice, marginOf bob]

/-- Carol cancels an expired intent. -/
def cancelExpired (owner : Pubkey) (id : UInt64) : Call Runtime.sample :=
  callAt 101 0 [] (.cancelIntent id) [carol] [carol, Sample.instrument poly, book poly, marginOf owner]

/-- Alice posts when her first intent has expired. -/
def postLate : Call Runtime.sample :=
  callAt 101 0 [] (.postIntent ⟨0, 500000000000000000, 1, 200, 0, 0⟩) [alice]
    [alice, config, Sample.instrument poly, book poly, marginOf alice]

/-- The ids and the traders of what a scan finds. -/
def found (scan : IntentBook → Except ProgramError (List Removal)) (s : Ledger) : Option (List (ℕ × Pubkey)) :=
  ((s.data (book poly)).loadBook.bind scan).toOption.map (List.map fun e => (e.2.1.id, e.2.2.1))

theorem exists_of_read {ε α β : Type} {read : Except ε α} {f : α → β} {x : β} (seen : read.toOption.map f = some x) :
    ∃ a, read = .ok a ∧ f a = x := by
  cases read with
  | error e => cases seen
  | ok a => exact ⟨a, rfl, Option.some.inj seen⟩

theorem work_of_found {scan : IntentBook → Except ProgramError (List Removal)} {s : Ledger} {b : IntentBook} {ids : List (ℕ × Pubkey)}
    (held : s.data (book poly) = .intentBook b) (finds : found scan s = some ids) :
    ∃ work, scan b = .ok work ∧ work.map (fun e => (e.2.1.id, e.2.2.1)) = ids := by
  rw [found, held] at finds
  exact exists_of_read finds

end Sample

/-- Carol may prune both intents or cancel them, and Alice's post prunes hers. -/
theorem removals_agree_posted :
    (Sample.prune.returns (Sample.posted 0 1) = true ∧
      (runCalls Runtime.sample [Sample.cancelExpired Sample.alice 1, Sample.cancelExpired Sample.bob 2] (Sample.posted 0 1)).Alike
        (execute Runtime.sample Sample.prune (Sample.posted 0 1))) ∧
    Sample.postLate.returns (Sample.posted 0 1) = true ∧
      execute Runtime.sample Sample.postLate (Sample.posted 0 1) =
        execute Runtime.sample Sample.postLate (runCalls Runtime.sample [Sample.cancelExpired Sample.alice 1] (Sample.posted 0 1)) := by
  have none : ∀ c ∈ Sample.launch 0 ++ [Sample.openMarket Sample.poly, Sample.post Sample.poly Sample.alice 0 1,
      Sample.post Sample.poly Sample.bob 1 1], c.instruction.expands = false := by decide +kernel
  have owned : (Sample.posted 0 1).owner (Sample.instrument Sample.poly) = Runtime.sample.programId ∧
      (Sample.posted 0 1).owner (Sample.book Sample.poly) = Runtime.sample.programId := by decide +kernel
  obtain ⟨inst, at_instrument, book_of, of_mint⟩ : ∃ inst, (Sample.posted 0 1).data (Sample.instrument Sample.poly) =
      .instrumentConfig inst ∧ inst.intentBook = Sample.book Sample.poly ∧ inst.collateralMint = Sample.mint := by
    obtain ⟨inst, read, terms⟩ := Sample.exists_of_read (by decide +kernel :
      ((Sample.posted 0 1).data (Sample.instrument Sample.poly)).loadInstrument.toOption.map
        (fun c => (c.intentBook, c.collateralMint)) = some (Sample.book Sample.poly, Sample.mint))
    exact ⟨inst, AccountData.loadInstrument_ok.mp read, Prod.mk.inj terms⟩
  obtain ⟨b, at_book⟩ : ∃ b, (Sample.posted 0 1).data (Sample.book Sample.poly) = .intentBook b := by
    obtain ⟨b, read, -⟩ := Sample.exists_of_read (by decide +kernel :
      ((Sample.posted 0 1).data (Sample.book Sample.poly)).loadBook.toOption.map (fun _ => ()) = some ())
    exact ⟨b, AccountData.loadBook_ok.mp read⟩
  have listed := get_eq_of_data owned.1 at_instrument
  have held := get_eq_of_data owned.2 at_book
  rw [← book_of] at held
  have agree := removals_agree Sample.genesis_genesis (Sample.launch 0 ++ [Sample.openMarket Sample.poly,
    Sample.post Sample.poly Sample.alice 0 1, Sample.post Sample.poly Sample.bob 1 1]) (by
      rintro past c reached - ⟨count, grows, -⟩
      have plain := none c (reached.subset (List.mem_append_right past List.mem_cons_self))
      rw [grows] at plain
      cases plain) rfl listed held
  obtain ⟨both, finds, ids⟩ : ∃ work, Book.scanIntents (isExpired 101) (measureExpired b) 2 0 b.nodes = .ok work ∧
      work.map (fun e => (e.2.1.id, e.2.2.1)) = [(1, Sample.alice), (2, Sample.bob)] :=
    Sample.work_of_found at_book (by decide +kernel :
      Sample.found (fun b => Book.scanIntents (isExpired 101) (measureExpired b) 2 0 b.nodes) (Sample.posted 0 1) = _)
  obtain ⟨hers, finds', ids'⟩ : ∃ work, Book.scanIntents (Book.isExpiredOf b Sample.alice 101) (measureExpired b) b.nodes.length 0 b.nodes =
      .ok work ∧ work.map (fun e => (e.2.1.id, e.2.2.1)) = [(1, Sample.alice)] :=
    Sample.work_of_found at_book (by decide +kernel :
      Sample.found (fun b => Book.scanIntents (Book.isExpiredOf b Sample.alice 101) (measureExpired b) b.nodes.length 0 b.nodes)
        (Sample.posted 0 1) = _)
  have refunds {e : Removal} {trader : Pubkey} (mine : e.2.2.1 = trader) :
      refundAddress Runtime.sample inst e = Sample.marginOf trader := by
    rw [refundAddress, mine, of_mint]
    rfl
  have cancels {e : Removal} {trader : Pubkey} {id : UInt64} (named : e.2.1.id = id.toNat) (mine : e.2.2.1 = trader) :
      Cancels Runtime.sample inst (Sample.instrument Sample.poly) 101 e (Sample.cancelExpired trader id) := by
    refine ⟨⟨id, rfl, named.symm⟩, ⟨Sample.carol, [], ?_, rfl⟩, ⟨rfl, rfl⟩, le_refl 101⟩
    rw [refunds mine, book_of]
    rfl
  obtain ⟨first, second, rfl⟩ : ∃ first second, both = [first, second] :=
    List.length_eq_two.mp (by simpa using congrArg List.length ids)
  obtain ⟨only, rfl⟩ : ∃ only, hers = [only] :=
    List.length_eq_one_iff.mp (by simpa using congrArg List.length ids')
  simp only [List.map_cons, List.map_nil, List.cons.injEq, Prod.mk.injEq, and_true] at ids ids'
  have pruned := agree.1 Sample.prune [first, second] [Sample.cancelExpired Sample.alice 1, Sample.cancelExpired Sample.bob 2]
    ⟨rfl, ⟨Sample.carol, [], by simp only [List.map_cons, List.map_nil, refunds ids.1.2, refunds ids.2.2, book_of]; rfl, rfl⟩,
      ⟨rfl, fun _ _ => rfl⟩, finds⟩ (.cons (cancels ids.1.1 ids.1.2) (.cons (cancels ids.2.1 ids.2.2) .nil))
  have posts := agree.2 Sample.postLate Sample.alice [only] [Sample.cancelExpired Sample.alice 1]
    ⟨⟨_, rfl⟩, ⟨Sample.config, Sample.marginOf Sample.alice, [], by rw [book_of]; rfl⟩, finds', by simp [Book.MAX_PRUNES_PER_POST]⟩
    (.cons (cancels ids'.1 ids'.2) .nil)
  have pruneReturns : Sample.prune.returns (Sample.posted 0 1) = true := by decide +kernel
  have postReturns : Sample.postLate.returns (Sample.posted 0 1) = true := by decide +kernel
  exact ⟨⟨pruneReturns, pruned.2 pruneReturns⟩, postReturns, posts.2 postReturns⟩

end Polyleverage

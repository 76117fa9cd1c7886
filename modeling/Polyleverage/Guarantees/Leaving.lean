import Polyleverage.Guarantees.Endings
import Polyleverage.Guarantees.TakeBack
import Polyleverage.Invariants.Numbers

/-! # Leaving

A trader without positions can leave with everything, alone and at any time: it cancels its orders one after
the other, and withdraws what is free then. Nobody else has to sign, and no pause is in the way.
-/

namespace Polyleverage

variable {rt : Runtime} {s t : Ledger} {mint : Pubkey} {m : MarginAccount}

/-! ### A trader's own calls -/

/-- The key of a trader, which is no derived address. -/
structure Wallet (rt : Runtime) where
  key : Pubkey
  underived : ∀ seeds, rt.address seeds ≠ key

/-- A call that nobody else signs. -/
def Wallet.call (w : Wallet rt) (slot : UInt64) (instruction : Instruction) (accounts : List Pubkey) : Call rt where
  inv :=
    { accounts
      isSigner := fun k => k = w.key
      isWritable := fun _ => true
      slot := slot.toNat
      unixTimestamp := 0
      instructions := []
      rentFunded := fun _ => false
      address_not_signer := by
        intro seeds
        exact decide_eq_false (w.underived seeds)
      slot_lt := slot.toNat_lt }
  instruction

/-- The calls are the trader's own, at this slot. -/
def Wallet.Calls (w : Wallet rt) (slot : UInt64) (calls : List (Call rt)) : Prop :=
  ∀ c ∈ calls, c.inv.slot = slot.toNat ∧ ∀ k, c.inv.isSigner k = true → k = w.key

/-- The token program lets a holder pay an account of the same mint, as far as the amount goes and fits there. -/
def Runtime.Pays (rt : Runtime) : Prop :=
  ∀ (s : Ledger) (source destination : Pubkey) (a b : TokenAccount) (amount : ℕ),
    s.get source = ⟨rt.tokenProgram, .token a⟩ → s.get destination = ⟨rt.tokenProgram, .token b⟩ → a.mint = b.mint →
    amount ≤ a.amount → b.amount + amount < 2 ^ 64 → ∃ t, rt.transfer s source destination a.owner amount = some t

/-- Token accounts stay as they are. -/
def Ledger.SameTokens (rt : Runtime) (s t : Ledger) : Prop :=
  ∀ k, s.owner k = rt.tokenProgram ∨ t.owner k = rt.tokenProgram → t.get k = s.get k

/-! ### What is reserved is reserved for an order -/

/-- Where something is counted, some account counts. -/
theorem Ledger.exists_of_holdings {μ : AccountData → ℕ} (positive : 0 < s.holdings rt μ) :
    ∃ k, s.owner k = rt.programId ∧ 0 < μ (s.data k) := by
  by_contra none
  have zero : s.holdings rt μ = 0 := by
    rw [Ledger.holdings_single (k := default) fun j _ owned => by
      by_contra some
      exact none ⟨j, owned, Nat.pos_of_ne_zero some⟩]
    split
    next owned =>
      by_contra some
      exact none ⟨default, owned, Nat.pos_of_ne_zero some⟩
    · rfl
  omega

/-- A trader with reserves in a book has an order there. -/
theorem BookView.exists_of_reserved {v : BookView} {trader : Pubkey} (positive : 0 < v.reserved trader) :
    ∃ i o, v.order i = some o ∧ v.trader o.ownerSeat = some trader := by
  obtain ⟨i, -, weighs⟩ := Finset.exists_ne_zero_of_sum_ne_zero (Nat.pos_iff_ne_zero.mp positive)
  cases placed : v.order i with
  | none => simp [placed] at weighs
  | some o =>
    rw [placed, Option.elim_some, weigh] at weighs
    split at weighs
    next seated => exact ⟨i, o, placed, seated⟩
    · exact absurd rfl weighs

/-- A trader with reserves has an order in the book of some instrument. -/
theorem exists_order {trader : Pubkey} (genuine : Genuine rt s) (books : Books rt s)
    (agree : s.gap rt (.reserve trader mint) = 0)
    (positive : 0 < s.marginBalance rt trader mint .reserved) :
    ∃ instrument inst b i o, s.get instrument = ⟨rt.programId, .instrumentConfig inst⟩ ∧ inst.collateralMint = mint ∧
      s.get inst.intentBook = ⟨rt.programId, .intentBook b⟩ ∧ b.order i = some o ∧ b.trader o.ownerSeat = some trader := by
  rw [Ledger.gap, genuine.holdings_reserved] at agree
  obtain ⟨k, owned, booked⟩ := Ledger.exists_of_holdings (by omega : 0 < s.holdings rt (AccountData.booked (s.mintOf rt) trader mint))
  unfold AccountData.booked at booked
  split at booked
  next b found =>
    obtain ⟨here, c, listed, -⟩ := books.book_ok owned found
    rw [Ledger.mintOf_of_listed listed] at booked
    split at booked
    next of_mint =>
      obtain ⟨i, o, placed, seated⟩ := BookView.exists_of_reserved booked
      obtain ⟨owned', status, found'⟩ := listed.account
      refine ⟨b.header.instrument, { c with status }, b, i, o, get_eq_of_data owned' found', Option.some.inj of_mint, ?_, placed, seated⟩
      rw [← get_eq_of_data owned found]
      exact congrArg s.get ((genuine.listed_ok listed).1.trans here)
    · omega
  · omega

/-! ### Cancelling -/

/-- Instructions that neither match by a post, nor grow a book, nor liquidate. -/
def Instruction.Calm (i : Instruction) : Prop := i.triesMatch = false ∧ i.expands = false ∧ i.liquidates = false

/-- Ids of orders fit the instruction. -/
theorem exists_id {b : IntentBook} {book : Pubkey} {allowed : Instruction → Prop} {i : ℕ} {o : IntentNode}
    (reached : Reachable rt allowed s) (held : s.get book = ⟨rt.programId, .intentBook b⟩) (orderly : b.view.Orderly)
    (placed : b.order i = some o) : ∃ id : UInt64, id.toNat = o.id := by
  have numbered := ((bookInvariant_numbered rt).reachable reached book b held).2
  have below : o.id < b.header.nextIntentId := orderly.id_lt i o placed
  exact ⟨UInt64.ofNat o.id, UInt64.toNat_ofNat_of_lt' (below.trans numbered.ids)⟩

/-- Writing an account of the program leaves the token accounts. -/
theorem Ledger.SameTokens.setData {k : Pubkey} {d : AccountData} (same : s.SameTokens rt t)
    (owned : t.owner k = rt.programId) :
    s.SameTokens rt (t.setData k d) := by
  intro j token
  rw [Ledger.owner_setData] at token
  rw [Ledger.get_setData_of_ne, same j token]
  rintro rfl
  have kept := congrArg Account.owner (same j token)
  have mine : (t.get j).owner = rt.programId := owned
  rcases token with token | token
  · exact rt.program_ne_token (mine.symm.trans (kept.trans token))
  · exact rt.program_ne_token (mine.symm.trans token)

/-- A trader that has something reserved can cancel an order. -/
theorem Wallet.cancels (w : Wallet rt) (slot : UInt64) (reached : Reachable rt Instruction.Calm s)
    (small : s.vaultBalance rt mint < 2 ^ 64)
    (found : s.get (rt.address (.margin w.key mint)) = ⟨rt.programId, .marginAccount m⟩)
    (positive : 0 < m.reservedCollateral) :
    ∃ c id r, w.Calls slot [c] ∧ c.instruction = .cancelIntent id ∧ c.returns s = true ∧ 0 < r ∧ r ≤ m.reservedCollateral ∧
      s.SameTokens rt (execute rt c s) ∧ (execute rt c s).get (rt.address (.margin w.key mint)) = ⟨rt.programId, .marginAccount
        { m with freeCollateral := m.freeCollateral + r, reservedCollateral := m.reservedCollateral - r }⟩ := by
  obtain ⟨⟨genuine, books⟩, agree⟩ := reserve_gap (reached.mono fun _ calm => ⟨calm.1, calm.2.1⟩)
  obtain ⟨-, backed⟩ := backing_gap (reached.mono fun _ calm => ⟨calm.1, calm.2.2⟩)
  have some_reserved : 0 < s.marginBalance rt w.key mint .reserved := by
    rw [Ledger.marginBalance, if_pos (owner_of_get found), data_of_get found]
    exact positive
  obtain ⟨instrument, inst, b, i, o, listed, of_mint, held, placed, seated⟩ := exists_order genuine books (agree _ _) some_reserved
  subst of_mint
  have terms := listed_of_load (owner_of_get listed) (data_of_get listed)
  obtain ⟨-, sound⟩ := genuine.sound_of_listed books terms rfl (owner_of_get held) (data_of_get held)
  obtain ⟨m', found', enough⟩ := margin_of_order genuine books (agree _ _).ge listed held placed seated
  rw [found] at found'
  cases found'
  obtain ⟨id, named⟩ := exists_id reached held sound.consistent.orderly placed
  let c := w.call slot (.cancelIntent id) [w.key, instrument, inst.intentBook, rt.address (.margin w.key inst.collateralMint)]
  have takes : TakesBack rt inst instrument w.key o s c :=
    .caller rfl named rfl (decide_eq_true rfl) rfl rfl (.inl rfl)
  obtain ⟨returns, effect⟩ := takes.returns_iff genuine sound.consistent listed held placed seated found enough
  -- The vault backs the whole balance, so that the free part of it stays a machine word.
  have mine : m.collateralMint = inst.collateralMint := (margin_passes genuine rfl found).2.1
  have wealth := Ledger.le_holdings (μ := AccountData.wealth inst.collateralMint) (owner_of_get found)
  rw [data_of_get found, AccountData.wealth, if_pos mine] at wealth
  have total : m.total = m.freeCollateral + m.reservedCollateral + m.lockedCollateral := rfl
  have bound := backed inst.collateralMint
  have returned := returns.mpr (by omega)
  obtain ⟨b', -, after⟩ := effect returned
  refine ⟨c, id, o.reservedCollateral + o.feeBuffer, ?_, rfl, returned, sound.reserve_pos (genuine.listed_ok terms).2.1 placed,
    enough, ?_, ?_⟩
  · intro c' member
    cases List.mem_singleton.mp member
    exact ⟨rfl, fun k signs => of_decide_eq_true signs⟩
  · rw [after]
    have same : s.SameTokens rt s := fun _ _ => rfl
    exact (same.setData (owner_of_get held)).setData (by rw [Ledger.owner_setData, owner_of_get found])
  · rw [after, Ledger.get_setData_self, Ledger.owner_setData, owner_of_get found]

theorem Ledger.SameTokens.trans {v : Ledger} (first : s.SameTokens rt t) (next : t.SameTokens rt v) :
    s.SameTokens rt v := by
  intro k token
  have owners {s t : Ledger} (same : s.SameTokens rt t) : s.owner k = rt.tokenProgram ↔ t.owner k = rt.tokenProgram :=
    by
    constructor
    · intro token
      rw [Ledger.owner, same k (.inl token)]
      exact token
    · intro token
      rw [Ledger.owner, ← same k (.inr token)]
      exact token
  have here : t.owner k = rt.tokenProgram := by
    rcases token with token | token
    · exact (owners first).mp token
    · exact (owners next).mpr token
  rw [next k (.inl here), first k (.inr here)]

/-- Calls that all return, then more of them. -/
theorem allReturn_append {calls calls' : List (Call rt)} :
    AllReturn rt (calls ++ calls') s ↔ AllReturn rt calls s ∧ AllReturn rt calls' (runCalls rt calls s) := by
  induction calls generalizing s with
  | nil => simp [AllReturn, runCalls]
  | cons c calls ih => rw [List.cons_append, AllReturn, AllReturn, ih, runCalls_cons, and_assoc]

/-- Cancelling one order after the other, a trader comes to have nothing reserved. -/
theorem Wallet.clears (w : Wallet rt) (slot : UInt64) (reached : Reachable rt Instruction.Calm s)
    (small : s.vaultBalance rt mint < 2 ^ 64)
    (found : s.get (rt.address (.margin w.key mint)) = ⟨rt.programId, .marginAccount m⟩) :
    ∃ calls, w.Calls slot calls ∧ (∀ c ∈ calls, ∃ id, c.instruction = .cancelIntent id) ∧ AllReturn rt calls s ∧
      Reachable rt Instruction.Calm (runCalls rt calls s) ∧
      s.SameTokens rt (runCalls rt calls s) ∧
      (runCalls rt calls s).get (rt.address (.margin w.key mint)) = ⟨rt.programId, .marginAccount
        { m with freeCollateral := m.freeCollateral + m.reservedCollateral, reservedCollateral := 0 }⟩ := by
  induction left : m.reservedCollateral using Nat.strong_induction_on generalizing s m with
  | _ n ih =>
    rcases Nat.eq_zero_or_pos n with none | some
    · refine ⟨[], by simp [Wallet.Calls], by simp, trivial, reached, fun _ _ => rfl, ?_⟩
      change s.get _ = _
      rw [found, none, Nat.add_zero, ← left.trans none]
    · obtain ⟨c, id, r, own, cancels, returns, positive, enough, same, after⟩ := w.cancels slot reached small found (left ▸ some)
      have calm : c.instruction.Calm := by
        rw [cancels]
        exact ⟨rfl, rfl, rfl⟩
      have vault : (execute rt c s).vaultBalance rt mint = s.vaultBalance rt mint := vaultBalance_congr same mint
      obtain ⟨calls, own', cancels', all, reached', same', cleared⟩ := ih (n - r) (by omega) (.call c reached calm) (vault ▸ small)
        after (by rw [left])
      refine ⟨c :: calls, ?_, ?_, ⟨returns, all⟩, reached', same.trans same', ?_⟩
      · intro c' member
        rcases List.mem_cons.mp member with rfl | member
        · exact own c' (List.mem_singleton.mpr rfl)
        · exact own' c' member
      · intro c' member
        rcases List.mem_cons.mp member with rfl | member
        · exact ⟨id, cancels⟩
        · exact cancels' c' member
      · rw [runCalls_cons, cleared]
        have sum : m.freeCollateral + r + (n - r) = m.freeCollateral + n := by omega
        simp only [sum]

/-! ### Withdrawing -/

/-- A vault with a balance is a token account of the mint, held by the vault authority. -/
theorem exists_vault (positive : 0 < s.vaultBalance rt mint) :
    ∃ v, s.get (rt.getAssociatedTokenAddress (rt.address (.vault mint)) mint) = ⟨rt.tokenProgram, .token v⟩ ∧
      v.owner = rt.address (.vault mint) ∧ v.mint = mint ∧ v.amount = s.vaultBalance rt mint := by
  unfold Ledger.vaultBalance at positive ⊢
  generalize s.get (rt.getAssociatedTokenAddress (rt.address (.vault mint)) mint) = vault at positive ⊢
  obtain ⟨owner, data⟩ := vault
  cases data with
  | token v =>
    simp only [Account.vaultAmount] at positive ⊢
    split at positive
    next held =>
      obtain ⟨rfl, authority, of_mint⟩ := held
      exact ⟨v, rfl, authority, of_mint, (if_pos ⟨rfl, authority, of_mint⟩).symm⟩
    · omega
  | _ => exact absurd positive (Nat.lt_irrefl 0)

section Withdrawing

variable {wallet : Pubkey} {a : TokenAccount}

/-- What is free can be withdrawn at once. -/
theorem Wallet.withdraws (w : Wallet rt) (slot : UInt64) (reached : Reachable rt Instruction.Calm s) (pays : rt.Pays)
    (small : s.vaultBalance rt mint < 2 ^ 64)
    (found : s.get (rt.address (.margin w.key mint)) = ⟨rt.programId, .marginAccount m⟩) (positive : 0 < m.freeCollateral)
    (held : s.get wallet = ⟨rt.tokenProgram, .token a⟩) (of_mint : a.mint = mint)
    (other : wallet ≠ rt.getAssociatedTokenAddress (rt.address (.vault mint)) mint)
    (room : a.amount + m.freeCollateral < 2 ^ 64) :
    ∃ c amount a', w.Calls slot [c] ∧ c.instruction = .withdraw amount ∧ amount.toNat = m.freeCollateral ∧ c.returns s = true ∧
      (execute rt c s).get (rt.address (.margin w.key mint)) = ⟨rt.programId, .marginAccount { m with freeCollateral := 0 }⟩ ∧
      (execute rt c s).get wallet = ⟨rt.tokenProgram, .token a'⟩ ∧ a'.amount = a.amount + m.freeCollateral := by
  obtain ⟨genuine, backed⟩ := backing_gap (reached.mono fun _ calm => ⟨calm.1, calm.2.2⟩)
  obtain ⟨mine, mint_eq, bump⟩ := margin_passes genuine rfl found
  have wealth := Ledger.le_holdings (μ := AccountData.wealth mint) (owner_of_get found)
  rw [data_of_get found, AccountData.wealth, if_pos mint_eq] at wealth
  have total : m.total = m.freeCollateral + m.reservedCollateral + m.lockedCollateral := rfl
  have bound := backed mint
  obtain ⟨v, at_vault, authority, vault_mint, amount⟩ := exists_vault (by omega : 0 < s.vaultBalance rt mint)
  -- The balance is written down first, which leaves both token accounts.
  have owned : s.owner (rt.address (.margin w.key mint)) = rt.programId := owner_of_get found
  let debited := s.setData (rt.address (.margin w.key mint)) (.marginAccount { m with freeCollateral := 0 })
  have kept : s.SameTokens rt debited := Ledger.SameTokens.setData (fun _ _ => rfl) owned
  have at_vault' := (kept _ (.inl (owner_of_get at_vault))).trans at_vault
  have held' := (kept _ (.inl (owner_of_get held))).trans held
  obtain ⟨t, paid⟩ := pays debited _ wallet v a m.freeCollateral at_vault' held' (by rw [vault_mint, of_mint]) (by omega) room
  rw [authority] at paid
  have fits : (UInt64.ofNat m.freeCollateral).toNat = m.freeCollateral :=
    UInt64.toNat_ofNat_of_lt' (by omega : m.freeCollateral < 2 ^ 64)
  have asked : UInt64.ofNat m.freeCollateral ≠ 0 := by
    intro zero
    have none := congrArg UInt64.toNat zero
    rw [fits] at none
    exact absurd none (by simpa using Nat.pos_iff_ne_zero.mp positive)
  let c := w.call slot (.withdraw (UInt64.ofNat m.freeCollateral)) [w.key, rt.address (.margin w.key mint), mint, wallet,
    rt.getAssociatedTokenAddress (rt.address (.vault mint)) mint, rt.address (.vault mint), rt.tokenProgram]
  have signed : c.inv.isSigner w.key = true := decide_eq_true rfl
  have debit : (atMargin rt c.inv (rt.address (.margin w.key mint))
      (withdrawFree w.key mint (rt.bump (.margin w.key mint)) m.freeCollateral)).run s = .ok () debited := by
    refine run_atAccount (x := m) rfl owned (AccountData.loadMargin_ok.mpr (data_of_get found)) ?_
    have identified : m.requireIdentity w.key mint (rt.bump (.margin w.key mint)) = .ok () :=
      MarginAccount.requireIdentity_ok.mpr ⟨mine, mint_eq, bump⟩
    rw [withdrawFree, Exec.run_bind_get, Exec.run_bind_of_ok (Exec.ofExcept_ok.mpr ⟨identified, rfl⟩), MarginAccount.debitFree]
    exact MarginAccount.debit_ok.mpr ⟨le_refl m.freeCollateral, by rw [MarginAccount.balance, Nat.sub_self]; rfl⟩
  have ran : (process rt c.inv c.instruction).run s = .ok () t := by
    change (processWithdraw rt c.inv (UInt64.ofNat m.freeCollateral)).run s = .ok () t
    have accounts : c.inv.accounts = [w.key, rt.address (.margin w.key mint), mint, wallet,
      rt.getAssociatedTokenAddress (rt.address (.vault mint)) mint, rt.address (.vault mint), rt.tokenProgram] := rfl
    have writable (k : Pubkey) : c.inv.isWritable k = true := rfl
    simp only [processWithdraw, accounts, Exec.bind_check, exists_const, signed, writable, true_and, exists_eq_left', fits,
      List.mem_singleton, forall_eq, owned]
    refine ⟨asked, ⟨v, by rw [data_of_get at_vault]; rfl, authority, vault_mint⟩, Exec.bind_ok.mpr ⟨(), _, debit, ?_⟩⟩
    exact invoke_ok.mpr paid
  obtain ⟨-, -, ⟨a0, a', at_wallet, after, -, -, -, -, moved⟩, -, others⟩ := rt.transfer_moves paid
  rw [held'] at at_wallet
  cases at_wallet
  rw [if_neg (Ne.symm other), Nat.add_zero] at moved
  have margin_ne {k : Pubkey} {v : TokenAccount} (at_token : s.get k = ⟨rt.tokenProgram, .token v⟩) :
      rt.address (.margin w.key mint) ≠ k := by
    rintro rfl
    rw [found] at at_token
    exact rt.program_ne_token (congrArg Account.owner at_token)
  refine ⟨c, _, a', ?_, rfl, fits, Call.returns_of_ran ran, ?_, ?_, moved⟩
  · intro c' member
    cases List.mem_singleton.mp member
    exact ⟨rfl, fun k signs => of_decide_eq_true signs⟩
  · rw [execute_of_ran ran, others _ (margin_ne at_vault) (margin_ne held), Ledger.get_setData_self, owned]
  · rw [execute_of_ran ran, after]

/-- A trader can leave with all that no position locks: it cancels its orders and then withdraws once, if there is
anything to withdraw. Nobody else signs these calls, at any slot and whether or not the program is paused they all
return, and after them its margin account has nothing free and nothing reserved, and its wallet got all of that. This
holds in every run without a match by a post, a growth of a book and a liquidation, as long as the token program pays
and the balances are machine words. -/
theorem leaves (w : Wallet rt) (slot : UInt64) (reached : Reachable rt Instruction.Calm s) (pays : rt.Pays)
    (small : s.vaultBalance rt mint < 2 ^ 64)
    (found : s.get (rt.address (.margin w.key mint)) = ⟨rt.programId, .marginAccount m⟩)
    (held : s.get wallet = ⟨rt.tokenProgram, .token a⟩) (of_mint : a.mint = mint)
    (other : wallet ≠ rt.getAssociatedTokenAddress (rt.address (.vault mint)) mint)
    (room : a.amount + (m.freeCollateral + m.reservedCollateral) < 2 ^ 64) :
    ∃ (cancels : List (Call rt)) (withdrawal : Option (Call rt)) (a' : TokenAccount),
      (∀ c ∈ cancels, ∃ id, c.instruction = .cancelIntent id) ∧
      (∀ c ∈ withdrawal, ∃ amount, c.instruction = .withdraw amount ∧
        amount.toNat = m.freeCollateral + m.reservedCollateral) ∧
      w.Calls slot (cancels ++ withdrawal.toList) ∧ AllReturn rt (cancels ++ withdrawal.toList) s ∧
      (runCalls rt (cancels ++ withdrawal.toList) s).get (rt.address (.margin w.key mint)) = ⟨rt.programId, .marginAccount
        { m with freeCollateral := 0, reservedCollateral := 0 }⟩ ∧
      (runCalls rt (cancels ++ withdrawal.toList) s).get wallet = ⟨rt.tokenProgram, .token a'⟩ ∧
      a'.amount = a.amount + (m.freeCollateral + m.reservedCollateral) := by
  obtain ⟨calls, own, cancels, all, reached', same, cleared⟩ := w.clears slot reached small found
  have held' := (same _ (.inl (owner_of_get held))).trans held
  rcases Nat.eq_zero_or_pos (m.freeCollateral + m.reservedCollateral) with none | positive
  · refine ⟨calls, Option.none, a, cancels, by simp, ?_⟩
    rw [Option.toList_none, List.append_nil]
    refine ⟨own, all, ?_, held', by rw [none, Nat.add_zero]⟩
    rw [cleared, none]
  · have vault : (runCalls rt calls s).vaultBalance rt mint = s.vaultBalance rt mint := vaultBalance_congr same mint
    obtain ⟨c, asked, a', own', withdraws, fits, returns, emptied, paid, amount⟩ :=
      w.withdraws slot reached' pays (vault ▸ small) cleared positive held' of_mint other room
    refine ⟨calls, some c, a', cancels, ?_, ?_, allReturn_append.mpr ⟨all, returns, trivial⟩, ?_, ?_, amount⟩
    · intro c' member
      cases Option.mem_some.mp member
      exact ⟨asked, withdraws, fits⟩
    · intro c' member
      rcases List.mem_append.mp member with member | member
      · exact own c' member
      · exact own' c' member
    · rw [Option.toList_some, runCalls_concat, emptied]
    · rw [Option.toList_some, runCalls_concat, paid]

end Withdrawing

theorem Runtime.sample_pays : Runtime.sample.Pays := by
  intro s source destination a b amount paid got same_mint enough _
  have may : a.mayMove a.owner = true := by simp [TokenAccount.mayMove]
  change ∃ t, sampleTransfer Runtime.sample.tokenProgram s source destination a.owner amount = some t
  rw [sampleTransfer, tokenAt_eq_some.mpr paid, tokenAt_eq_some.mpr got]
  dsimp only
  rw [if_pos ⟨same_mint, may, enough⟩]
  split
  · exact ⟨_, rfl⟩
  · exact ⟨_, rfl⟩

/-- Alice, who is no derived address. -/
def Sample.wallet : Wallet Runtime.sample where
  key := alice
  underived seeds same := by
    have odd := Runtime.sample_address_odd seeds
    rw [same] at odd
    exact absurd odd (by decide)

/-- With an intent in the book, Alice can have all she came with. -/
theorem leaves_posted : ∃ calls a', (∀ c ∈ calls, (∃ id, c.instruction = .cancelIntent id) ∨ c.instruction = .withdraw 100000) ∧
    Sample.wallet.Calls 1 calls ∧ AllReturn Runtime.sample calls (Sample.posted 0 1) ∧
    (runCalls Runtime.sample calls (Sample.posted 0 1)).get (Sample.tokensOf Sample.alice) =
      ⟨Runtime.sample.tokenProgram, .token a'⟩ ∧ a'.amount = 1000000 := by
  obtain ⟨m, read, balances⟩ := Sample.exists_of_read (by decide +kernel :
    ((Sample.posted 0 1).data (Sample.marginOf Sample.alice)).loadMargin.toOption.map (fun m =>
      m.freeCollateral + m.reservedCollateral) = some 100000)
  have owned : (Sample.posted 0 1).owner (Sample.marginOf Sample.alice) = Runtime.sample.programId := by decide +kernel
  obtain ⟨a, held, terms⟩ := Option.map_eq_some_iff.mp (by decide +kernel :
    (tokenAt Runtime.sample.tokenProgram (Sample.posted 0 1) (Sample.tokensOf Sample.alice)).map (fun a => (a.mint, a.amount)) =
      some (Sample.mint, 900000))
  simp only [Prod.mk.injEq] at terms
  have found : (Sample.posted 0 1).get (Runtime.sample.address (.margin Sample.wallet.key Sample.mint)) =
      ⟨Runtime.sample.programId, .marginAccount m⟩ := get_eq_of_data owned (AccountData.loadMargin_ok.mp read)
  have reached : Reachable Runtime.sample Instruction.Calm (Sample.posted 0 1) :=
    Sample.reachable (by unfold Instruction.Calm; decide +kernel)
  obtain ⟨cancels, withdrawal, a', cancelling, withdrawing, own, all, -, paid, amount⟩ := leaves Sample.wallet 1 reached
    Runtime.sample_pays (by decide +kernel) found (tokenAt_eq_some.mp held) terms.1 (by decide) (by rw [terms.2, balances]; decide)
  refine ⟨_, a', fun c member => ?_, own, all, paid, by rw [amount, terms.2, balances]⟩
  rcases List.mem_append.mp member with member | member
  · exact .inl (cancelling c member)
  · obtain ⟨asked, withdraws, fits⟩ := withdrawing c (Option.mem_toList.mp member)
    rw [balances] at fits
    rw [withdraws, show asked = 100000 from UInt64.toNat_inj.mp fits]
    exact .inr rfl

end Polyleverage

import Polyleverage.Guarantees.BoundedLoss
import Polyleverage.Guarantees.Nodes
import Polyleverage.Guarantees.Sessions
import Polyleverage.Guarantees.Solvency

/-! # What one post can cost

A trader that has nothing else in the program and signs a single post loses, whatever others do then, no more than the
collateral of the contracts that it posted and one charge for each of them. A charge is the fee of the trader that
takes in a match, or the premium of the trader that enters a position in a substitution that settles.
-/

namespace Polyleverage

open Machine

variable {rt : Runtime} {inv : rt.Invocation} {s t : Ledger} {k trader mint : Pubkey}

/-! ### A trader with nothing in the program -/

/-- No order and no live position is the trader's, and no session of the trader is active from this slot on. -/
structure Idle (rt : Runtime) (trader : Pubkey) (slot : ℕ) (s : Ledger) : Prop where
  orders : ∀ k b, s.get k = ⟨rt.programId, .intentBook b⟩ → ∀ i o, b.order i = some o → b.trader o.ownerSeat ≠ some trader
  positions : ∀ k p, s.get k = ⟨rt.programId, .pmlc p⟩ → p.status = PMLC_STATUS_LIVE →
    p.longOwner ≠ trader ∧ p.shortOwner ≠ trader
  session : SessionOver rt trader slot s

namespace Ledger

/-- All that a trader has on a mint. -/
def collateralOf (rt : Runtime) (s : Ledger) (trader mint : Pubkey) : ℕ :=
  s.marginBalance rt trader mint .free + s.marginBalance rt trader mint .reserved + s.marginBalance rt trader mint .locked

section Margin

variable {m : MarginAccount} (held : s.get (rt.address (.margin trader mint)) = ⟨rt.programId, .marginAccount m⟩)
include held

theorem marginBalance_of_get (bucket : Bucket) : s.marginBalance rt trader mint bucket = m.balance bucket := by
  unfold marginBalance
  rw [Ledger.owner, Ledger.data, held, if_pos rfl]

theorem collateralOf_of_get : s.collateralOf rt trader mint = m.total := by
  rw [collateralOf, marginBalance_of_get held, marginBalance_of_get held, marginBalance_of_get held]
  rfl

end Margin

/-- What no account counts adds up to nothing. -/
theorem holdings_eq_zero {μ : AccountData → ℕ} (nothing : ∀ k, s.owner k = rt.programId → μ (s.data k) = 0) :
    s.holdings rt μ = 0 := by
  rw [holdings_single (k := default) fun j _ owned => nothing j owned]
  split
  next owned => exact nothing _ owned
  · rfl

end Ledger

/-- A trader without an order in a book has nothing reserved there. -/
theorem BookView.reserved_eq_zero {v : BookView} (none : ∀ i o, v.order i = some o → v.trader o.ownerSeat ≠ some trader) :
    v.reserved trader = 0 := by
  apply Finset.sum_eq_zero
  intro i _
  cases there : v.order i with
  | none => rfl
  | some o => exact if_neg (none i o there)

namespace Idle

variable {slot : ℕ} (idle : Idle rt trader slot s)
include idle

theorem booked_eq_zero : s.holdings rt (AccountData.booked (s.mintOf rt) trader mint) = 0 := by
  apply Ledger.holdings_eq_zero
  intro k owned
  cases found : s.data k with
  | intentBook b =>
    have empty := BookView.reserved_eq_zero (v := b.view) (idle.orders k b (get_eq_of_data owned found))
    rw [AccountData.booked, empty, ite_self]
  | _ => rfl

theorem held_eq_zero : s.holdings rt (AccountData.held trader mint) = 0 := by
  apply Ledger.holdings_eq_zero
  intro k owned
  cases found : s.data k with
  | pmlc p =>
    have apart := idle.positions k p (get_eq_of_data owned found)
    rw [AccountData.held, Pmlc.lockedFor]
    split
    · split
      next live => simp [(apart live).1, (apart live).2]
      · rfl
    · rfl
  | _ => rfl

end Idle

/-- Nothing in an account is the trader's: no seat of a book, and no side of a position. -/
def AccountData.avoids (trader : Pubkey) : AccountData → Bool
  | .intentBook b => b.nodes.all fun raw => raw.trader ≠ some trader
  | .pmlc p => p.longOwner ≠ trader ∧ p.shortOwner ≠ trader
  | _ => true

/-- Whether a trader is idle can be read off the accounts that exist. -/
theorem idle_of_avoids (slot : ℕ) (avoids : ∀ k ∈ s.keys, (s.get k).data.avoids trader = true)
    (none : (s.data (rt.address (.session trader))).kind ≠ .session) : Idle rt trader slot s := by
  have all := Store.forall_of_keys (P := fun a : Account => a.data.avoids trader = true) rfl avoids
  constructor
  case orders =>
    intro k b held i o _ seated
    have clean := all k
    rw [held, AccountData.avoids, List.all_eq_true] at clean
    obtain ⟨raw, slot, own⟩ := Option.bind_eq_some_iff.mp seated
    exact of_decide_eq_true (clean raw (List.mem_of_getElem? slot)) own
  case positions =>
    intro k p held _
    have clean := all k
    rw [held] at clean
    exact of_decide_eq_true clean
  case session =>
    intro x held
    rw [Ledger.data, held] at none
    exact absurd rfl none

/-! ### A run without the trader -/

/-- What a trader has reserved and locked stays at least what it was without orders and positions. -/
theorem gap_le_runCalls {calls : List (Call rt)} (genuine : Genuine rt s) (books : Books rt s)
    (plain : ∀ c ∈ calls, c.instruction.expands = false) :
    s.gap rt (.reserve trader mint) ≤ (runCalls rt calls s).gap rt (.reserve trader mint) ∧
      s.gap rt (.lock trader mint) ≤ (runCalls rt calls s).gap rt (.lock trader mint) ∧ Genuine rt (runCalls rt calls s) := by
  induction calls generalizing s with
  | nil => exact ⟨le_rfl, le_rfl, genuine⟩
  | cons c rest ih =>
    have later : ∀ c' ∈ rest, c'.instruction.expands = false := fun c' member => plain c' (List.mem_cons_of_mem c member)
    rcases execute_eq_or_ok c s with same | ran
    · rw [runCalls_cons, same]
      exact ih genuine books later
    · have kept := upkeep_process genuine ran
      have still := plain c List.mem_cons_self
      obtain ⟨reserve, lock, genuine'⟩ := ih kept.genuine (kept.books still books) later
      exact ⟨(kept.reserve_le still books _ _).trans reserve, (kept.lock_le _ _).trans lock, genuine'⟩

theorem not_renews_of_unsigned {c : Call rt} (unsigned : c.inv.isSigner trader = false) : renews rt trader c s = false := by
  unfold renews
  split
  next args signer rest creates accounts =>
    rw [decide_eq_false_iff_not]
    rintro ⟨rfl, returns⟩
    have ran := Call.ran returns
    rw [creates] at ran
    obtain ⟨owner, config, session, more, x, given, signed, -⟩ := processCreateSession_ok ran
    rw [accounts] at given
    cases given
    rw [unsigned] at signed
    cases signed
  · rfl

/-- Nobody acts for a trader that does not sign and has no session. -/
theorem leftAlone_of_unsigned {calls : List (Call rt)} {slot : ℕ} (ended : SessionOver rt trader slot s)
    (later : ∀ c ∈ calls, slot ≤ c.inv.slot) (unsigned : ∀ c ∈ calls, c.inv.isSigner trader = false) :
    LeftAlone rt trader calls s := by
  induction calls generalizing s with
  | nil => trivial
  | cons c rest ih =>
    have now := later c List.mem_cons_self
    have silent := unsigned c List.mem_cons_self
    have rest_alone := ih (ended.execute now (not_renews_of_unsigned silent))
      (fun c' member => later c' (List.mem_cons_of_mem c member)) fun c' member => unsigned c' (List.mem_cons_of_mem c member)
    refine ⟨fun _ => ?_, rest_alone⟩
    rintro (signed | ⟨x, held, active, -⟩)
    · rw [silent] at signed
      cases signed
    · rw [not_active_of_over (ended x held) now] at active
      cases active

/-! ### Where a trader can be charged -/

/-- In no book but this one has the trader anything reserved. -/
def Confined (rt : Runtime) (trader home : Pubkey) (s : Ledger) : Prop :=
  ∀ k, k ≠ home → BookAt rt (fun terms b => Founded terms b ∧ b.view.reserved trader = 0) k s

theorem bookInvariant_confined (rt : Runtime) (trader : Pubkey) :
    BookInvariant rt (· ≠ trader) False fun terms b => Founded terms b ∧ b.view.reserved trader = 0 where
  fresh terms instrument capacity bump := by
    have founded : BookInvariant rt (fun _ => True) False Founded := bookInvariant_founded rt
    exact ⟨founded.fresh terms instrument capacity bump, reserved_init instrument capacity bump trader⟩
  wider le holds := by
    have founded : BookInvariant rt (fun _ => True) False Founded := bookInvariant_founded rt
    exact ⟨founded.wider le holds.1, holds.2⟩
  event known unique event holds := by
    obtain ⟨sound, -, less⟩ := sound_of_event event (holds.1.sound unique)
    refine ⟨founded_of_sound known sound, Nat.le_zero.mp ?_⟩
    rw [← holds.2]
    exact less trader fun other => other rfl

theorem Idle.confined {slot : ℕ} (idle : Idle rt trader slot s) (books : Books rt s) (home : Pubkey) :
    Confined rt trader home s := by
  intro k _ b held
  obtain ⟨here, c, listed, sound⟩ := books.book_ok (owner_of_get held) (data_of_get held)
  exact ⟨here, founded_of_sound listed sound, BookView.reserved_eq_zero (v := b.view) (idle.orders k b held)⟩

namespace Confined

variable {home : Pubkey} (confined : Confined rt trader home s)
include confined

/-- Nobody else can post for the trader. -/
theorem process {c : Call rt} (genuine : Genuine rt s) (alone : ¬ c.ActsFor s trader) (plain : c.instruction.expands = false)
    (ran : (Polyleverage.process rt c.inv c.instruction).run s = .ok () t) : Confined rt trader home t := by
  intro k other
  apply (bookInvariant_confined rt trader).process genuine (confined k other) ran
  · rintro p acts rfl
    exact alone acts
  · rintro ⟨n, expands, -⟩
    rw [expands] at plain
    cases plain

/-- So it is at home that its orders are filled. -/
theorem home_of_fill {instrument book long short : Pubkey} {inst : InstrumentConfig} {b b' : IntentBook} {m n : ℕ}
    (genuine : Genuine rt s) (owned : s.owner instrument = rt.programId) (found : s.data instrument = .instrumentConfig inst)
    (at_book : inst.intentBook = book) (held : s.get book = ⟨rt.programId, .intentBook b⟩)
    (fill : Sound inst.collateralBucket b → BookStep inst.collateralBucket b b'
      (-Pi.single long ((inst.collateralBucket + m : ℕ) : ℤ) - Pi.single short ((inst.collateralBucket + n : ℕ) : ℤ)))
    (party : trader = long ∨ trader = short) : book = home := by
  by_contra other
  obtain ⟨here, founded, none⟩ := confined book other b held
  have listed : s.Listed rt instrument inst.listing := listed_of_load owned found
  rw [instrument_of_home (home_of_load genuine owned found at_book) here] at founded
  have sound : Sound inst.listing.collateralBucket b := founded.sound fun c' known => known.unique listed
  have reserved := (fill sound).reserved trader
  have positive : inst.collateralBucket ≠ 0 := (genuine.listed_ok listed).2.1
  rw [none, Pi.sub_apply, Pi.neg_apply, Pi.single_apply, Pi.single_apply] at reserved
  rcases party with rfl | rfl
  · rw [if_pos rfl] at reserved
    split at reserved <;> omega
  · rw [if_pos rfl] at reserved
    split at reserved <;> omega

end Confined

/-- Whoever does not act is charged for contracts of the one book that it has orders in. -/
theorem Call.Charges.bucket_eq {c : Call rt} {bucket fee : ℕ} {instrument : Pubkey} {terms : InstrumentConfig}
    (genuine : Genuine rt s) (books : Books rt s) (alone : ¬ c.ActsFor s trader)
    (confined : Confined rt trader (rt.address (.book instrument)) s) (listed : s.Listed rt instrument terms)
    (charges : c.Charges s trader bucket fee) : bucket = terms.collateralBucket := by
  have at_home : ∀ {i inst}, s.owner i = rt.programId → s.data i = .instrumentConfig inst →
      inst.intentBook = rt.address (.book instrument) → inst.collateralBucket = terms.collateralBucket := by
    intro i inst owned found home
    obtain rfl : i = instrument := by simpa using rt.address_injective _ _ (home_of_load genuine owned found home)
    have same : inst.listing = terms := (listed_of_load owned found).unique listed
    rw [← same]
    rfl
  rcases charges.resting genuine books alone with
    ⟨ctx, longId, shortId, unpacked, inst, b, b', r, found, at_book, rfl, held, ran, mine, -⟩ |
    ⟨args, premium, ⟨_, i, book, _, _, inst, p, b, b', x, -, found, at_book, rfl, -, held, ran, mine, -⟩, rfl⟩
  · obtain ⟨-, owned, owned_book⟩ := unpackMatchAccounts_ok unpacked
    have party : trader = r.longTrader ∨ trader = r.shortTrader := by
      rw [← mine, MatchResult.taker]
      split
      · exact .inl rfl
      · exact .inr rfl
    have home := confined.home_of_fill genuine owned found at_book (get_eq_of_data owned_book held)
      (fun sound => (bookStep_matchInBook sound ran).1) party
    exact at_home owned found (at_book.trans home)
  · have home := confined.home_of_fill genuine (owner_of_get found) (data_of_get found) at_book held
      (fun sound => (bookStep_substituteInBook sound ran).1) (.inr mine.symm)
    exact at_home (owner_of_get found) (data_of_get found) (at_book.trans home)

/-- In a run without the trader, too. -/
theorem allCharges_of_confined {calls : List (Call rt)} {instrument : Pubkey} {terms : InstrumentConfig} {charge : ℕ}
    (reached : Reachable rt (fun instr => instr.expands = false) s) (plain : ∀ c ∈ calls, c.instruction.expands = false)
    (alone : LeftAlone rt trader calls s) (confined : Confined rt trader (rt.address (.book instrument)) s)
    (listed : s.Listed rt instrument terms) (charged : AllCharges rt trader (fun _ fee => fee ≤ charge) calls s) :
    AllCharges rt trader (fun bucket fee => terms.collateralBucket * fee ≤ charge * bucket) calls s := by
  induction calls generalizing s with
  | nil => trivial
  | cons c rest ih =>
    have genuine := genuine_of_reachable reached
    have books := books_of_reachable (fun _ plain => plain) reached
    have still := plain c List.mem_cons_self
    refine ⟨fun returns bucket fee charges => ?_, ?_⟩
    · obtain rfl := charges.bucket_eq genuine books (alone.1 returns) confined listed
      calc
        terms.collateralBucket * fee ≤ terms.collateralBucket * charge :=
          Nat.mul_le_mul_left _ (charged.1 returns _ fee charges)
        _ = charge * terms.collateralBucket := Nat.mul_comm _ _
    · have kept : Confined rt trader (rt.address (.book instrument)) (execute rt c s) ∧
          (execute rt c s).Listed rt instrument terms := by
        cases returns : c.returns s with
        | false =>
          rw [execute_of_not_returns returns]
          exact ⟨confined, listed⟩
        | true =>
          have ran := Call.ran returns
          exact ⟨confined.process genuine (alone.1 returns) still ran, (upkeep_process genuine ran).fixed _ _ listed⟩
      exact ih (.call c reached still) (fun c' member => plain c' (List.mem_cons_of_mem c member)) alone.2 kept.1 kept.2
        charged.2

/-! ### The post -/

/-- A call that posts for its signer. -/
theorem posting_of_returns {c : Call rt} {args : PostIntentArgs} {config instrument : Pubkey} {rest : List Pubkey}
    (posts : c.instruction = .postIntent args) (accounts : c.inv.accounts = trader :: config :: instrument :: rest)
    (returns : c.returns s = true) :
    ∃ post, (unpackPostIntent rt c.inv).run s = .ok post s ∧ post.owner = trader ∧ post.instrument = instrument ∧
      (doPostIntentInner rt c.inv post args).run s = .ok () (execute rt c s) := by
  have ran := Call.ran returns
  rw [posts, process, processPostIntent, Exec.bind_ok] at ran
  obtain ⟨post, s', unpacked, ran⟩ := ran
  obtain ⟨rfl, -⟩ := unpackPostIntent_ok unpacked
  have named : post.owner = trader ∧ post.instrument = instrument := by
    unfold unpackPostIntent at unpacked
    rw [accounts] at unpacked
    split at unpacked
    next given =>
      simp only [Exec.bind_check, exists_const] at unpacked
      obtain ⟨rfl, -⟩ := Exec.pure_ok.mp unpacked.2
      cases given
      exact ⟨rfl, rfl⟩
    · cases unpacked
  exact ⟨post, unpacked, named.1, named.2, ran⟩

/-- The only book in which the trader has orders after its post is the one that it posted to. -/
theorem Idle.confined_of_post {slot : ℕ} {c : Call rt} {args : PostIntentArgs} {post : PostCtx} (idle : Idle rt trader slot s)
    (genuine : Genuine rt s) (books : Books rt s) (posts : c.instruction = .postIntent args) (returns : c.returns s = true)
    (ran : (doPostIntentInner rt c.inv post args).run s = .ok () (execute rt c s)) :
    Confined rt trader post.book (execute rt c s) := by
  intro k other
  have whole := Call.ran returns
  have created : c.instruction.creates = false := by
    rw [posts]
    rfl
  rw [doPostIntentInner, Exec.bind_ok] at ran
  obtain ⟨id, mid, posted, tried⟩ := ran
  obtain ⟨posting⟩ := postIntent_ok posted
  have first : EvolvesAt rt k (s.Listed rt) (· ≠ trader) False s mid := evolvesAt_of_posting_ne posting other
  refine (bookInvariant_confined rt trader).evolvesAt (idle.confined books post.book k other) (fun b' held' => ?_)
    (fun i x => (upkeep_process genuine whole).fixed i _) (first.trans (evolvesAt_tried genuine posted tried))
  obtain ⟨b, held, -⟩ := (shelves_of_process created whole).back held'
  exact ⟨b, held⟩

/-- The match that a post tries is for a contract of its instrument. -/
theorem TriesMatch.bucket_eq {post : PostCtx} {args : PostIntentArgs} {ctx : MatchCtx} {longId shortId bucket fee : ℕ}
    {v : Ledger} {inst : InstrumentConfig} (genuine : Genuine rt s) (found : s.data post.instrument = .instrumentConfig inst)
    (tries : TriesMatch inv post args s ctx longId shortId v)
    (takes : Takes inv ctx longId shortId v trader bucket fee) : bucket = inst.collateralBucket := by
  have touches := (tries.leads genuine).touches
  obtain ⟨-, id, mid, other, _, _, _, _, _, _, _, _, -, -, -, rfl, -⟩ := tries
  obtain ⟨inst', b, b', r, found', -, rfl, -⟩ := takes
  change v.data post.instrument = _ at found'
  rw [Ledger.data, touches.get_eq (k := post.instrument) (by rw [found]; simp)] at found'
  cases found.symm.trans found'
  rfl

/-- What the trader has right after its post, before a match is tried. -/
theorem Posting.balances {post : PostCtx} {args : PostIntentArgs} {id : ℕ} (posting : Posting rt inv s post args id t)
    (genuine : Genuine rt s) (books : Books rt s) : posting.m.owner = posting.m1.owner ∧
      posting.m.freeCollateral ≤ posting.m1.freeCollateral + args.contracts.toNat * posting.inst.collateralBucket ∧
      posting.m1.reservedCollateral ≤ posting.m.reservedCollateral + args.contracts.toNat * posting.inst.collateralBucket := by
  have step := marginStep_reserveForPost posting.reserved
  have reserve : args.reserve posting.inst posting.b = args.contracts.toNat * posting.inst.collateralBucket := by
    rw [PostIntentArgs.reserve, posting.feeBuffer_eq (posting.sound genuine books).2]
    rfl
  have totals := step.total
  have reserves := step.reserved
  have locks := step.locked
  rw [MarginAccount.total, MarginAccount.total] at totals
  rw [reserve] at reserves
  exact ⟨step.same.1.symm, by omega, by omega⟩

/-- What is lost is no more than the collateral of the posted contracts and one charge for each of them. -/
theorem total_le_of_cushion {m m1 m' : MarginAccount} {bucket charge contracts : ℕ} (positive : bucket ≠ 0)
    (cushion : m1.cushion bucket charge ≤ m'.cushion bucket charge)
    (free : m.freeCollateral ≤ m1.freeCollateral + contracts * bucket)
    (reserved : m1.reservedCollateral ≤ m.reservedCollateral + contracts * bucket)
    (kept : m.reservedCollateral ≤ m'.reservedCollateral) (locked : m.lockedCollateral ≤ m'.lockedCollateral) :
    m.total ≤ m'.total + contracts * (bucket + charge) := by
  have paid : (bucket : ℤ) * (m1.freeCollateral - m'.freeCollateral) ≤ bucket * (contracts * charge) := by
    have used : (m1.reservedCollateral : ℤ) - m'.reservedCollateral ≤ contracts * bucket := by
      zify at reserved kept
      linarith
    rw [MarginAccount.cushion, MarginAccount.cushion] at cushion
    calc
      (bucket : ℤ) * (m1.freeCollateral - m'.freeCollateral)
        ≤ charge * (m1.reservedCollateral - m'.reservedCollateral) := by linarith
      _ ≤ charge * (contracts * bucket) := mul_le_mul_of_nonneg_left used (Nat.cast_nonneg charge)
      _ = bucket * (contracts * charge) := by ring
  have few : (m1.freeCollateral : ℤ) - m'.freeCollateral ≤ contracts * charge :=
    le_of_mul_le_mul_left paid (by exact_mod_cast Nat.pos_of_ne_zero positive)
  rw [MarginAccount.total, MarginAccount.total, Nat.mul_add]
  zify at free kept locked ⊢
  linarith

/-- Whatever others do after it, a trader that has nothing else in the program and posts once never has less than
before the post, less the collateral of the posted contracts and one charge for each of them. -/
theorem posted_loss_bounded (reached : Reachable rt (fun instr => instr.expands = false) s) {slot : ℕ}
    (idle : Idle rt trader slot s) {c : Call rt} {args : PostIntentArgs} (posts : c.instruction = .postIntent args)
    {config instrument : Pubkey} {rest : List Pubkey} (accounts : c.inv.accounts = trader :: config :: instrument :: rest)
    (returns : c.returns s = true) {inst : InstrumentConfig} (terms : s.data instrument = .instrumentConfig inst)
    (calls : List (Call rt)) (later : ∀ c' ∈ c :: calls, slot ≤ c'.inv.slot)
    (plain : ∀ c' ∈ calls, c'.instruction.expands = false) (unsigned : ∀ c' ∈ calls, c'.inv.isSigner trader = false)
    {charge : ℕ} (charged : AllCharges rt trader (fun _ fee => fee ≤ charge) (c :: calls) s) :
    s.collateralOf rt trader inst.collateralMint ≤
      (runCalls rt (c :: calls) s).collateralOf rt trader inst.collateralMint +
        args.contracts.toNat * (inst.collateralBucket + charge) := by
  have genuine := genuine_of_reachable reached
  have books := books_of_reachable (fun _ plain => plain) reached
  have all_plain : ∀ c' ∈ c :: calls, c'.instruction.expands = false := by
    rw [List.forall_mem_cons, posts]
    exact ⟨rfl, plain⟩
  have whole := Call.ran returns
  obtain ⟨post, unpacked, rfl, rfl, ran⟩ := posting_of_returns posts accounts returns
  -- The post, and the match that it tries.
  have covered : ∀ ctx longId shortId v bucket fee, TriesMatch c.inv post args s ctx longId shortId v →
      Takes c.inv ctx longId shortId v post.owner bucket fee → inst.collateralBucket * fee ≤ charge * bucket := by
    intro ctx longId shortId v bucket fee tries takes
    have matching : c.Matches s ctx longId shortId v := by
      unfold Call.Matches
      rw [posts]
      exact ⟨post, s, unpacked, tries⟩
    have bounded := charged.1 returns bucket fee (.fee matching takes)
    rw [tries.bucket_eq genuine terms takes, Nat.mul_comm charge]
    exact Nat.mul_le_mul_left _ bounded
  obtain ⟨id, mid, posted, tried⟩ := cushioned_tried covered ran
  obtain ⟨posting⟩ := postIntent_ok posted
  obtain rfl : posting.inst = inst := by
    have same := posting.instrument_eq.symm.trans terms
    cases same
    rfl
  obtain ⟨same_owner, free, reserved⟩ := posting.balances genuine books
  -- What follows without the trader.
  have home : rt.address (.book post.instrument) = post.book :=
    home_of_load genuine (posting.owned _ (by simp)) terms posting.book_of
  have confined := idle.confined_of_post genuine books posts returns ran
  rw [← home] at confined
  have ended : SessionOver rt post.owner slot (execute rt c s) := by
    refine idle.session.execute (later c List.mem_cons_self) ?_
    unfold renews
    rw [posts]
  have alone := leftAlone_of_unsigned ended (fun c' member => later c' (List.mem_cons_of_mem c member)) unsigned
  have next : Reachable rt (fun instr => instr.expands = false) (execute rt c s) :=
    .call c reached (all_plain c List.mem_cons_self)
  have listed := (upkeep_process genuine whole).fixed _ _ posting.listed
  have followed := cushioned_runCalls next plain alone
    (allCharges_of_confined next plain alone confined listed charged.2)
  have owned := posting.owned post.margin (by simp)
  have held := get_eq_of_data owned posting.margin_eq
  have mine := (genuine.margin_identity posting.margin_address owned posting.margin_eq).1
  obtain ⟨m', held', cushions⟩ := (tried.trans followed) _ _ _ posting.margin_after (same_owner.symm.trans mine)
  -- What is reserved and locked besides.
  obtain ⟨reserve, lock, genuine'⟩ := @gap_le_runCalls rt s post.owner posting.inst.collateralMint _ genuine books all_plain
  rw [← posting.margin_address] at held held'
  rw [runCalls_cons] at reserve lock genuine' ⊢
  rw [Ledger.gap, Ledger.gap, idle.booked_eq_zero, genuine.holdings_reserved, genuine'.holdings_reserved,
    Ledger.marginBalance_of_get held, Ledger.marginBalance_of_get held'] at reserve
  rw [Ledger.gap, Ledger.gap, idle.held_eq_zero, genuine.holdings_locked, genuine'.holdings_locked,
    Ledger.marginBalance_of_get held, Ledger.marginBalance_of_get held'] at lock
  rw [Ledger.collateralOf_of_get held, Ledger.collateralOf_of_get held']
  apply total_le_of_cushion (genuine.listed_ok posting.listed).2.1 cushions.le free reserved
  · change posting.m.balance .reserved ≤ m'.balance .reserved
    omega
  · change posting.m.balance .locked ≤ m'.balance .locked
    omega

namespace Sample

/-- Alice is long at 0.4 and offers to leave at this price. -/
def beforeBid : Ledger :=
  runCalls Runtime.sample (launch 0 ++ [openMarket poly, bid alice 0 400000000000000000, bid carol 1 400000000000000000,
    fill poly alice carol 1 2 3, bid alice 1 400000000000000000]) genesis

/-- Bob bids for one contract. -/
def bobBids : Call Runtime.sample := bid bob 0 800000000000000000

theorem idle_beforeBid : Idle Runtime.sample bob 0 beforeBid :=
  idle_of_avoids 0 (by decide +kernel) (by decide +kernel)

/-- Bob is charged when Alice leaves to him, and no more than the bucket. -/
theorem allCharges_bobBids : AllCharges Runtime.sample bob (fun _ fee => fee ≤ 1000) (bobBids :: afterBidding) beforeBid := by
  refine ⟨fun _ bucket fee charges => ?_, fun _ bucket fee charges => ?_, fun _ bucket fee charges => ?_, trivial⟩
  · cases charges with
    | fee matching takes =>
      obtain ⟨_, _, -, ⟨tries, -⟩⟩ := matching
      exact absurd rfl tries
    | premium settles enters => cases settles
  · cases charges with
    | fee matching takes => cases matching
    | premium settles enters =>
      obtain ⟨substitutor, i, book, pmlc, rest, inst, p, b, b', x, accounts, found, -, rfl, -, -, -, -, computed⟩ := enters
      cases accounts
      have bucket : ((execute Runtime.sample bobBids beforeBid).data (instrument poly)).loadInstrument.toOption.map
          InstrumentConfig.collateralBucket = some 1000 := by decide +kernel
      rw [Ledger.data, found] at bucket
      have is_thousand : inst.collateralBucket = 1000 := Option.some.inj bucket
      have bounded := substitutionDelta_le computed
      omega
  · cases charges with
    | fee matching takes => cases matching
    | premium settles enters => cases settles

end Sample

/-- Bob's bid of one contract costs him the bucket and the premium of the side that he enters, no less. -/
theorem posted_loss_bounded_bidding :
    Sample.beforeBid.collateralOf Runtime.sample Sample.bob Sample.mint ≤
      (runCalls Runtime.sample (Sample.bobBids :: Sample.afterBidding) Sample.beforeBid).collateralOf Runtime.sample Sample.bob
        Sample.mint + 1 * (1000 + 1000) ∧
    Sample.beforeBid.collateralOf Runtime.sample Sample.bob Sample.mint = 100000 ∧
    (runCalls Runtime.sample (Sample.bobBids :: Sample.afterBidding) Sample.beforeBid).collateralOf Runtime.sample Sample.bob
      Sample.mint = 98000 := by
  obtain ⟨inst, read, terms⟩ := Sample.exists_of_read (by decide +kernel :
    (Sample.beforeBid.data (Sample.instrument Sample.poly)).loadInstrument.toOption.map
      (fun inst => (inst.collateralMint, inst.collateralBucket)) = some (Sample.mint, 1000))
  simp only [Prod.mk.injEq] at terms
  obtain ⟨of_mint, of_bucket⟩ := terms
  have reached : Reachable Runtime.sample (fun instr => instr.expands = false) Sample.beforeBid :=
    Sample.reachable (by decide +kernel)
  have posts : Sample.bobBids.instruction = .postIntent ⟨0, 800000000000000000, 1, 100, 0, 0⟩ := rfl
  have bounded := posted_loss_bounded reached Sample.idle_beforeBid posts rfl (by decide +kernel)
    (AccountData.loadInstrument_ok.mp read) Sample.afterBidding (fun _ _ => Nat.zero_le _) (by decide +kernel)
    (by decide +kernel) Sample.allCharges_bobBids
  have one : UInt16.toNat 1 = 1 := rfl
  dsimp only at bounded
  rw [of_mint, of_bucket, one] at bounded
  exact ⟨bounded, by decide +kernel, by decide +kernel⟩

/-- So the bucket and the fee of a taker, which Bob never pays, do not bound his loss. -/
theorem posted_loss_exceeds_fee :
    Reachable Runtime.sample (fun instr => instr.expands = false) Sample.beforeBid ∧
    Idle Runtime.sample Sample.bob 0 Sample.beforeBid ∧ Sample.bobBids.returns Sample.beforeBid = true ∧
    (∀ c ∈ Sample.afterBidding, c.instruction.expands = false ∧ c.inv.isSigner Sample.bob = false) ∧
    ¬ Sample.beforeBid.collateralOf Runtime.sample Sample.bob Sample.mint ≤
      (runCalls Runtime.sample (Sample.bobBids :: Sample.afterBidding) Sample.beforeBid).collateralOf Runtime.sample Sample.bob
        Sample.mint + 1 * (1000 + Sample.beforeBid.takerFee Sample.feeSchedule (Sample.volumeOf Sample.bob) 1000 1) :=
  ⟨Sample.reachable (by decide +kernel), Sample.idle_beforeBid, by decide +kernel, by decide +kernel, by decide +kernel⟩

end Polyleverage

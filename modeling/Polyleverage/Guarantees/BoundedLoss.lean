import Polyleverage.Guarantees.FeeTiers
import Polyleverage.Guarantees.InlineMatches
import Polyleverage.Guarantees.Removals
import Polyleverage.Guarantees.Standing
import Polyleverage.Invariants.Cushions

/-! # Bounded loss

What a trader can lose without a signature is known in advance. As long as neither the trader nor its delegate
signs, matches, substitutions, settlements and liquidations together take no more than what is locked in its
positions and twice what its orders have reserved.
-/

namespace Polyleverage

open Machine

variable {rt : Runtime} {inv : rt.Invocation} {s t : Ledger} {k owner : Pubkey} {u : Unit}
  {unit charge : ℕ}

/-! ### The fee -/

theorem FeeSchedule.Valid.feeForVolume_le_tenth {f : FeeSchedule} (valid : f.Valid) (volume : ℕ) :
    f.feeForVolume volume ≤ 1000 := by
  have all := feeBps_le_of_validateTiersFrom valid.accepted
  rw [FeeSchedule.feeForVolume_eq]
  rcases feeFrom_mem volume f.lowest.feeBps f.tiers.toList with first | ⟨tier, member, same⟩
  · rw [first]
    exact all f.tiers[0] (by simp)
  · rw [same]
    exact all tier member

/-- A valid schedule charges no more than the collateral that is locked. -/
theorem takerFee_le {feeSchedule takerVolume : Pubkey} {perSide nowSlot : ℕ}
    (valid : ∀ f, s.data feeSchedule = .feeSchedule f → f.Valid) :
    s.takerFee feeSchedule takerVolume perSide nowSlot ≤ perSide := by
  unfold Ledger.takerFee
  split
  next f held =>
    have rate := (valid f held).feeForVolume_le_tenth (s.volume takerVolume nowSlot)
    calc
      truncate 64 (perSide * f.feeForVolume (s.volume takerVolume nowSlot) / BPS_DENOM)
        ≤ perSide * f.feeForVolume (s.volume takerVolume nowSlot) / BPS_DENOM := Nat.mod_le _ _
      _ ≤ perSide * BPS_DENOM / BPS_DENOM :=
        Nat.div_le_div_right (Nat.mul_le_mul_left perSide (rate.trans (by decide)))
      _ = perSide := Nat.mul_div_cancel perSide (by decide)
  · exact Nat.zero_le _

/-! ### Matches -/

/-- A movement of one margin account changes no owner. -/
theorem owner_of_atMargin {movement : MarginM Unit} [Exec.Keeping MarginAccount.SameAccount movement]
    (ran : (atMargin rt inv k movement).run s = .ok u t) {j : Pubkey} {m' : MarginAccount}
    (held' : t.data j = .marginAccount m') : ∃ m, s.data j = .marginAccount m ∧ m'.owner = m.owner := by
  obtain ⟨x, y, held, moved, rfl⟩ := atMargin_ok ran
  by_cases here : j = k
  · subst here
    rw [Ledger.data_setData_self] at held'
    cases held'
    have same : x.SameAccount m' := Exec.Keeping.keeps.ok moved
    exact ⟨x, held, same.1⟩
  · rw [Ledger.data_setData_of_ne _ _ here] at held'
    exact ⟨m', held', rfl⟩

/-- However a match ends, the owner keeps its cushion when it takes no more than it can cover. -/
theorem cushioned_matchPairCore {ctx : MatchCtx} {longId shortId : ℕ}
    (covered : ∀ bucket fee, Takes inv ctx longId shortId s owner bucket fee → unit * fee ≤ charge * bucket)
    (left : t ∈ ((matchPairCore rt inv ctx longId shortId).run s).state?) : Cushioned unit charge owner s t := by
  rw [matchPairCore] at left
  rcases Exec.left_bind_check left with rfl | ⟨inst, found, left⟩
  · exact Std.Refl.refl _
  rcases Exec.left_bind_check left with rfl | ⟨_, -, left⟩
  · exact Std.Refl.refl _
  rcases Exec.left_bind_check left with rfl | ⟨_, at_book, left⟩
  · exact Std.Refl.refl _
  rw [not_not] at at_book
  rcases Exec.left_bind left with ⟨e, failed⟩ | ⟨r, s1, matched, left⟩
  · have touches : Touches [.intentBook] [.intentBook] s t := Within.keeps.err failed
    exact cushioned_of_touches touches (by decide)
  have books : Touches [.intentBook] [.intentBook] s s1 := Within.keeps.ok matched
  have first : Cushioned unit charge owner s s1 := cushioned_of_touches books (by decide)
  obtain ⟨b, b', held, inner, -⟩ := atBook_ok matched
  have covers : r.taker = owner → unit * s.takerFee ctx.feeSchedule ctx.takerVolume inst.collateralBucket inv.slot ≤
      charge * inst.collateralBucket := fun takes =>
    covered _ _ ⟨inst, b, b', r, found, at_book, rfl, held, inner, takes, rfl⟩
  rw [← books.takerFee (by simp) (by simp)] at covers
  rcases Exec.left_bind_check left with rfl | ⟨_, ⟨-, l, long_held, long_owner, -⟩, left⟩
  · exact first
  rcases Exec.left_bind_check left with rfl | ⟨_, ⟨-, m, short_held, short_owner, -⟩, left⟩
  · exact first
  apply first.trans
  rcases Exec.left_bind left with ⟨e, failed⟩ | ⟨fee, s2, charged, left⟩
  · have touches : Touches [.userVolume, .feeTreasury, .raw] [.userVolume, .feeTreasury, .raw] s1 t := Within.keeps.err failed
    exact cushioned_of_touches touches (by decide)
  have charges : Touches [.userVolume, .feeTreasury, .raw] [.userVolume, .feeTreasury, .raw] s1 s2 :=
    Within.keeps.ok charged
  rw [← chargeTaker_fee charged] at covers
  have second : Cushioned unit charge owner s1 s2 := cushioned_of_touches charges (by decide)
  apply second.trans
  have long_held2 : s2.data ctx.longMargin = .marginAccount l := by
    rw [← long_held]
    exact congrArg Account.data (charges.get_eq (by simp [long_held]))
  have short_held2 : s2.data ctx.shortMargin = .marginAccount m := by
    rw [← short_held]
    exact congrArg Account.data (charges.get_eq (by simp [short_held]))
  have long_covered : r.longTrader = owner → unit * (if r.takerIsLong then fee else 0) ≤ charge * inst.collateralBucket := by
    intro mine
    split
    next takes => exact covers (by rw [MatchResult.taker, if_pos takes, mine])
    next => exact Nat.zero_le _
  have short_covered : r.shortTrader = owner → unit * (if r.takerIsLong then 0 else fee) ≤ charge * inst.collateralBucket := by
    intro mine
    split
    next => exact Nat.zero_le _
    next makes => exact covers (by rw [MatchResult.taker, if_neg makes, mine])
  rcases Exec.left_bind left with ⟨e, failed⟩ | ⟨_, s3, long, left⟩
  · refine cushioned_of_left (by rw [failed]; rfl) fun x y there moved mine => ?_
    cases long_held2.symm.trans there
    exact cushions_of_left_lockSide (long_covered (long_owner.symm.trans mine)) moved
  have third : Cushioned unit charge owner s2 s3 := by
    refine cushioned_atMargin long fun x y there moved mine => ?_
    cases long_held2.symm.trans there
    exact cushions_lockSide (long_covered (long_owner.symm.trans mine)) moved
  apply third.trans
  have short_left : ∀ x y, s3.data ctx.shortMargin = .marginAccount x →
      y ∈ ((lockSide inst.collateralBucket r.feeBufReleaseShort (if r.takerIsLong then 0 else fee)).run x).state? →
      x.owner = owner → x.Cushions unit charge y := by
    intro x y there moved mine
    obtain ⟨x', there', same⟩ := owner_of_atMargin long there
    cases short_held2.symm.trans there'
    exact cushions_of_left_lockSide (short_covered (short_owner.symm.trans (same.symm.trans mine))) moved
  rcases Exec.left_bind left with ⟨e, failed⟩ | ⟨_, s4, short, left⟩
  · exact cushioned_of_left (by rw [failed]; rfl) short_left
  have fourth : Cushioned unit charge owner s3 s4 := cushioned_of_left (by rw [short]; rfl) short_left
  have opens : Touches [.raw] [.raw, .pmlc] s4 t := Within.keeps _ t left
  exact fourth.trans (cushioned_of_touches opens (by decide))

/-! ### Inline matches -/

/-- Who the sides of a fill belong to, and which of them takes. -/
theorem traders_of_match {b b' : IntentBook} {instrument pmlc : Pubkey} {bucket longId shortId now : ℕ}
    {r : MatchResult}
    (tidy : Tidy b) (ran : (matchInBook rt instrument pmlc bucket longId shortId now).run b = .ok r b') :
    ∃ pair, Book.findPair longId shortId now b = .ok pair ∧ b.trader pair.long.ownerSeat = some r.longTrader ∧
      b.trader pair.short.ownerSeat = some r.shortTrader ∧
      r.takerIsLong = decide (pair.short.postSeq < pair.long.postSeq) := by
  simp only [matchInBook, Exec.bind_ok, Exec.gets_ok, Exec.ofExcept_ok, Exec.rejectIf_ok, Exec.pure_ok] at ran
  obtain ⟨p, _, ⟨paired, rfl⟩, ⟨q, longRelease, shortRelease⟩, _, ⟨consumed, rfl⟩, _, b1, written, id, b2, numbered,
    _, _, ⟨-, rfl⟩, longSeat, _, ⟨seatL, rfl⟩, shortSeat, _, ⟨seatS, rfl⟩, rfl, rfl⟩ := ran
  obtain ⟨rfl, -⟩ := Book.consume_ok consumed
  obtain ⟨b1', ran1, -, view⟩ := Book.run_writePair tidy (Book.found_of_findPair paired).1 bucket longRelease shortRelease
  rw [written] at ran1
  cases ran1
  obtain ⟨rfl, rfl⟩ := IntentBook.nextIntentId_ok numbered
  have traders : b1.trader = b.trader := congrArg BookView.trader view
  have long := IntentBook.trader_of_seat (IntentBook.seat_eq_ok.mp seatL)
  have short := IntentBook.trader_of_seat (IntentBook.seat_eq_ok.mp seatS)
  change b1.trader _ = _ at long short
  rw [traders] at long short
  exact ⟨p, paired, long, short, rfl⟩

/-- After a post, an intent is the new one or older than it. -/
theorem new_or_older {b b1 : IntentBook} {poster : Pubkey} {d : Book.Draft} {slot seat i : ℕ} {node : IntentNode}
    (orderly : b.view.Orderly)
    (posted : b.view.Posted b1.view poster ((d.node b.header.nextIntentId b.header.nextSeq seat).withLinks noLinks) slot seat)
    (there : b1.nodes[i]? = some (.intent node)) :
    (i = slot ∧ node.postSeq = b.header.nextSeq ∧ node.ownerSeat = seat) ∨
      (node.id < b.header.nextIntentId ∧ node.postSeq < b.header.nextSeq) := by
  have placed := IntentBook.order_of_intent there
  have orders : b1.order = Function.update b.order slot _ := posted.order
  rw [orders] at placed
  by_cases here : i = slot
  · subst here
    rw [Function.update_self, Option.some.injEq] at placed
    have seq := congrArg IntentNode.postSeq placed
    have owner := congrArg IntentNode.ownerSeat placed
    exact .inl ⟨rfl, seq.symm, owner.symm⟩
  · rw [Function.update_of_ne here] at placed
    have id_lt := orderly.id_lt i (node.withLinks noLinks) placed
    have seq_lt := orderly.seq_lt i (node.withLinks noLinks) placed
    exact .inr ⟨id_lt, seq_lt⟩

/-- Whoever has just posted takes. -/
theorem taker_of_posted {b b1 b' : IntentBook} {poster instrument pmlc : Pubkey} {d : Book.Draft}
    {id bucket longId shortId now : ℕ} {r : MatchResult} (consistent : Consistent b) (isSide : IsSide d.side)
    (ran_post : (Book.post poster d).run b = .ok id b1) (involved : longId = id ∨ shortId = id)
    (ran : (matchInBook rt instrument pmlc bucket longId shortId now).run b1 = .ok r b') : r.taker = poster := by
  obtain ⟨tidy, rfl, slot, seat, posted, -⟩ := Book.post_ok consistent isSide ran_post
  obtain ⟨pair, paired, long, short, takes⟩ := traders_of_match tidy ran
  obtain ⟨found, longId_eq, shortId_eq⟩ := Book.found_of_findPair paired
  have seated : b1.trader seat = some poster := posted.owned
  have apart : pair.longIdx ≠ pair.shortIdx := by
    intro same
    have slots := found.long
    rw [same, found.short, Option.some.injEq, RawNode.intent.injEq] at slots
    have sides := congrArg IntentNode.side slots
    rw [found.longSide, found.shortSide] at sides
    cases sides
  have longs := new_or_older consistent.orderly posted found.long
  have shorts := new_or_older consistent.orderly posted found.short
  rw [MatchResult.taker, takes]
  rcases longs with ⟨long_at, long_seq, long_seat⟩ | ⟨long_id, long_seq⟩
  · rcases shorts with ⟨short_at, -, -⟩ | ⟨-, short_seq⟩
    · exact absurd (long_at.trans short_at.symm) apart
    · rw [if_pos (decide_eq_true (by omega))]
      rw [long_seat, seated] at long
      exact (Option.some.inj long).symm
  · rcases shorts with ⟨-, short_seq, short_seat⟩ | ⟨short_id, -⟩
    · rw [if_neg (by rw [decide_eq_true_eq]; omega)]
      rw [short_seat, seated] at short
      exact (Option.some.inj short).symm
    · omega

/-- Whoever posts takes in the match that the post tries. -/
theorem TriesMatch.taker {post : PostCtx} {args : PostIntentArgs} {ctx : MatchCtx} {longId shortId bucket : ℕ} {v : Ledger}
    {b b' : IntentBook} {r : MatchResult} (genuine : Genuine rt s) (books : Books rt s)
    (tries : TriesMatch inv post args s ctx longId shortId v) (held : v.data ctx.book = .intentBook b)
    (ran : (matchInBook rt ctx.instrument ctx.pmlc bucket longId shortId inv.slot).run b = .ok r b') : r.taker = post.owner := by
  obtain ⟨-, id, mid, other, _, _, _, _, _, _, _, _, posted, -, looked, rfl, ids⟩ := tries
  obtain ⟨posting⟩ := postIntent_ok posted
  have pruned := (posting.step_prune (posting.sound genuine books).2).sound
  have after := posting.book_after
  rw [← get_of_look (keeps_findOverlapOnSide _ _ _ _) looked] at after
  change v.data post.book = _ at held
  rw [Ledger.data, after] at held
  cases held
  refine taker_of_posted pruned.consistent posting.isSide posting.posted ?_ ran
  split at ids
  · cases ids
    exact .inl rfl
  · cases ids
    exact .inr rfl

/-- What follows a post leaves the cushion of everyone whose charge is covered. -/
theorem cushioned_tried {post : PostCtx} {args : PostIntentArgs}
    (covered : ∀ ctx longId shortId v bucket fee, TriesMatch inv post args s ctx longId shortId v →
      Takes inv ctx longId shortId v owner bucket fee → unit * fee ≤ charge * bucket)
    (ran : (doPostIntentInner rt inv post args).run s = .ok u t) :
    ∃ id mid, (postIntent rt inv post args).run s = .ok id mid ∧ Cushioned unit charge owner mid t := by
  by_cases tries : args.tryMatch ≠ 0
  · obtain ⟨mid, plain, rest⟩ := doPostIntentInner_split tries ran
    rw [doPostIntentInner, Exec.bind_ok] at plain
    obtain ⟨id, mid', posted, still⟩ := plain
    rcases Exec.when_ok.mp still with ⟨impossible, -⟩ | ⟨-, rfl⟩
    · exact absurd rfl impossible
    refine ⟨id, _, posted, ?_⟩
    rcases rest with rfl | ⟨ctx, longId, shortId, caught, matching, swallowed⟩
    · exact Std.Refl.refl _
    · refine cushioned_matchPairCore (covered ctx longId shortId _ · · matching) ?_
      rcases Exec.swallow_ok.mp swallowed with ⟨-, matched⟩ | ⟨e, -, failed⟩
      · rw [matched]
        rfl
      · rw [failed]
        rfl
  · rw [doPostIntentInner, Exec.bind_ok] at ran
    obtain ⟨id, mid, posted, still⟩ := ran
    rcases Exec.when_ok.mp still with ⟨impossible, -⟩ | ⟨-, rfl⟩
    · exact absurd impossible tries
    exact ⟨id, _, posted, Std.Refl.refl _⟩

/-- Whoever does not post makes, and pays nothing. -/
theorem cushioned_doPostIntentInner {post : PostCtx} {args : PostIntentArgs} (genuine : Genuine rt s) (books : Books rt s)
    (other : post.owner ≠ owner) (ran : (doPostIntentInner rt inv post args).run s = .ok u t) :
    Cushioned unit charge owner s t := by
  have covered : ∀ ctx longId shortId v bucket fee, TriesMatch inv post args s ctx longId shortId v →
      Takes inv ctx longId shortId v owner bucket fee → unit * fee ≤ charge * bucket := by
    rintro ctx longId shortId v bucket fee tries ⟨inst, b, b', r, -, -, rfl, held, matched, mine, -⟩
    exact absurd ((tries.taker genuine books held matched).symm.trans mine) other
  obtain ⟨id, mid, posted, rest⟩ := cushioned_tried covered ran
  exact (cushioned_postIntent other posted).trans rest

/-! ### Runs -/

/-- No call of the run that returns acts for the owner. -/
def LeftAlone (rt : Runtime) (owner : Pubkey) : List (Call rt) → Ledger → Prop
  | [], _ => True
  | c :: rest, s => (c.returns s = true → ¬ c.ActsFor s owner) ∧ LeftAlone rt owner rest (execute rt c s)

/-- All that the calls of the run that return charge the owner, for each contract of a bucket, is as `P` says. -/
def AllCharges (rt : Runtime) (owner : Pubkey) (P : ℕ → ℕ → Prop) : List (Call rt) → Ledger → Prop
  | [], _ => True
  | c :: rest, s => (c.returns s = true → ∀ bucket charge, c.Charges s owner bucket charge → P bucket charge) ∧
      AllCharges rt owner P rest (execute rt c s)

/-- A call that does not act for the owner leaves its cushion, if what the owner is charged is covered. -/
theorem cushioned_of_process {c : Call rt} (genuine : Genuine rt s) (books : Books rt s) (alone : ¬ c.ActsFor s owner)
    (covered : ∀ bucket fee, c.Charges s owner bucket fee → unit * fee ≤ charge * bucket)
    (ran : (process rt c.inv c.instruction).run s = .ok () t) : Cushioned unit charge owner s t := by
  have unsigned : c.inv.isSigner owner = false := by
    rw [← Bool.not_eq_true]
    exact fun signed => alone (.inl signed)
  obtain ⟨inv, instr⟩ := c
  cases instr with
  | deposit amount => exact cushioned_processDeposit ran
  | withdraw amount => exact cushioned_processWithdraw unsigned ran
  | postIntent args =>
    rw [process, processPostIntent, Exec.bind_ok] at ran
    obtain ⟨post, s1, unpacked, ran⟩ := ran
    obtain ⟨rfl, signed, -⟩ := unpackPostIntent_ok unpacked
    exact cushioned_doPostIntentInner genuine books (ne_of_signed unsigned signed) ran
  | postIntentDelegated args =>
    rw [process, processPostIntentDelegated, Exec.bind_ok] at ran
    obtain ⟨post, s1, unpacked, ran⟩ := ran
    have acts := Call.actsFor_of_unpack (c := ⟨inv, .postIntentDelegated args⟩) unpacked
    obtain ⟨rfl, -⟩ := unpackPostIntentDelegated_ok unpacked
    refine cushioned_doPostIntentInner genuine books ?_ ran
    rintro rfl
    exact alone acts
  | cancelIntent id => exact cushioned_processCancelIntent ran
  | cancelIntentDelegated id => exact cushioned_processCancelIntentDelegated ran
  | pruneExpired => exact cushioned_processPruneExpired ran
  | matchPair args =>
    rw [process, processMatchPair, Exec.bind_ok] at ran
    obtain ⟨ctx, s1, unpacked, ran⟩ := ran
    obtain ⟨rfl, -, -⟩ := unpackMatchAccounts_ok unpacked
    exact cushioned_matchPairCore (fun _ _ takes => covered _ _ (.fee ⟨unpacked, rfl, rfl⟩ takes)) (by rw [ran]; rfl)
  | matchBestAvailable =>
    simp only [process, processMatchBestAvailable, Exec.bind_ok, Exec.orErr_ok] at ran
    obtain ⟨ctx, s1, unpacked, pair, s2, scanned, ⟨longId, shortId⟩, _, ⟨rfl, rfl⟩, ran⟩ := ran
    obtain ⟨rfl, -, -⟩ := unpackMatchAccounts_ok unpacked
    have books : Touches [.intentBook] [.intentBook] s s2 := Within.keeps.ok scanned
    have first : Cushioned unit charge owner s s2 := cushioned_of_touches books (by decide)
    exact first.trans (cushioned_matchPairCore (fun _ _ takes => covered _ _ (.fee ⟨_, unpacked, scanned⟩ takes))
      (by rw [ran]; rfl))
  | matchSubstitute args =>
    refine cushioned_doSubstitute genuine unsigned ?_ ran
    rintro bucket premium ⟨_, _, _, _, _, _, _, _, _, _, -, -, -, -, -, -, -, -, computed⟩
    cases computed
    rw [mul_zero]
    positivity
  | matchSubstituteWithSettle args =>
    refine cushioned_doSubstitute genuine unsigned (fun bucket premium enters => ?_) ran
    have paid := covered _ _ (.premium rfl enters)
    have whole := mul_le_mul_of_nonneg_left (Int.self_le_toNat premium) (Nat.cast_nonneg (α := ℤ) unit)
    exact whole.trans (by exact_mod_cast paid)
  | novate side => exact cushioned_processNovate unsigned ran
  | claimReentry args => exact cushioned_processClaimReentry unsigned ran
  | liquidate offset => exact cushioned_processLiquidate ran
  | resolve offset => exact cushioned_processResolve ran
  | closeMutual offset => exact cushioned_processCloseMutual ran
  | _ => exact cushioned_of_touches ((within_process rt inv _).keeps.ok ran) (by simp [Instruction.writes])

/-- What a run that leaves the owner alone makes of its margin accounts. -/
theorem cushioned_runCalls {calls : List (Call rt)} (reached : Reachable rt (fun instr => instr.expands = false) s)
    (plain : ∀ c ∈ calls, c.instruction.expands = false) (alone : LeftAlone rt owner calls s)
    (covered : AllCharges rt owner (fun bucket fee => unit * fee ≤ charge * bucket) calls s) :
    Cushioned unit charge owner s (runCalls rt calls s) := by
  induction calls generalizing s with
  | nil => exact Std.Refl.refl _
  | cons c rest ih =>
    have next : Reachable rt (fun instr => instr.expands = false) (execute rt c s) :=
      .call c reached (plain c List.mem_cons_self)
    have later : Cushioned unit charge owner (execute rt c s) (runCalls rt rest (execute rt c s)) :=
      ih next (fun c' member => plain c' (List.mem_cons_of_mem c member)) alone.2 covered.2
    refine Cushioned.trans ?_ later
    cases returns : c.returns s with
    | false =>
      rw [execute_of_not_returns returns]
      exact Std.Refl.refl _
    | true =>
      exact cushioned_of_process (genuine_of_reachable reached) (books_of_reachable (fun _ plain => plain) reached)
        (alone.1 returns) (covered.1 returns) (c.ran returns)

/-! ### What can be charged -/

/-- A match that is asked for is charged by a schedule of the program. -/
theorem feeSchedule_of_unpackMatchAccounts {ctx : MatchCtx} (ran : (unpackMatchAccounts rt inv).run s = .ok ctx t) :
    s.owner ctx.feeSchedule = rt.programId := by
  unfold unpackMatchAccounts at ran
  split at ran
  · simp only [Exec.bind_check, exists_const] at ran
    obtain ⟨-, -, -, -, -, -, -, ran⟩ := ran
    split at ran
    · simp only [Exec.bind_check, exists_const] at ran
      obtain ⟨-, -, -, owned, _, -, ran⟩ := ran
      obtain ⟨rfl, -⟩ := Exec.pure_ok.mp ran
      exact owned _ (by simp)
    · cases ran
  · cases ran

theorem Takes.congr {ctx : MatchCtx} {longId shortId bucket fee : ℕ} (same : ∀ k, t.get k = s.get k)
    (takes : Takes inv ctx longId shortId t owner bucket fee) : Takes inv ctx longId shortId s owner bucket fee := by
  have data : ∀ k, t.data k = s.data k := fun k => congrArg Account.data (same k)
  obtain ⟨inst, b, b', r, found, at_book, of_bucket, held, ran, mine, rfl⟩ := takes
  rw [data] at found held
  refine ⟨inst, b, b', r, found, at_book, of_bucket, held, ran, mine, takerFee_congr (data _) ?_⟩
  rw [Ledger.volume, Ledger.volume, data]

/-- Whoever does not act is charged in a match that others ask for, or when its bid is taken. -/
theorem Call.Charges.resting {c : Call rt} {bucket fee : ℕ} (genuine : Genuine rt s) (books : Books rt s)
    (alone : ¬ c.ActsFor s owner) (charges : c.Charges s owner bucket fee) :
    (∃ ctx longId shortId, (unpackMatchAccounts rt c.inv).run s = .ok ctx s ∧
      Takes c.inv ctx longId shortId s owner bucket fee) ∨
      ∃ args premium, Enters c.inv args true s owner bucket premium ∧ fee = premium.toNat := by
  obtain ⟨inv, instr⟩ := c
  cases charges with
  | premium settles enters => exact .inr ⟨_, _, enters, rfl⟩
  | @fee ctx longId shortId v _ matching takes =>
    left
    unfold Call.Matches at matching
    split at matching
    next args _ =>
      obtain ⟨unpacked, -, -⟩ := matching
      obtain ⟨rfl, -, -⟩ := unpackMatchAccounts_ok unpacked
      exact ⟨ctx, longId, shortId, unpacked, takes⟩
    next =>
      obtain ⟨_, unpacked, scanned⟩ := matching
      obtain ⟨rfl, -, -⟩ := unpackMatchAccounts_ok unpacked
      exact ⟨ctx, longId, shortId, unpacked, takes.congr (get_of_look (keeps_scanForFirstValidPair _) scanned)⟩
    next args _ =>
      obtain ⟨post, _, unpacked, tries⟩ := matching
      obtain ⟨rfl, signed, -⟩ := unpackPostIntent_ok unpacked
      obtain ⟨inst, b, b', r, -, -, rfl, held, matched, mine, -⟩ := takes
      rw [tries.taker genuine books held matched] at mine
      exact absurd (.inl (mine ▸ signed)) alone
    next args _ =>
      obtain ⟨post, _, unpacked, tries⟩ := matching
      have acts := Call.actsFor_of_unpack (c := ⟨inv, instr⟩) unpacked
      obtain ⟨rfl, -⟩ := unpackPostIntentDelegated_ok unpacked
      obtain ⟨inst, b, b', r, -, -, rfl, held, matched, mine, -⟩ := takes
      rw [tries.taker genuine books held matched] at mine
      exact absurd (mine ▸ acts) alone
    next => cases matching

/-- Nor is it charged more than the collateral of the contract. -/
theorem Call.Charges.le_bucket {c : Call rt} {bucket fee : ℕ} (reached : Reachable rt (fun instr => instr.expands = false) s)
    (alone : ¬ c.ActsFor s owner) (charges : c.Charges s owner bucket fee) : fee ≤ bucket := by
  rcases charges.resting (genuine_of_reachable reached) (books_of_reachable (fun _ plain => plain) reached) alone with
    ⟨ctx, longId, shortId, unpacked, _, _, _, _, -, -, -, -, -, -, rfl⟩ |
    ⟨args, premium, ⟨_, _, _, _, _, _, _, _, _, _, -, -, -, -, -, -, -, -, computed⟩, rfl⟩
  · have owned := feeSchedule_of_unpackMatchAccounts unpacked
    exact takerFee_le fun f held => schedule_of_reachable reached _ f (get_eq_of_data owned held)
  · have bounded := substitutionDelta_le computed
    omega

/-- So it is in a whole run. -/
theorem allCharges_le_bucket {calls : List (Call rt)} (reached : Reachable rt (fun instr => instr.expands = false) s)
    (plain : ∀ c ∈ calls, c.instruction.expands = false) (alone : LeftAlone rt owner calls s) :
    AllCharges rt owner (fun bucket fee => 1 * fee ≤ 1 * bucket) calls s := by
  induction calls generalizing s with
  | nil => trivial
  | cons c rest ih =>
    have next : Reachable rt (fun instr => instr.expands = false) (execute rt c s) :=
      .call c reached (plain c List.mem_cons_self)
    refine ⟨fun returns bucket fee charges => ?_, ih next (fun c' member => plain c' (List.mem_cons_of_mem c member)) alone.2⟩
    have bounded := charges.le_bucket reached (alone.1 returns)
    omega

/-- Whatever others do, and however many calls it takes them: what becomes free or stays reserved falls by at most as
much as the reserve falls, and in total no more is lost than what was locked and twice what was reserved. -/
theorem loss_bounded (reached : Reachable rt (fun instr => instr.expands = false) s) {m : MarginAccount}
    (held : s.get k = ⟨rt.programId, .marginAccount m⟩) (calls : List (Call rt))
    (plain : ∀ c ∈ calls, c.instruction.expands = false) (alone : LeftAlone rt m.owner calls s) :
    ∃ m', (runCalls rt calls s).get k = ⟨rt.programId, .marginAccount m'⟩ ∧ m.SameAccount m' ∧
      m.freeCollateral + m'.reservedCollateral ≤ m'.freeCollateral + m.reservedCollateral ∧
      m.total ≤ m'.total + m.lockedCollateral + 2 * m.reservedCollateral := by
  have charges := allCharges_le_bucket reached plain alone
  obtain ⟨m', held', same, le⟩ := cushioned_runCalls reached plain alone charges k _ m held rfl
  rw [MarginAccount.cushion, MarginAccount.cushion] at le
  refine ⟨m', held', same, ?_, ?_⟩
  · omega
  · rw [MarginAccount.total, MarginAccount.total]
    omega

/-! ### The bound is met -/

theorem Call.not_actsFor {c : Call rt} (unsigned : c.inv.isSigner owner = false)
    (none : (s.data (rt.address (.session owner))).kind ≠ .session) : ¬ c.ActsFor s owner := by
  rintro (signed | ⟨x, held, -⟩)
  · rw [unsigned] at signed
    cases signed
  · rw [Ledger.data, held] at none
    exact none rfl

namespace Sample

/-- Post an intent for one contract at this price. -/
def bid (owner : Pubkey) (side : UInt8) (priceFp : UInt64) : Call Runtime.sample :=
  call (.postIntent ⟨side, priceFp, 1, 100, 0, 0⟩) [owner] [owner, config, instrument poly, book poly, marginOf owner]

/-- Alice is long at 0.4 and offers to leave at this price. Bob bids twice as much. -/
def bidding : Ledger :=
  runCalls Runtime.sample (launch 0 ++ [openMarket poly, bid alice 0 400000000000000000, bid carol 1 400000000000000000,
    fill poly alice carol 1 2 3, bid alice 1 400000000000000000, bid bob 0 800000000000000000]) genesis

/-- Alice leaves with her gain, and the market resolves against the side that Bob has taken over. -/
def afterBidding : List (Call Runtime.sample) :=
  [call (.matchSubstituteWithSettle ⟨5, 4, 0⟩) [alice] [alice, instrument poly, book poly, pmlc poly 3, marginOf alice, marginOf bob],
   resolve poly bob carol 3 (outcome 1 0)]

theorem leftAlone_afterBidding : LeftAlone Runtime.sample bob afterBidding bidding := by
  refine ⟨fun _ => Call.not_actsFor ?_ ?_, fun _ => Call.not_actsFor ?_ ?_, trivial⟩
  · decide +kernel
  · decide +kernel
  · decide +kernel
  · decide +kernel

end Sample

/-- Bob loses two buckets on one contract: the price of the side that he enters, and what is locked for it. -/
theorem loss_bounded_bidding : ∃ m m', Sample.bidding.get (Sample.marginOf Sample.bob) =
      ⟨Runtime.sample.programId, .marginAccount m⟩ ∧
    (runCalls Runtime.sample Sample.afterBidding Sample.bidding).get (Sample.marginOf Sample.bob) =
      ⟨Runtime.sample.programId, .marginAccount m'⟩ ∧
    m.total ≤ m'.total + m.lockedCollateral + 2 * m.reservedCollateral ∧
    m.reservedCollateral = 1000 ∧ m.lockedCollateral = 0 ∧ m.total = m'.total + 2000 := by
  obtain ⟨m, read, balances⟩ := Sample.exists_of_read (by decide +kernel :
    (Sample.bidding.data (Sample.marginOf Sample.bob)).loadMargin.toOption.map (fun m =>
      (m.owner, m.total, m.reservedCollateral, m.lockedCollateral)) = some (Sample.bob, 100000, 1000, 0))
  obtain ⟨m'', read', total'⟩ := Sample.exists_of_read (by decide +kernel :
    ((runCalls Runtime.sample Sample.afterBidding Sample.bidding).data (Sample.marginOf Sample.bob)).loadMargin.toOption.map
      MarginAccount.total = some 98000)
  simp only [Prod.mk.injEq] at balances
  obtain ⟨owner, total, reserved, locked⟩ := balances
  have owned : Sample.bidding.owner (Sample.marginOf Sample.bob) = Runtime.sample.programId := by decide +kernel
  have held := get_eq_of_data owned (AccountData.loadMargin_ok.mp read)
  have reached : Reachable Runtime.sample (fun instr => instr.expands = false) Sample.bidding :=
    Sample.reachable (by decide +kernel)
  obtain ⟨m', held', -, -, bounded⟩ := loss_bounded reached held Sample.afterBidding (by decide +kernel)
    (owner.symm ▸ Sample.leftAlone_afterBidding)
  have same : m'' = m' := by
    have found := AccountData.loadMargin_ok.mp read'
    rw [Ledger.data, held'] at found
    exact (AccountData.marginAccount.inj found).symm
  exact ⟨m, m', held, held', bounded, reserved, locked, by rw [total, ← same, total']⟩

end Polyleverage

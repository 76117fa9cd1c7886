import Polyleverage.Guarantees.Sessions
import Polyleverage.Guarantees.TakeBack

/-! # What a delegate can take back

An intent that a delegate posted stays the intent of the session's owner, whatever happens to its book, and the
session keeps its terms until the owner creates a new one. A cancel by the delegate asks for an active session,
though, and a session whose cap is used up is not active: then the delegate has to leave the intent where it is.
-/

namespace Polyleverage

variable {rt : Runtime} {s t : Ledger} {id : ℕ} {owner delegate instrument book margin session : Pubkey} {b b' : IntentBook}

/-! ### The terms of a session -/

/-- What a session allows, whatever was used of it. -/
def Session.terms (x : Session) : Pubkey × Pubkey × ℕ × List Pubkey :=
  (x.owner, x.delegate, x.expiresAtSlot, x.allowedInstruments)

/-- A call that does not renew a session keeps its terms. -/
theorem terms_execute {c : Call rt} {x : Session} (held : s.get (rt.address (.session owner)) = ⟨rt.programId, .session x⟩)
    (not_renewed : renews rt owner c s = false) :
    ∃ y, (execute rt c s).get (rt.address (.session owner)) = ⟨rt.programId, .session y⟩ ∧ y.terms = x.terms := by
  by_cases returns : c.returns s = true
  · have ran := Call.ran returns
    have untouched : AccountKind.session ∉ c.instruction.writes →
        ∃ y, (execute rt c s).get (rt.address (.session owner)) = ⟨rt.programId, .session y⟩ ∧ y.terms = x.terms := by
      intro unwritten
      refine ⟨x, ?_, rfl⟩
      rw [((within_process rt c.inv c.instruction).keeps.ok ran).get_eq (by rwa [data_of_get held]), held]
    cases is_instr : c.instruction with
    | createSession args =>
      rw [is_instr] at ran
      obtain ⟨signer, config, session, rest, y, accounts, -, here, -, -, -, -, -, others⟩ := processCreateSession_ok ran
      refine ⟨x, ?_, rfl⟩
      rw [others, held]
      rintro same
      rw [← here] at same
      obtain rfl : owner = signer := by simpa using rt.address_injective _ _ same
      unfold renews at not_renewed
      rw [is_instr, accounts] at not_renewed
      simp [returns] at not_renewed
    | revokeSession =>
      rw [is_instr] at ran
      obtain ⟨signer, session, rest, y, accounts, -, here, found, mine, after⟩ := processRevokeSession_ok ran
      rw [after]
      by_cases own : rt.address (.session owner) = session
      · subst own
        cases congrArg Account.data (held.symm.trans found)
        exact ⟨x.revoke, by rw [Ledger.get_setData_self, owner_of_get held], rfl⟩
      · exact ⟨x, by rw [Ledger.get_setData_of_ne _ _ own, held], rfl⟩
    | postIntentDelegated args =>
      rw [is_instr] at ran
      obtain ⟨ctx, id, mid, feePayer, delegate, config, session, rest, y, -, accounts, given, -, found, -, posted,
        matched⟩ := processPostIntentDelegated_ok ran
      have touched := touches_inlineMatch matched
      obtain ⟨posting⟩ := postIntent_ok posted
      obtain ⟨z, at_mid, same⟩ :
          ∃ z, mid.get (rt.address (.session owner)) = ⟨rt.programId, .session z⟩ ∧ z.terms = x.terms := by
        by_cases own : rt.address (.session owner) = session
        · subst own
          have charged := posting.charged
          rw [given] at charged
          obtain ⟨z, z', at_session, recorded, after⟩ := charged
          cases at_session.symm.trans (data_of_get held)
          obtain ⟨-, rfl⟩ := Session.recordIntent_ok.mp recorded
          rw [owner_of_get held] at after
          exact ⟨_, after, rfl⟩
        · refine ⟨x, ?_, rfl⟩
          rw [posting.others, held]
          · intro same
            have found := posting.book_eq
            rw [← same, data_of_get held] at found
            cases found
          · intro same
            have found := posting.margin_eq
            rw [← same, data_of_get held] at found
            cases found
          · rw [given]
            exact fun same => own (Option.some.inj same).symm
      exact ⟨z, by rw [touched.get_eq (by simp [data_of_get at_mid]), at_mid], same⟩
    | _ =>
      apply untouched
      rw [is_instr]
      simp [Instruction.writes]
  · rw [Bool.not_eq_true] at returns
    rw [execute_of_not_returns returns]
    exact ⟨x, held, rfl⟩

theorem terms_runCalls {calls : List (Call rt)} {x : Session}
    (held : s.get (rt.address (.session owner)) = ⟨rt.programId, .session x⟩) (never : NeverRenewed rt owner calls s) :
    ∃ y, (runCalls rt calls s).get (rt.address (.session owner)) = ⟨rt.programId, .session y⟩ ∧ y.terms = x.terms := by
  induction calls generalizing s x with
  | nil => exact ⟨x, held, rfl⟩
  | cons c rest ih =>
    obtain ⟨first, never⟩ := never
    obtain ⟨y, held', same⟩ := terms_execute held first
    obtain ⟨z, held'', same'⟩ := ih held' never
    exact ⟨z, held'', same'.trans same⟩

/-! ### The intent of an owner -/

/-- The number was given, and the order that has it, if there still is one, is this trader's. -/
structure IntentBook.Owned (b : IntentBook) (id : ℕ) (owner : Pubkey) : Prop where
  given : id < b.header.nextIntentId
  seated : ∀ i o, b.order i = some o → o.id = id → b.trader o.ownerSeat = some owner

theorem Heirs.owned (heirs : Heirs b b') (owned : b.Owned id owner) : b'.Owned id owner where
  given := owned.given.trans_le heirs.ids
  seated i o placed named := by
    rcases heirs.orders i o placed with new | ⟨o', old, seat, number⟩
    · exact absurd owned.given (by omega)
    · rw [seat]
      exact heirs.traders _ _ (owned.seated i o' old (number.symm.trans named))

/-- What is posted is the poster's. -/
theorem Book.owned_of_post {d : Book.Draft} (consistent : Consistent b) (isSide : IsSide d.side)
    (ran : (Book.post owner d).run b = .ok id b') : b'.Owned id owner := by
  obtain ⟨-, rfl, slot, seat, posted, -⟩ := Book.post_ok consistent isSide ran
  have next : b'.header.nextIntentId = b.header.nextIntentId + 1 := congrArg IntentBookHeader.nextIntentId posted.header
  refine ⟨by omega, fun i o placed named => ?_⟩
  have order : b'.order = Function.update b.order slot _ := posted.order
  rw [order] at placed
  by_cases here : i = slot
  · subst here
    rw [Function.update_self] at placed
    cases placed
    exact posted.owned
  · rw [Function.update_of_ne here] at placed
    have earlier : o.id < b.header.nextIntentId := consistent.orderly.id_lt i o placed
    omega

/-- What happens to a sound book that does not grow. -/
theorem Evolves.heirs {terms : InstrumentConfig → Prop} {posts : Pubkey → Prop} {c : InstrumentConfig} (evolves : Evolves rt terms posts False b b')
    (unique : ∀ c', terms c' → c' = c) (sound : Sound c.collateralBucket b) : Sound c.collateralBucket b' ∧ Heirs b b' := by
  induction evolves with
  | refl => exact ⟨sound, Std.Refl.refl b⟩
  | tail _ event ih =>
    obtain ⟨c', known, event⟩ := event
    obtain rfl := unique c' known
    obtain ⟨sound', heirs, -⟩ := sound_of_event event ih.1
    exact ⟨sound', Trans.trans ih.2 heirs⟩

/-- The book of this instrument, in which this number is the owner's. -/
def OwnedAt (rt : Runtime) (instrument book : Pubkey) (id : ℕ) (owner : Pubkey) (s : Ledger) : Prop :=
  ∃ b, s.get book = ⟨rt.programId, .intentBook b⟩ ∧ rt.address (.book b.header.instrument) = book ∧
    b.header.instrument = instrument ∧ b.Owned id owner

theorem OwnedAt.evolves {c : InstrumentConfig} {listed : Pubkey → InstrumentConfig → Prop} {posts : Pubkey → Prop}
    (before : OwnedAt rt instrument book id owner s)
    (unique : ∀ c', listed instrument c' → c' = c)
    (sound : ∀ b, s.get book = ⟨rt.programId, .intentBook b⟩ → Sound c.collateralBucket b)
    (evolves : EvolvesAt rt book listed posts False s t) : OwnedAt rt instrument book id owner t := by
  obtain ⟨b, held, home, rfl, owned⟩ := before
  obtain ⟨b', held', evolved⟩ := evolves b held home
  have same := evolved.same.instrument
  exact ⟨b', held', by rw [same, home], same, (evolved.heirs unique (sound b held)).2.owned owned⟩

/-- What holds of the book of an instrument while nothing grows. -/
structure Standing (rt : Runtime) (instrument book : Pubkey) (c : InstrumentConfig) (id : ℕ) (owner : Pubkey) (s : Ledger) :
    Prop where
  genuine : Genuine rt s
  books : Books rt s
  listed : s.Listed rt instrument c
  owned : OwnedAt rt instrument book id owner s

theorem Standing.process {c : Call rt} {terms : InstrumentConfig} (before : Standing rt instrument book terms id owner s)
    (plain : c.instruction.expands = false) (ran : (Polyleverage.process rt c.inv c.instruction).run s = .ok () t) :
    Standing rt instrument book terms id owner t := by
  have kept := upkeep_process before.genuine ran
  refine ⟨kept.genuine, kept.books plain before.books, kept.fixed _ _ before.listed, ?_⟩
  have unique : ∀ c', s.Listed rt instrument c' → c' = terms := fun c' known => known.unique before.listed
  have evolves : EvolvesAt rt book (s.Listed rt) (c.ActsFor s) False s t := by
    intro b held home
    obtain ⟨b', held', evolved⟩ := evolvesAt_process before.genuine ran b held home
    refine ⟨b', held', evolved.weaken (fun _ acts => acts) ?_⟩
    rintro ⟨n, expands, -⟩
    rw [expands] at plain
    cases plain
  refine before.owned.evolves unique (fun b held => ?_) evolves
  obtain ⟨-, c', listed, sound⟩ := before.books.book_ok (owner_of_get held) (data_of_get held)
  obtain ⟨b', held', -, same, -⟩ := before.owned
  cases congrArg Account.data (held.symm.trans held')
  rw [same] at listed
  rwa [listed.unique before.listed] at sound

/-- A post gives out the next number of the book. -/
theorem number_of_posting {inv : rt.Invocation} {ctx : PostCtx} {args : PostIntentArgs} {bucket : ℕ}
    (posting : Posting rt inv s ctx args id t) (sound : Sound bucket posting.b) : id = posting.b.header.nextIntentId := by
  have pruned := bookStep_pruneOwnExpired sound posting.pruned
  obtain ⟨-, is_next, -⟩ := Book.post_ok pruned.sound.consistent posting.isSide posting.posted
  obtain ⟨work, -, -, -, view, -⟩ := Book.pruneOwnExpired_ok sound.consistent.tidy posting.pruned
  have next : posting.b1.header.nextIntentId = posting.b.header.nextIntentId :=
    congrArg (fun v : BookView => v.header.nextIntentId) view
  exact is_next.trans next

/-- The intent that a post put in the book, whatever became of it in a match, is the owner's. -/
theorem ownedAt_of_posting {inv : rt.Invocation} {ctx : PostCtx} {args : PostIntentArgs} {mid : Ledger}
    (genuine : Genuine rt s) (books : Books rt s) (posting : Posting rt inv s ctx args id mid)
    {posts : Pubkey → Prop} (after : EvolvesAt rt ctx.book (s.Listed rt) posts False mid t) :
    OwnedAt rt ctx.instrument ctx.book id ctx.owner t := by
  obtain ⟨same, sound⟩ := posting.sound genuine books
  have home := home_of_load genuine (posting.owned _ (by simp)) posting.instrument_eq posting.book_of
  have pruned := posting.step_prune sound
  have posted := posting.step_post sound
  have instrument : posting.b2.header.instrument = ctx.instrument := by rw [posted.instrument, pruned.instrument, same]
  have before : OwnedAt rt ctx.instrument ctx.book id ctx.owner mid := by
    refine ⟨posting.b2, posting.book_after, by rw [instrument, home], instrument, ?_⟩
    exact Book.owned_of_post pruned.sound.consistent posting.isSide posting.posted
  refine before.evolves (fun c' known => known.unique posting.listed) (fun b held => ?_) after
  cases congrArg Account.data (held.symm.trans posting.book_after)
  exact posted.sound

/-! ### The cancel -/

/-- The delegate cancels this intent, with the accounts with which it was posted. -/
structure Call.CancelsFor (c : Call rt) (id : ℕ) (delegate instrument book margin session : Pubkey) : Prop where
  cancels : ∃ intentId, c.instruction = .cancelIntentDelegated intentId ∧ intentId.toNat = id
  accounts : ∃ feePayer rest, c.inv.accounts = feePayer :: delegate :: instrument :: book :: margin :: session :: rest ∧
    c.inv.isSigner feePayer = true ∧ c.inv.isWritable feePayer = true
  signed : c.inv.isSigner delegate = true
  writable_book : c.inv.isWritable book = true
  writable_margin : c.inv.isWritable margin = true

theorem Call.CancelsFor.session_eq {c : Call rt} (cancels : c.CancelsFor id delegate instrument book margin session) :
    c.session = some session := by
  obtain ⟨intentId, is_cancel, -⟩ := cancels.cancels
  obtain ⟨feePayer, rest, accounts, -⟩ := cancels.accounts
  rw [Call.session, is_cancel, accounts]

/-- Of a session that is neither revoked nor expired, the cap decides whether the delegate's cancel returns. -/
theorem Call.CancelsFor.returns_iff {c : Call rt} {inst : InstrumentConfig} {i : ℕ} {o : IntentNode} {m : MarginAccount}
    {x : Session}
    (cancels : c.CancelsFor o.id x.delegate instrument inst.intentBook (rt.address (.margin x.owner inst.collateralMint))
      (rt.address (.session x.owner)))
    (genuine : Genuine rt s) (consistent : Consistent b)
    (listed : s.get instrument = ⟨rt.programId, .instrumentConfig inst⟩)
    (held : s.get inst.intentBook = ⟨rt.programId, .intentBook b⟩) (placed : b.order i = some o)
    (seated : b.trader o.ownerSeat = some x.owner)
    (found : s.get (rt.address (.margin x.owner inst.collateralMint)) = ⟨rt.programId, .marginAccount m⟩)
    (enough : o.reservedCollateral + o.feeBuffer ≤ m.reservedCollateral)
    (at_session : s.get (rt.address (.session x.owner)) = ⟨rt.programId, .session x⟩)
    (allows : x.allowsInstrument instrument = true) (unrevoked : x.revoked = 0) (unexpired : c.inv.slot < x.expiresAtSlot) :
    (c.returns s = true ↔ x.cumulativeCollateralUsed < x.cumulativeCollateralCap ∧
        m.freeCollateral + (o.reservedCollateral + o.feeBuffer) < 2 ^ 64) ∧
      (c.returns s = true → ∃ b', b'.view = { b.view with order := Function.update b.view.order i none } ∧
        execute rt c s = (s.setData inst.intentBook (.intentBook b')).setData
          (rt.address (.margin x.owner inst.collateralMint)) (.marginAccount
            { m with
              freeCollateral := m.freeCollateral + (o.reservedCollateral + o.feeBuffer)
              reservedCollateral := m.reservedCollateral - (o.reservedCollateral + o.feeBuffer) })) := by
  have active_iff : x.isActive c.inv.slot = true ↔ x.cumulativeCollateralUsed < x.cumulativeCollateralCap := by
    simp only [Session.isActive, unrevoked, unexpired, true_and, decide_eq_true_eq]
  have takes (active : x.isActive c.inv.slot = true) : TakesBack rt inst instrument x.owner o s c := by
    obtain ⟨intentId, is_cancel, named⟩ := cancels.cancels
    obtain ⟨feePayer, rest, accounts, payer_signed, payer_writable⟩ := cancels.accounts
    exact .delegate is_cancel named accounts payer_signed payer_writable cancels.signed cancels.writable_book
      cancels.writable_margin at_session ⟨rfl, active, allows, rfl, rfl⟩
  have spec (active : x.isActive c.inv.slot = true) :=
    (takes active).returns_iff genuine consistent listed held placed seated found enough
  have actives (returns : c.returns s = true) : x.isActive c.inv.slot = true := by
    obtain ⟨y, held, active⟩ := Call.session_active cancels.session_eq returns
    cases congrArg Account.data (at_session.symm.trans held)
    exact active
  refine ⟨⟨fun returns => ?_, fun below => ?_⟩, fun returns => (spec (actives returns)).2 returns⟩
  · exact ⟨active_iff.mp (actives returns), (spec (actives returns)).1.mp returns⟩
  · exact (spec (active_iff.mpr below.1)).1.mpr below.2

/-- A delegate's intent, as long as it is live and nothing has grown a book: with the session that it was posted
under, neither revoked nor expired, the delegate's cancel returns exactly when the cap of the session is not used up
(and the owner's free balance can take the refund), and then all that the intent reserves is free. -/
theorem delegate_refund_iff (reached : Reachable rt (fun instr => instr.expands = false) s) {post : Call rt}
    {args : PostIntentArgs} {feePayer config : Pubkey} {rest : List Pubkey} {b0 : IntentBook} {x : Session}
    (posts : post.instruction = .postIntentDelegated args)
    (accounts : post.inv.accounts = feePayer :: delegate :: config :: instrument :: book :: margin :: session :: rest)
    (returned : post.returns s = true) (at_book : s.get book = ⟨rt.programId, .intentBook b0⟩)
    (at_session : s.get session = ⟨rt.programId, .session x⟩) {later : List (Call rt)}
    (plain : ∀ c ∈ later, c.instruction.expands = false) (never : NeverRenewed rt x.owner later (execute rt post s)) :
    (∃ ctx mid, (unpackPostIntentDelegated rt post.inv).run s = .ok ctx s ∧
      (postIntent rt post.inv ctx args).run s = .ok b0.header.nextIntentId mid) ∧
    ∃ y, (runCalls rt (post :: later) s).get session = ⟨rt.programId, .session y⟩ ∧ y.terms = x.terms ∧
      ∀ b i o, (runCalls rt (post :: later) s).get book = ⟨rt.programId, .intentBook b⟩ → b.order i = some o →
        o.id = b0.header.nextIntentId → ∃ m, (runCalls rt (post :: later) s).get margin = ⟨rt.programId, .marginAccount m⟩ ∧
          ∀ c : Call rt, c.CancelsFor o.id delegate instrument book margin session → y.revoked = 0 →
            c.inv.slot < y.expiresAtSlot →
              (c.returns (runCalls rt (post :: later) s) = true ↔ y.cumulativeCollateralUsed < y.cumulativeCollateralCap ∧
                m.freeCollateral + (o.reservedCollateral + o.feeBuffer) < 2 ^ 64) ∧
              (c.returns (runCalls rt (post :: later) s) = true →
                ∃ b', b'.view = { b.view with order := Function.update b.view.order i none } ∧
                  execute rt c (runCalls rt (post :: later) s) =
                    ((runCalls rt (post :: later) s).setData book (.intentBook b')).setData margin (.marginAccount
                      { m with
                        freeCollateral := m.freeCollateral + (o.reservedCollateral + o.feeBuffer)
                        reservedCollateral := m.reservedCollateral - (o.reservedCollateral + o.feeBuffer) })) := by
  have genuine := genuine_of_reachable reached
  have books := books_of_reachable (fun _ still => still) reached
  have ran := post.ran returned
  rw [posts] at ran
  obtain ⟨ctx, id, mid, payer, delegate', config', session', rest', x', unpacked, accounts', given, -, found, live, posted,
    tried⟩ := processPostIntentDelegated_ok ran
  rw [accounts] at accounts'
  cases accounts'
  cases congrArg Account.data (at_session.symm.trans found)
  obtain ⟨posting⟩ := postIntent_ok posted
  obtain rfl : b0 = posting.b := by
    have same := posting.book_eq
    rw [data_of_get at_book] at same
    cases same
    rfl
  have listed := posting.listed
  obtain ⟨-, sound⟩ := posting.sound genuine books
  have number := number_of_posting posting sound
  have kept := upkeep_process genuine (post.ran returned)
  have still : post.instruction.expands = false := by
    rw [posts]
    rfl
  have matched : EvolvesAt rt ctx.book (s.Listed rt) (fun _ => True) False mid (execute rt post s) :=
    evolvesAt_tried genuine posted tried
  have start : Standing rt ctx.instrument ctx.book posting.inst.listing id ctx.owner (execute rt post s) :=
    ⟨kept.genuine, kept.books still books, kept.fixed _ _ listed, ownedAt_of_posting genuine books posting matched⟩
  have standing := runCalls_induct (fun c member _ _ before ran => before.process (plain c member) ran) start
  have unrenewed : renews rt x.owner post s = false := by
    unfold renews
    rw [posts]
  have kept_terms : NeverRenewed rt x.owner (post :: later) s := ⟨unrenewed, never⟩
  obtain ⟨y, held, same⟩ := terms_runCalls (by rwa [live.address_eq]) kept_terms
  rw [live.address_eq] at held
  have covered := reserve_covered (fun _ still => still) (Reachable.runCalls plain (.call post reached still))
  rw [runCalls_cons] at held ⊢
  generalize runCalls rt later (execute rt post s) = t at *
  rw [← number]
  refine ⟨⟨ctx, mid, unpacked, posted⟩, y, held, same, fun b i o at_book' placed named => ?_⟩
  obtain ⟨b', at_book'', -, -, owned⟩ := standing.owned
  cases congrArg Account.data (at_book'.symm.trans at_book'')
  obtain ⟨owned_instrument, status, at_instrument⟩ := standing.listed.account
  have listed' := get_eq_of_data owned_instrument at_instrument
  have seated := owned.seated i o placed named
  obtain ⟨owner_eq, delegate_eq, -, allowed_eq⟩ : y.owner = x.owner ∧ y.delegate = x.delegate ∧
      y.expiresAtSlot = x.expiresAtSlot ∧ y.allowedInstruments = x.allowedInstruments := by
    simpa [Session.terms] using same
  have mine : y.owner = ctx.owner := owner_eq.trans live.owner_eq
  have allows : y.allowsInstrument ctx.instrument = true := by
    rw [Session.allowsInstrument, allowed_eq]
    exact live.allows
  have sound' := (standing.genuine.sound_of_listed standing.books standing.listed posting.book_of
    (owner_of_get at_book') (data_of_get at_book')).2
  rw [← posting.book_of] at at_book' ⊢
  rw [← posting.margin_address, ← live.address_eq, ← owner_eq, ← live.delegate_eq, ← delegate_eq]
  rw [← live.address_eq, ← owner_eq] at held
  rw [← mine] at seated ⊢
  obtain ⟨m, found', enough⟩ := margin_of_order standing.genuine standing.books (covered _ _) listed' at_book' placed seated
  refine ⟨m, found', fun c cancels unrevoked unexpired => ?_⟩
  let inst : InstrumentConfig := { posting.inst.listing with status }
  have here : c.CancelsFor o.id y.delegate ctx.instrument inst.intentBook (rt.address (.margin y.owner inst.collateralMint))
    (rt.address (.session y.owner)) := cancels
  exact here.returns_iff standing.genuine sound'.consistent listed' at_book' placed seated found' enough held allows
    unrevoked unexpired

namespace Sample

/-- Alice lets Bob post for her, up to this cap. -/
def budgeted (cap : UInt64) : Ledger :=
  runCalls Runtime.sample (launch 0 ++ [openMarket poly, call (.createSession ⟨bob, 50, 1000, cap, []⟩) [alice]
    [alice, config, Runtime.sample.address (.session alice), systemProgram]]) genesis

/-- Bob has posted twice. -/
def spent (cap : UInt64) : Ledger := runCalls Runtime.sample [postFor poly, postFor poly] (budgeted cap)

theorem reachable_budgeted (cap : UInt64) :
    Reachable Runtime.sample (fun instr => instr.expands = false) (budgeted cap) := by
  have launched : ∀ c ∈ launch 0, c.instruction.expands = false := by decide +kernel
  apply Sample.reachable
  intro c member
  rcases List.mem_append.mp member with early | late
  · exact launched c early
  · simp only [List.mem_cons, List.not_mem_nil, or_false] at late
    rcases late with rfl | rfl <;> rfl

theorem cancelsFor_cancelFor : cancelFor.CancelsFor 1 bob (Sample.instrument poly) (Sample.book poly) (marginOf alice)
    (Runtime.sample.address (.session alice)) where
  cancels := ⟨1, rfl, rfl⟩
  accounts := ⟨carol, [], rfl, rfl, rfl⟩
  signed := rfl
  writable_book := rfl
  writable_margin := rfl

end Sample

/-- Below the cap Bob takes back what he posted first. -/
theorem delegate_refund_iff_spent : Sample.cancelFor.returns (Sample.spent 3000) = true := by
  have owned : ∀ k ∈ [Sample.book Sample.poly, Runtime.sample.address (.session Sample.alice)],
      (Sample.budgeted 3000).owner k = Runtime.sample.programId := by decide +kernel
  obtain ⟨b0, read0, next⟩ := Sample.exists_of_read (by decide +kernel :
    ((Sample.budgeted 3000).data (Sample.book Sample.poly)).loadBook.toOption.map (·.header.nextIntentId) = some 1)
  obtain ⟨x, read1, -⟩ := Sample.exists_of_read (by decide +kernel :
    ((Sample.budgeted 3000).data (Runtime.sample.address (.session Sample.alice))).loadSession.toOption.map (·.owner) =
      some Sample.alice)
  have returned : (Sample.postFor Sample.poly).returns (Sample.budgeted 3000) = true := by decide +kernel
  have plain : ∀ c ∈ [Sample.postFor Sample.poly], c.instruction.expands = false := by decide +kernel
  have never : NeverRenewed Runtime.sample x.owner [Sample.postFor Sample.poly]
      (execute Runtime.sample (Sample.postFor Sample.poly) (Sample.budgeted 3000)) := ⟨rfl, trivial⟩
  obtain ⟨-, y, at_session, -, refund⟩ := delegate_refund_iff (Sample.reachable_budgeted 3000) rfl rfl returned
    (get_eq_of_data (owned _ (by simp)) (AccountData.loadBook_ok.mp read0))
    (get_eq_of_data (owned _ (by simp)) (AccountData.loadSession_ok.mp read1)) plain never
  obtain ⟨b, read2, order⟩ := Sample.exists_of_read (by decide +kernel :
    ((Sample.spent 3000).data (Sample.book Sample.poly)).loadBook.toOption.map (fun b => (b.order 2).map fun o =>
      (o.id, o.reservedCollateral + o.feeBuffer)) = some (some (1, 1000)))
  obtain ⟨o, placed, terms⟩ := Option.map_eq_some_iff.mp order
  obtain ⟨named, total⟩ := Prod.mk.inj terms
  have at_book : (Sample.spent 3000).get (Sample.book Sample.poly) = ⟨Runtime.sample.programId, .intentBook b⟩ :=
    get_eq_of_data (by decide +kernel) (AccountData.loadBook_ok.mp read2)
  obtain ⟨m, found, returns⟩ := refund b 2 o at_book placed (by rw [named, next])
  have uses : ((Sample.spent 3000).data (Runtime.sample.address (.session Sample.alice))).loadSession.toOption.map (fun y =>
      (y.revoked, y.expiresAtSlot, y.cumulativeCollateralUsed, y.cumulativeCollateralCap)) = some (0, 50, 2000, 3000) := by
    decide +kernel
  have free : ((Sample.spent 3000).data (Sample.marginOf Sample.alice)).loadMargin.toOption.map (·.freeCollateral) =
      some 98000 := by decide +kernel
  have at_session' : (Sample.spent 3000).data (Runtime.sample.address (.session Sample.alice)) = .session y :=
    data_of_get at_session
  have found' : (Sample.spent 3000).data (Sample.marginOf Sample.alice) = .marginAccount m := data_of_get found
  rw [AccountData.loadSession_ok.mpr at_session'] at uses
  rw [AccountData.loadMargin_ok.mpr found'] at free
  obtain ⟨unrevoked, expires, used, cap⟩ : y.revoked = 0 ∧ y.expiresAtSlot = 50 ∧ y.cumulativeCollateralUsed = 2000 ∧
      y.cumulativeCollateralCap = 3000 := by simpa [Except.toOption] using uses
  have small : m.freeCollateral = 98000 := Option.some.inj free
  have cancels := Sample.cancelsFor_cancelFor
  rw [← named] at cancels
  refine (returns Sample.cancelFor cancels unrevoked (by rw [expires]; decide)).1.mpr ⟨?_, ?_⟩
  · rw [used, cap]
    decide
  · rw [small, total]
    decide

/-- With the cap used up Bob cannot take back what he posted, although Alice's session is neither revoked nor expired. -/
theorem delegate_refund_refused : Reachable Runtime.sample (fun instr => instr.expands = false) (Sample.budgeted 2000) ∧
    (Sample.postFor Sample.poly).returns (Sample.budgeted 2000) = true ∧
    ∃ x b o,
      (Sample.spent 2000).get (Runtime.sample.address (.session Sample.alice)) = ⟨Runtime.sample.programId, .session x⟩ ∧
      x.revoked = 0 ∧ Sample.cancelFor.inv.slot < x.expiresAtSlot ∧
      (Sample.spent 2000).get (Sample.book Sample.poly) = ⟨Runtime.sample.programId, .intentBook b⟩ ∧ b.order 2 = some o ∧
      Sample.cancelFor.CancelsFor o.id Sample.bob (Sample.instrument Sample.poly) (Sample.book Sample.poly)
        (Sample.marginOf Sample.alice) (Runtime.sample.address (.session Sample.alice)) ∧
      Sample.cancelFor.returns (Sample.spent 2000) = false := by
  have owned : ∀ k ∈ [Sample.book Sample.poly, Runtime.sample.address (.session Sample.alice)],
      (Sample.spent 2000).owner k = Runtime.sample.programId := by decide +kernel
  obtain ⟨x, read, terms⟩ := Sample.exists_of_read (by decide +kernel :
    ((Sample.spent 2000).data (Runtime.sample.address (.session Sample.alice))).loadSession.toOption.map (fun x =>
      (x.revoked, x.expiresAtSlot)) = some (0, 50))
  obtain ⟨unrevoked, expires⟩ := Prod.mk.inj terms
  obtain ⟨b, read', order⟩ := Sample.exists_of_read (by decide +kernel :
    ((Sample.spent 2000).data (Sample.book Sample.poly)).loadBook.toOption.map (fun b => (b.order 2).map (·.id)) =
      some (some 1))
  obtain ⟨o, placed, named⟩ := Option.map_eq_some_iff.mp order
  refine ⟨Sample.reachable_budgeted 2000, by decide +kernel, x, b, o,
    get_eq_of_data (owned _ (by simp)) (AccountData.loadSession_ok.mp read), unrevoked, by rw [expires]; decide,
    get_eq_of_data (owned _ (by simp)) (AccountData.loadBook_ok.mp read'), placed, ?_, by decide +kernel⟩
  rw [named]
  exact Sample.cancelsFor_cancelFor

end Polyleverage

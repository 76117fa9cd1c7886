import Polyleverage.Guarantees.TakeBack

/-! # A delegate stands in for the owner

A delegated post is accepted exactly when the session admits it and the owner's own post would be accepted. It
charges the session, and does what the owner's own post does to every other account. A delegated cancel does what
the owner's own cancel does.
-/

namespace Polyleverage

open Machine

variable {rt : Runtime} {inv : rt.Invocation} {s s' t : Ledger} {j k : Pubkey}

/-! ### Ledgers that differ at one account -/

/-- The ledgers agree but for what is at `k`. -/
def AlikeBut (k : Pubkey) (s s' : Ledger) : Prop := ∀ j, j ≠ k → s'.get j = s.get j

namespace AlikeBut

theorem symm (alike : AlikeBut k s s') : AlikeBut k s' s := fun j other => (alike j other).symm

theorem data_eq (alike : AlikeBut k s s') (other : j ≠ k) :
    s'.data j = s.data j := congrArg Account.data (alike j other)

theorem owner_eq (alike : AlikeBut k s s') (other : j ≠ k) :
    s'.owner j = s.owner j := congrArg Account.owner (alike j other)

/-- The same write to both. -/
theorem setData (alike : AlikeBut k s s') (other : j ≠ k) (d : AccountData) :
    AlikeBut k (s.setData j d) (s'.setData j d) := by
  intro i apart
  by_cases here : i = j
  · rw [here, Ledger.get_setData_self, Ledger.get_setData_self, alike.owner_eq other]
  · rw [Ledger.get_setData_of_ne _ _ here, Ledger.get_setData_of_ne _ _ here, alike i apart]

/-- Access to another account does the same in both, and leaves what they differ in. -/
theorem atAccount_ok {α τ : Type} {view : AccountData → Except ProgramError τ} {data : τ → AccountData}
    {m : Exec ProgramError τ α} {a : α} (alike : AlikeBut k s s') (other : j ≠ k)
    (ran : (atAccount rt inv view data j m).run s = .ok a t) :
    ∃ t', (atAccount rt inv view data j m).run s' = .ok a t' ∧ AlikeBut k t t' ∧ t'.get k = s'.get k := by
  obtain ⟨x, y, found, inner, rfl, -⟩ := Polyleverage.atAccount_ok ran
  refine ⟨s'.setData j (data y), ?_, alike.setData other _, Ledger.get_setData_of_ne _ _ other.symm⟩
  have refuses : Refuses rt inv s' j (data y) ↔ Refuses rt inv s j (data y) := by
    rw [Refuses, Refuses, alike.data_eq other, alike.owner_eq other]
  simp only [atAccount, Exec.run] at ran inner ⊢
  rw [alike.data_eq other]
  simp only [found, inner, refuses] at ran ⊢
  split at ran
  · cases ran
  next allowed => rw [if_neg allowed]

end AlikeBut

/-! ### A post, with and without a session -/

/-- What a post does once its session is charged. -/
def postCharged (rt : Runtime) (inv : rt.Invocation) (post : PostCtx) (args : PostIntentArgs) (mint : Pubkey)
    (bump collateralReserve feeBuffer totalReserve : ℕ) : LedgerM ℕ := do
  let refund ← atBook rt inv post.book (Book.pruneOwnExpired post.owner inv.slot)
  atMargin rt inv post.margin (reserveForPost post.owner mint bump refund totalReserve)
  atBook rt inv post.book (Book.post post.owner (args.draft collateralReserve feeBuffer))

variable {post : PostCtx} {args : PostIntentArgs} {id : ℕ}

theorem AlikeBut.postCharged_ok {mint : Pubkey} {bump collateralReserve feeBuffer totalReserve : ℕ}
    (alike : AlikeBut k s s')
    (book : post.book ≠ k) (margin : post.margin ≠ k)
    (ran : (postCharged rt inv post args mint bump collateralReserve feeBuffer totalReserve).run s = .ok id t) :
    ∃ t', (postCharged rt inv post args mint bump collateralReserve feeBuffer totalReserve).run s' = .ok id t' ∧
      AlikeBut k t t' ∧ t'.get k = s'.get k := by
  simp only [postCharged, Exec.bind_ok] at ran
  obtain ⟨refund, s1, pruned, u, s2, reserved, posted⟩ := ran
  obtain ⟨s1', pruned', alike1, kept1⟩ := alike.atAccount_ok book pruned
  obtain ⟨s2', reserved', alike2, kept2⟩ := alike1.atAccount_ok margin reserved
  obtain ⟨t', posted', alike3, kept3⟩ := alike2.atAccount_ok book posted
  refine ⟨t', ?_, alike3, kept3.trans (kept2.trans kept1)⟩
  have pruned'' : (atBook rt inv post.book (Book.pruneOwnExpired post.owner inv.slot)).run s' = .ok refund s1' :=
    pruned'
  have reserved'' : (atMargin rt inv post.margin (reserveForPost post.owner mint bump refund totalReserve)).run s1' =
      .ok u s2' := reserved'
  rw [postCharged, Exec.run_bind_of_ok pruned'', Exec.run_bind_of_ok reserved'']
  exact posted'

/-- Without a session a post does the same to all other accounts. -/
theorem postIntent_of_delegated (payer : Pubkey) (offset : ℕ) (charges : post.session = some k)
    (ran : (postIntent rt inv post args).run s = .ok id t) :
    ∃ t', (postIntent rt inv { post with payer, session := none, inlineMatchOffset := offset } args).run s = .ok id t' ∧
      AlikeBut k t t' ∧ t'.get k = s.get k := by
  obtain ⟨posting⟩ := postIntent_ok ran
  have charged := posting.charged
  rw [charges] at charged
  obtain ⟨x, x', at_session, -, -⟩ := charged
  have book : post.book ≠ k := by
    intro same
    cases (same ▸ posting.book_eq).symm.trans at_session
  have margin : post.margin ≠ k := by
    intro same
    cases (same ▸ posting.margin_eq).symm.trans at_session
  simp only [postIntent, Exec.bind_check, exists_const] at ran ⊢
  obtain ⟨writable, writable', owned, cfg, at_config, unpaused, inst, at_instrument, active, at_book, bump, here, side,
    contracts, priced, unexpired, collateralReserve, reserved, b, at_b, feeBuffer, buffered, totalReserve, total, ran⟩ := ran
  rw [charges] at ran
  dsimp only at ran
  rw [Exec.bind_ok] at ran
  obtain ⟨u, s1, charging, ran⟩ := ran
  obtain ⟨_, y, -, -, rfl, -⟩ := atAccount_ok charging
  have alike : AlikeBut k (s.setData k (.session y)) s := fun j other => (Ledger.get_setData_of_ne s _ other).symm
  obtain ⟨t', ran', alike', kept⟩ := alike.postCharged_ok book margin ran
  exact ⟨t', ⟨writable, writable', owned, cfg, at_config, unpaused, inst, at_instrument, active, at_book, bump, here, side,
    contracts, priced, unexpired, collateralReserve, reserved, b, at_b, feeBuffer, buffered, totalReserve, total, ran'⟩,
    alike', kept⟩

/-- What a post reserves, when it gets that far. -/
theorem reserve_of_checks {inst : InstrumentConfig} {b : IntentBook} {collateralReserve feeBuffer totalReserve : ℕ}
    (reserved : orOverflow (checkedMul 64 args.contracts.toNat inst.collateralBucket) = .ok collateralReserve)
    (buffered : feeBufferFor args.contracts.toNat inst.collateralBucket b.header.cachedMaxFeeBps = .ok feeBuffer)
    (total : orOverflow (checkedAdd 64 collateralReserve feeBuffer) = .ok totalReserve) :
    totalReserve = args.reserve inst b := by
  rw [orOverflow_ok, checkedMul_eq_some] at reserved
  rw [orOverflow_ok, checkedAdd_eq_some] at total
  obtain ⟨-, rfl⟩ := reserved
  obtain ⟨-, rfl⟩ := total
  obtain rfl := feeBufferFor_ok buffered
  rfl

/-- With a session that admits it a post does the same as without. -/
theorem postIntent_delegated {session : Pubkey} (none : post.session = none) {inst : InstrumentConfig} {b : IntentBook}
    {x x' : Session}
    (payer : Pubkey) (offset : ℕ) (at_instrument : s.data post.instrument = .instrumentConfig inst)
    (at_book : s.data post.book = .intentBook b) (held : s.get session = ⟨rt.programId, .session x⟩)
    (writable : inv.isWritable session = true) (admits : x.recordIntent (args.reserve inst b) = .ok x')
    (ran : (postIntent rt inv post args).run s = .ok id t) :
    ∃ t', (postIntent rt inv { post with payer, session := some session, inlineMatchOffset := offset } args).run s = .ok id t' := by
  obtain ⟨posting⟩ := postIntent_ok ran
  have book : post.book ≠ session := by
    intro same
    cases (same ▸ at_book).symm.trans (data_of_get held)
  have margin : post.margin ≠ session := by
    intro same
    cases (same ▸ posting.margin_eq).symm.trans (data_of_get held)
  simp only [postIntent, Exec.bind_check, exists_const] at ran ⊢
  obtain ⟨writable_book, writable_margin, owned, cfg, at_config, unpaused, inst', at_instrument', active, of_book, bump, here,
    side, contracts, priced, unexpired, collateralReserve, reserved, b', at_book', feeBuffer, buffered, totalReserve, total,
    ran⟩ := ran
  cases at_instrument.symm.trans at_instrument'
  cases at_book.symm.trans at_book'
  have amount := reserve_of_checks reserved buffered total
  have charging : (atAccount rt inv AccountData.loadSession .session session (chargeSession totalReserve)).run s =
      .ok () (s.setData session (.session x')) := by
    apply run_atAccount writable (owner_of_get held) (AccountData.loadSession_ok.mpr (data_of_get held))
    rw [amount, chargeSession, Exec.run_bind_get, Exec.run_bind_of_ok (Exec.ofExcept_ok.mpr ⟨admits, rfl⟩)]
    rfl
  rw [none] at ran
  have alike : AlikeBut session s (s.setData session (.session x')) := fun j other => Ledger.get_setData_of_ne s _ other
  obtain ⟨t', ran', -⟩ := alike.postCharged_ok book margin ran
  refine ⟨t', writable_book, writable_margin, owned, cfg, at_config, unpaused, inst, at_instrument, active, of_book, bump,
    here, side, contracts, priced, unexpired, collateralReserve, reserved, b, at_book, feeBuffer, buffered, totalReserve, total,
    ?_⟩
  rw [Exec.run_bind_of_ok charging]
  exact ran'

/-! ### Cancels -/

/-- The intent of this id in the book is this trader's. -/
def IntentOf (b : IntentBook) (id : ℕ) (trader : Pubkey) : Prop :=
  ∃ idx side node seat, Book.findIntentById b id = .ok (idx, side) ∧ b.intent idx = .ok node ∧
    b.seat node.ownerSeat = .ok seat ∧ seat.trader = trader

theorem authorizeSession_ok {owner trader : Pubkey} {node : IntentNode} :
    authorizeSession owner trader node = .ok () ↔ trader = owner := by
  unfold authorizeSession
  split <;> simp_all

theorem authorizeCaller_self {owner : Pubkey} {now : ℕ} {node : IntentNode} :
    authorizeCaller owner now owner node = .ok () := by
  apply if_neg
  rintro ⟨other, -⟩
  exact other rfl

/-- A session takes an intent out of the book as its owner does, when the intent is the owner's. -/
theorem cancelInBook_delegated {b b' : IntentBook} {margin mint owner : Pubkey} {refund : Refund} (now : ℕ) :
    (cancelInBook rt margin mint id (authorizeSession owner)).run b = .ok refund b' ↔
      (cancelInBook rt margin mint id (authorizeCaller owner now)).run b = .ok refund b' ∧ IntentOf b id owner := by
  simp only [cancelInBook, Exec.bind_check, Prod.exists]
  constructor
  · rintro ⟨idx, side, found, node, placed, seat, seated, u, authorized, rest⟩
    rw [authorizeSession_ok] at authorized
    refine ⟨⟨idx, side, found, node, placed, seat, seated, u, ?_, rest⟩, idx, side, node, seat, found, placed, seated, authorized⟩
    rw [authorized]
    exact authorizeCaller_self
  · rintro ⟨⟨idx, side, found, node, placed, seat, seated, u, -, rest⟩, idx', side', node', seat', found', placed', seated', mine⟩
    cases found.symm.trans found'
    cases placed.symm.trans placed'
    cases seated.symm.trans seated'
    exact ⟨idx, side, found, node, placed, seat, seated, u, authorizeSession_ok.mpr mine, rest⟩

/-- What runs on an account decides what an access to it does. -/
theorem atAccount_congr_ok {α τ : Type} {view : AccountData → Except ProgramError τ} {data : τ → AccountData}
    {m n : Exec ProgramError τ α} {a : α} (same : ∀ x y, view (s.data k) = .ok x → m.run x = .ok a y → n.run x = .ok a y)
    (ran : (atAccount rt inv view data k m).run s = .ok a t) : (atAccount rt inv view data k n).run s = .ok a t := by
  obtain ⟨x, y, found, inner, rfl, -⟩ := atAccount_ok ran
  have inner' := same x y found inner
  simp only [atAccount, Exec.run] at ran inner inner' ⊢
  simp only [found, inner, inner'] at ran ⊢
  split at ran
  · cases ran
  next allowed => rw [if_neg allowed]

theorem cancelIntent_delegated {instrument book margin owner : Pubkey} {u : Unit} (now : ℕ) :
    (cancelIntent rt inv instrument book margin id (authorizeSession owner)).run s = .ok u t ↔
      (cancelIntent rt inv instrument book margin id (authorizeCaller owner now)).run s = .ok u t ∧
        ∃ b, s.data book = .intentBook b ∧ IntentOf b id owner := by
  simp only [cancelIntent, Exec.bind_check, exists_const, Exec.bind_ok]
  constructor
  · rintro ⟨inst, found, at_book, refund, s1, taken, rest⟩
    obtain ⟨b, b', held, inner, -⟩ := atBook_ok taken
    refine ⟨⟨inst, found, at_book, refund, s1, ?_, rest⟩, b, held, ((cancelInBook_delegated now).mp inner).2⟩
    exact atAccount_congr_ok (fun _ _ _ ran => ((cancelInBook_delegated now).mp ran).1) taken
  · rintro ⟨⟨inst, found, at_book, refund, s1, taken, rest⟩, b, held, mine⟩
    refine ⟨inst, found, at_book, refund, s1, ?_, rest⟩
    refine atAccount_congr_ok (fun x y loaded ran => (cancelInBook_delegated now).mpr ⟨ran, ?_⟩) taken
    cases held.symm.trans (AccountData.loadBook_ok.mp loaded)
    exact mine

/-! ### Calls -/

/-- A call that a delegate signs, and one of the owner about the same accounts in the same slot. -/
structure Call.StandsInFor (c d : Call rt) (feePayer delegate owner : Pubkey) : Prop where
  slot : d.inv.slot = c.inv.slot
  writable : d.inv.isWritable = c.inv.isWritable
  payer_signed : c.inv.isSigner feePayer = true
  payer_writable : c.inv.isWritable feePayer = true
  signed : c.inv.isSigner delegate = true
  owner_signed : d.inv.isSigner owner = true

/-- A post or a cancel depends on its invocation by the slot and by what may be written. -/
theorem postIntent_congr {inv' : rt.Invocation} (slot : inv'.slot = inv.slot)
    (writable : inv'.isWritable = inv.isWritable) :
    postIntent rt inv' = postIntent rt inv := by
  obtain ⟨accounts, isSigner, isWritable, now, time, instructions, rent, unsigned, small⟩ := inv'
  cases slot
  cases writable
  rfl

theorem cancelIntent_congr {inv' : rt.Invocation} (writable : inv'.isWritable = inv.isWritable) :
    cancelIntent rt inv' = cancelIntent rt inv := by
  obtain ⟨accounts, isSigner, isWritable, now, time, instructions, rent, unsigned, small⟩ := inv'
  cases writable
  rfl

section Calls

variable {c d : Call rt} {x : Session} {feePayer delegate config instrument book margin session : Pubkey} {rest rest' : List Pubkey}

/-- A post that tries no match is over when its intent is in the book. -/
theorem doPostIntentInner_still (still : args.tryMatch = 0) :
    (doPostIntentInner rt inv post args).run s = .ok () t ↔ ∃ id, (postIntent rt inv post args).run s = .ok id t := by
  simp only [doPostIntentInner, Exec.bind_ok, Exec.when_ok, still, ne_eq, not_true_eq_false, false_and, not_false_eq_true,
    true_and, false_or]
  constructor
  · rintro ⟨id, _, ran, rfl⟩
    exact ⟨id, ran⟩
  · rintro ⟨id, ran⟩
    exact ⟨id, t, ran, rfl⟩

/-- The post of an owner who signs. -/
theorem ownPost_ok {owner : Pubkey} (posts : d.instruction = .postIntent args) (still : args.tryMatch = 0)
    (accounts : d.inv.accounts = owner :: config :: instrument :: book :: margin :: rest')
    (signed : d.inv.isSigner owner = true) :
    (process rt d.inv d.instruction).run s = .ok () t ↔
      ∃ id, (postIntent rt d.inv ⟨owner, owner, config, instrument, book, margin, none, 5⟩ args).run s = .ok id t := by
  have unpacked : (unpackPostIntent rt d.inv).run s =
      .ok ⟨owner, owner, config, instrument, book, margin, none, 5⟩ s := by
    simp only [unpackPostIntent, accounts, Exec.bind_check, Exec.pure_ok, signed, exists_const, and_self]
  rw [posts]
  change (processPostIntent rt d.inv args).run s = _ ↔ _
  rw [processPostIntent, Exec.run_bind_of_ok unpacked, doPostIntentInner_still still]

/-- The post of a delegate is a post of the session's owner, while the session is live. -/
theorem delegatedPost_ok (posts : c.instruction = .postIntentDelegated args) (still : args.tryMatch = 0)
    (accounts : c.inv.accounts = feePayer :: delegate :: config :: instrument :: book :: margin :: session :: rest)
    (held : s.get session = ⟨rt.programId, .session x⟩) (payer_signed : c.inv.isSigner feePayer = true)
    (payer_writable : c.inv.isWritable feePayer = true) (signed : c.inv.isSigner delegate = true)
    (writable : c.inv.isWritable session = true) :
    (process rt c.inv c.instruction).run s = .ok () t ↔ LiveSession rt c.inv session delegate instrument x.owner x ∧
      ∃ id, (postIntent rt c.inv ⟨x.owner, feePayer, config, instrument, book, margin, some session, 7⟩ args).run s = .ok id t := by
  have unpacks {post : PostCtx} {u : Ledger} : (unpackPostIntentDelegated rt c.inv).run s = .ok post u ↔
      LiveSession rt c.inv session delegate instrument x.owner x ∧
        ⟨x.owner, feePayer, config, instrument, book, margin, some session, 7⟩ = post ∧ s = u := by
    have owned : s.owner session = rt.programId := owner_of_get held
    have at_session : s.data session = .session x := data_of_get held
    simp only [unpackPostIntentDelegated, accounts, Exec.bind_check, Exec.pure_ok, payer_signed, payer_writable, signed, writable,
      owned, at_session, true_and, exists_const, List.mem_cons, List.not_mem_nil, or_false, forall_eq, AccountData.session.injEq,
      exists_eq_left']
    constructor
    · rintro ⟨owner, live, rfl, rfl⟩
      obtain rfl := live.owner_eq
      exact ⟨live, rfl, rfl⟩
    · rintro ⟨live, rfl, rfl⟩
      exact ⟨x.owner, live, rfl, rfl⟩
  rw [posts]
  change (processPostIntentDelegated rt c.inv args).run s = _ ↔ _
  simp only [processPostIntentDelegated, Exec.bind_ok, unpacks, doPostIntentInner_still still]
  constructor
  · rintro ⟨_, _, ⟨live, rfl, rfl⟩, ran⟩
    exact ⟨live, ran⟩
  · rintro ⟨live, ran⟩
    exact ⟨_, s, ⟨live, rfl, rfl⟩, ran⟩

/-- A delegate's post is accepted exactly when the session is live for it, admits what it reserves, and the owner's own
post would be accepted. It charges the session, and does to everything else what the owner's own post does. -/
theorem delegated_post_iff (held : s.get session = ⟨rt.programId, .session x⟩)
    (stands : c.StandsInFor d feePayer delegate x.owner)
    (writable : c.inv.isWritable session = true) (posts : c.instruction = .postIntentDelegated args) (still : args.tryMatch = 0)
    (accounts : c.inv.accounts = feePayer :: delegate :: config :: instrument :: book :: margin :: session :: rest)
    (posts' : d.instruction = .postIntent args)
    (accounts' : d.inv.accounts = x.owner :: config :: instrument :: book :: margin :: rest') :
    (c.returns s = true ↔ d.returns s = true ∧ LiveSession rt c.inv session delegate instrument x.owner x ∧
        ∃ inst b x', s.data instrument = .instrumentConfig inst ∧ s.data book = .intentBook b ∧
          x.recordIntent (args.reserve inst b) = .ok x') ∧
      (c.returns s = true → ∃ inst b x', s.data instrument = .instrumentConfig inst ∧ s.data book = .intentBook b ∧
        x.recordIntent (args.reserve inst b) = .ok x' ∧ (execute rt c s).get session = ⟨rt.programId, .session x'⟩ ∧
        (execute rt d s).get session = s.get session ∧ ∀ k, k ≠ session → (execute rt c s).get k = (execute rt d s).get k) := by
  have own {t : Ledger} := ownPost_ok (s := s) (t := t) posts' still accounts' stands.owner_signed
  have delegated {t : Ledger} :=
    delegatedPost_ok (t := t) posts still accounts held stands.payer_signed stands.payer_writable
    stands.signed writable
  rw [postIntent_congr stands.slot stands.writable] at own
  have forward : c.returns s = true → LiveSession rt c.inv session delegate instrument x.owner x ∧ d.returns s = true ∧
      ∃ inst b x', s.data instrument = .instrumentConfig inst ∧ s.data book = .intentBook b ∧
        x.recordIntent (args.reserve inst b) = .ok x' ∧ (execute rt c s).get session = ⟨rt.programId, .session x'⟩ ∧
        (execute rt d s).get session = s.get session ∧ ∀ k, k ≠ session → (execute rt c s).get k = (execute rt d s).get k := by
    intro returns
    obtain ⟨live, id, ran⟩ := delegated.mp (c.ran returns)
    obtain ⟨t', ran', alike, kept⟩ := postIntent_of_delegated x.owner 5 rfl ran
    have returned := own.mpr ⟨id, ran'⟩
    obtain ⟨posting⟩ := postIntent_ok ran
    obtain ⟨y, x', at_session, admits, after⟩ := posting.charged
    cases (data_of_get held).symm.trans at_session
    refine ⟨live, Call.returns_of_ran returned, posting.inst, posting.b, x', posting.instrument_eq, posting.book_eq, admits, ?_, ?_, ?_⟩
    · rw [after, owner_of_get held]
    · rw [execute_of_ran returned, kept]
    · intro k other
      rw [execute_of_ran returned]
      exact (alike k other).symm
  refine ⟨⟨fun returns => ?_, ?_⟩, fun returns => (forward returns).2.2⟩
  · obtain ⟨live, returned, inst, b, x', at_instrument, at_book, admits, -⟩ := forward returns
    exact ⟨returned, live, inst, b, x', at_instrument, at_book, admits⟩
  · rintro ⟨returned, live, inst, b, x', at_instrument, at_book, admits⟩
    obtain ⟨id, ran⟩ := own.mp (d.ran returned)
    obtain ⟨t', ran'⟩ := postIntent_delegated rfl feePayer 7 at_instrument at_book held writable admits ran
    exact Call.returns_of_ran (delegated.mpr ⟨live, id, ran'⟩)

end Calls

namespace Sample

/-- Alice has let Bob post for her. -/
def entrusted : Ledger := runCalls Runtime.sample (launch 0 ++ [openMarket poly, openSession]) genesis

theorem exists_session {s : Ledger}
    (owned : s.owner (Runtime.sample.address (.session alice)) = Runtime.sample.programId)
    (mine : (s.data (Runtime.sample.address (.session alice))).loadSession.toOption.map (·.owner) = some alice) :
    ∃ x, s.get (Runtime.sample.address (.session alice)) = ⟨Runtime.sample.programId, .session x⟩ ∧ x.owner = alice := by
  obtain ⟨x, read, mine⟩ := exists_of_read mine
  exact ⟨x, get_eq_of_data owned (AccountData.loadSession_ok.mp read), mine⟩

end Sample

/-- Bob's post for Alice is the post she could have made. -/
theorem delegated_post_iff_entrusted : (Sample.postFor Sample.poly).returns Sample.entrusted = true ∧
    ∀ k, k ≠ Runtime.sample.address (.session Sample.alice) →
      (execute Runtime.sample (Sample.postFor Sample.poly) Sample.entrusted).get k =
        (execute Runtime.sample (Sample.post Sample.poly Sample.alice 0 1) Sample.entrusted).get k := by
  obtain ⟨x, held, mine⟩ := Sample.exists_session (s := Sample.entrusted) (by decide +kernel) (by decide +kernel)
  have returns : (Sample.postFor Sample.poly).returns Sample.entrusted = true := by decide +kernel
  have stands : (Sample.postFor Sample.poly).StandsInFor (Sample.post Sample.poly Sample.alice 0 1) Sample.carol Sample.bob x.owner :=
    ⟨rfl, rfl, rfl, rfl, rfl, by rw [mine]; rfl⟩
  have accounts : (Sample.post Sample.poly Sample.alice 0 1).inv.accounts = x.owner :: Sample.config ::
      Sample.instrument Sample.poly :: Sample.book Sample.poly :: Sample.marginOf Sample.alice :: [] := by
    rw [mine]
    rfl
  obtain ⟨inst, b, x', -, -, -, -, -, same⟩ := (delegated_post_iff held stands rfl rfl rfl rfl rfl accounts).2 returns
  exact ⟨returns, same⟩

section Calls

variable {c d : Call rt} {x : Session} {feePayer delegate config instrument book margin session : Pubkey} {rest rest' : List Pubkey}

/-- The cancel of an owner who signs. -/
theorem ownCancel_ok {owner : Pubkey} {intentId : UInt64} (cancels : d.instruction = .cancelIntent intentId)
    (accounts : d.inv.accounts = owner :: instrument :: book :: margin :: rest')
    (signed : d.inv.isSigner owner = true) :
    (process rt d.inv d.instruction).run s = .ok () t ↔
      d.inv.isWritable book = true ∧ d.inv.isWritable margin = true ∧ (∀ k ∈ [instrument, book, margin], s.owner k = rt.programId) ∧
        (cancelIntent rt d.inv instrument book margin intentId.toNat (authorizeCaller owner d.inv.slot)).run s = .ok () t := by
  rw [cancels]
  change (processCancelIntent rt d.inv intentId).run s = _ ↔ _
  simp only [processCancelIntent, accounts, Exec.bind_check, signed, exists_const, true_and]

/-- The cancel of a delegate is one for the session's owner, while the session is live. -/
theorem delegatedCancel_ok {intentId : UInt64} (cancels : c.instruction = .cancelIntentDelegated intentId)
    (accounts : c.inv.accounts = feePayer :: delegate :: instrument :: book :: margin :: session :: rest)
    (held : s.get session = ⟨rt.programId, .session x⟩) (payer_signed : c.inv.isSigner feePayer = true)
    (payer_writable : c.inv.isWritable feePayer = true) (signed : c.inv.isSigner delegate = true) :
    (process rt c.inv c.instruction).run s = .ok () t ↔ LiveSession rt c.inv session delegate instrument x.owner x ∧
      c.inv.isWritable book = true ∧ c.inv.isWritable margin = true ∧ (∀ k ∈ [instrument, book, margin], s.owner k = rt.programId) ∧
        (cancelIntent rt c.inv instrument book margin intentId.toNat (authorizeSession x.owner)).run s = .ok () t := by
  have owned : s.owner session = rt.programId := owner_of_get held
  have at_session : s.data session = .session x := data_of_get held
  rw [cancels]
  change (processCancelIntentDelegated rt c.inv intentId).run s = _ ↔ _
  simp only [processCancelIntentDelegated, accounts, Exec.bind_check, payer_signed, payer_writable, signed, at_session, true_and,
    exists_const, AccountData.session.injEq, exists_eq_left', List.forall_mem_cons, List.not_mem_nil, false_imp_iff, implies_true,
    owned, and_true]
  constructor
  · rintro ⟨writable, writable', mine, owner, live, ran⟩
    obtain rfl := live.owner_eq
    exact ⟨live, writable, writable', mine, ran⟩
  · rintro ⟨live, writable, writable', mine, ran⟩
    exact ⟨writable, writable', mine, x.owner, live, ran⟩

/-- A delegate's cancel is accepted exactly when the session is live for it, the intent is the owner's, and the owner's own
cancel would be accepted, and it leaves what that leaves. -/
theorem delegated_cancel_iff {intentId : UInt64} (held : s.get session = ⟨rt.programId, .session x⟩)
    (stands : c.StandsInFor d feePayer delegate x.owner) (cancels : c.instruction = .cancelIntentDelegated intentId)
    (accounts : c.inv.accounts = feePayer :: delegate :: instrument :: book :: margin :: session :: rest)
    (cancels' : d.instruction = .cancelIntent intentId)
    (accounts' : d.inv.accounts = x.owner :: instrument :: book :: margin :: rest') :
    (c.returns s = true ↔ d.returns s = true ∧ LiveSession rt c.inv session delegate instrument x.owner x ∧
        ∃ b, s.data book = .intentBook b ∧ IntentOf b intentId.toNat x.owner) ∧
      (c.returns s = true → execute rt c s = execute rt d s) := by
  have own {t : Ledger} := ownCancel_ok (s := s) (t := t) cancels' accounts' stands.owner_signed
  have delegated {t : Ledger} :=
    delegatedCancel_ok (t := t) cancels accounts held stands.payer_signed stands.payer_writable
    stands.signed
  rw [cancelIntent_congr stands.writable, stands.writable, stands.slot] at own
  have both {t : Ledger} : (process rt c.inv c.instruction).run s = .ok () t ↔
      (process rt d.inv d.instruction).run s = .ok () t ∧ LiveSession rt c.inv session delegate instrument x.owner x ∧
        ∃ b, s.data book = .intentBook b ∧ IntentOf b intentId.toNat x.owner := by
    rw [delegated, own, cancelIntent_delegated c.inv.slot]
    tauto
  constructor
  · constructor
    · intro returns
      obtain ⟨ran, rest⟩ := both.mp (c.ran returns)
      exact ⟨Call.returns_of_ran ran, rest⟩
    · rintro ⟨returns, rest⟩
      exact Call.returns_of_ran (both.mpr ⟨d.ran returns, rest⟩)
  · intro returns
    exact (execute_of_ran (both.mp (c.ran returns)).1).symm

end Calls

/-- Bob's cancel for Alice leaves what hers would leave. -/
theorem delegated_cancel_iff_delegated : Sample.cancelFor.returns Sample.delegated = true ∧
    execute Runtime.sample Sample.cancelFor Sample.delegated = execute Runtime.sample Sample.cancelOwn Sample.delegated := by
  obtain ⟨x, held, mine⟩ := Sample.exists_session (s := Sample.delegated) (by decide +kernel) (by decide +kernel)
  have returns : Sample.cancelFor.returns Sample.delegated = true := by decide +kernel
  have stands : Sample.cancelFor.StandsInFor Sample.cancelOwn Sample.carol Sample.bob x.owner :=
    ⟨rfl, rfl, rfl, rfl, rfl, by rw [mine]; rfl⟩
  have accounts : Sample.cancelOwn.inv.accounts = x.owner :: Sample.instrument Sample.poly :: Sample.book Sample.poly ::
      Sample.marginOf Sample.alice :: [] := by
    rw [mine]
    rfl
  exact ⟨returns, (delegated_cancel_iff held stands rfl rfl rfl accounts).2 returns⟩

end Polyleverage

import Polyleverage.Invariants.Posting
import Polyleverage.Sample

/-! # Sessions stay within their bounds

A session account changes in three ways: its owner creates or replaces it, its owner revokes it, and a
delegate's post is charged to it. Its counter is what the posts since its creation reserved, and a
session that is over stays over until its owner creates a new one.
-/

namespace Polyleverage

open Machine

variable {rt : Runtime} {inv : rt.Invocation} {s t : Ledger} {k owner : Pubkey}

/-! ### What is charged to a session -/

/-- The collateral that a call's delegated post reserves, when it succeeds and is charged to this owner's
session. -/
def chargedBy (rt : Runtime) (owner : Pubkey) (c : Call rt) (s : Ledger) : Option ℕ :=
  match c.instruction, c.inv.accounts with
  | .postIntentDelegated args, _ :: _ :: _ :: instrument :: book :: _ :: session :: _ =>
    match s.data instrument, s.data book with
    | .instrumentConfig inst, .intentBook b =>
      if session = rt.address (.session owner) ∧ c.returns s = true then some (args.reserve inst b) else none
    | _, _ => none
  | _, _ => none

/-- The call is a successful creation of this owner's session. -/
def renews (rt : Runtime) (owner : Pubkey) (c : Call rt) (s : Ledger) : Bool :=
  match c.instruction, c.inv.accounts with
  | .createSession _, signer :: _ => signer = owner ∧ c.returns s = true
  | _, _ => false

/-- What the delegated posts since the last creation reserved, one call later. -/
def postsAfter (rt : Runtime) (owner : Pubkey) (c : Call rt) (s : Ledger) (posts : List ℕ) : List ℕ :=
  if renews rt owner c s then [] else posts ++ (chargedBy rt owner c s).toList

/-- What the delegated posts since the last creation reserved, after some calls. -/
def delegatedPosts (rt : Runtime) (owner : Pubkey) : List (Call rt) → Ledger → List ℕ → List ℕ
  | [], _, posts => posts
  | c :: rest, s, posts => delegatedPosts rt owner rest (execute rt c s) (postsAfter rt owner c s posts)

/-! ### What each handler does to a session -/

theorem processCreateSession_ok {args : CreateSessionArgs} (ran : (processCreateSession rt inv args).run s = .ok () t) :
    ∃ owner config session rest x, inv.accounts = owner :: config :: session :: rest ∧ inv.isSigner owner = true ∧
      rt.address (.session owner) = session ∧ t.data session = .session x ∧ x.owner = owner ∧
      x.cumulativeCollateralUsed = 0 ∧ x.perIntentMaxCollateralAtoms = args.perIntentMaxCollateralAtoms.toNat ∧
      x.cumulativeCollateralCap = args.cumulativeCollateralCap.toNat ∧ ∀ j, j ≠ session → t.get j = s.get j := by
  unfold processCreateSession at ran
  split at ran
  next owner config session system rest accounts =>
    simp only [Exec.bind_check, exists_const] at ran
    obtain ⟨signed, -, -, -, -, cfg, -, bump, ⟨here, -⟩, -, ran⟩ := ran
    rw [Exec.bind_ok] at ran
    obtain ⟨_, mid, prepared, wrote⟩ := ran
    obtain ⟨rfl, -⟩ := writeData_ok wrote
    refine ⟨owner, config, session, system :: rest, _, accounts, signed, here, Ledger.data_setData_self _ _, rfl, rfl, rfl, rfl,
      fun j other => ?_⟩
    rw [Ledger.get_setData_of_ne _ _ other]
    rcases prepareSession_ok prepared with ⟨-, rfl⟩ | ⟨x, -, -, -, rfl⟩
    · exact Store.get_set_of_ne s _ other
    · rfl
  · cases ran

theorem processRevokeSession_ok (ran : (processRevokeSession rt inv).run s = .ok () t) :
    ∃ owner session rest x, inv.accounts = owner :: session :: rest ∧ inv.isSigner owner = true ∧
      rt.address (.session owner) = session ∧ s.get session = ⟨rt.programId, .session x⟩ ∧ x.owner = owner ∧
      t = s.setData session (.session x.revoke) := by
  unfold processRevokeSession at ran
  split at ran
  next owner session rest accounts =>
    simp only [Exec.bind_check, exists_const] at ran
    obtain ⟨signed, -, owned, bump, ⟨here, -⟩, ran⟩ := ran
    obtain ⟨x, y, found, revoked, rfl, -⟩ := atAccount_ok ran
    simp only [revokeBy, Exec.bind_check, Exec.put_ok, exists_const, exists_eq_left', not_not] at revoked
    obtain ⟨mine, rfl⟩ := revoked
    exact ⟨owner, session, rest, x, accounts, signed, here,
      get_eq_of_data (owned _ (by simp)) (AccountData.loadSession_ok.mp found), mine, rfl⟩
  · cases ran

/-- The accounts of a delegate's post. -/
theorem unpackPostIntentDelegated_accounts {ctx : PostCtx} (ran : (unpackPostIntentDelegated rt inv).run s = .ok ctx t) :
    s = t ∧ ctx.inlineMatchOffset = 7 ∧ ∃ feePayer delegate config session rest x,
      inv.accounts = feePayer :: delegate :: config :: ctx.instrument :: ctx.book :: ctx.margin :: session :: rest ∧
      ctx.session = some session ∧ inv.isSigner delegate = true ∧ s.get session = ⟨rt.programId, .session x⟩ ∧
      LiveSession rt inv session delegate ctx.instrument ctx.owner x := by
  unfold unpackPostIntentDelegated at ran
  split at ran
  next feePayer delegate config instrument book margin session rest accounts =>
    simp only [Exec.bind_check, exists_const] at ran
    obtain ⟨-, -, signed, -, owned, owner, ⟨x, held, alive⟩, ran⟩ := ran
    obtain ⟨rfl, rfl⟩ := Exec.pure_ok.mp ran
    exact ⟨rfl, rfl, feePayer, delegate, config, session, rest, x, accounts, rfl, signed,
      get_eq_of_data (owned _ (by simp)) held, alive⟩
  · cases ran

/-- A match that a post tries leaves sessions alone. -/
theorem touches_inlineMatch {ctx : PostCtx} {args : PostIntentArgs} {id : ℕ}
    (ran : (Exec.when (args.tryMatch ≠ 0) (inlineMatch rt inv ctx args id)).run s = .ok () t) :
    Touches [.intentBook, .marginAccount, .userVolume, .feeTreasury, .raw]
      [.intentBook, .marginAccount, .userVolume, .feeTreasury, .raw, .pmlc] s t :=
  Within.keeps.ok ran

/-- A delegate's post: the session it is charged to, the post, and the ledger between the post and the
match that it may try. -/
theorem processPostIntentDelegated_ok {args : PostIntentArgs} (ran : (processPostIntentDelegated rt inv args).run s = .ok () t) :
    ∃ (ctx : PostCtx) (id : ℕ) (mid : Ledger) (feePayer delegate config session : Pubkey) (rest : List Pubkey) (x : Session),
      (unpackPostIntentDelegated rt inv).run s = .ok ctx s ∧
      inv.accounts = feePayer :: delegate :: config :: ctx.instrument :: ctx.book :: ctx.margin :: session :: rest ∧
      ctx.session = some session ∧ inv.isSigner delegate = true ∧ s.get session = ⟨rt.programId, .session x⟩ ∧
      LiveSession rt inv session delegate ctx.instrument ctx.owner x ∧ (postIntent rt inv ctx args).run s = .ok id mid ∧
      (Exec.when (args.tryMatch ≠ 0) (inlineMatch rt inv ctx args id)).run mid = .ok () t := by
  rw [processPostIntentDelegated, Exec.bind_ok] at ran
  obtain ⟨ctx, _, unpacked, ran⟩ := ran
  obtain ⟨rfl, -, feePayer, delegate, config, session, rest, x, accounts, given, signed, held, alive⟩ :=
    unpackPostIntentDelegated_accounts unpacked
  rw [doPostIntentInner, Exec.bind_ok] at ran
  obtain ⟨id, mid, posted, matched⟩ := ran
  exact ⟨ctx, id, mid, feePayer, delegate, config, session, rest, x, unpacked, accounts, given, signed, held, alive, posted,
    matched⟩

/-! ### One call -/

/-- The session of `owner` agrees with the posts since its creation. -/
def Accounted (rt : Runtime) (owner : Pubkey) (posts : List ℕ) (s : Ledger) : Prop :=
  ∀ x, s.get (rt.address (.session owner)) = ⟨rt.programId, .session x⟩ →
    x.owner = owner ∧ x.cumulativeCollateralUsed = posts.sum ∧
      (∀ amount ∈ posts, amount ≤ x.perIntentMaxCollateralAtoms) ∧ posts.sum ≤ x.cumulativeCollateralCap

/-- Where nothing was charged and nothing was renewed, the posts stay what they were. -/
theorem postsAfter_of_silent {c : Call rt} {posts : List ℕ} (quiet : ∀ args, c.instruction ≠ .createSession args)
    (silent : ∀ args, c.instruction ≠ .postIntentDelegated args) : postsAfter rt owner c s posts = posts := by
  have never : renews rt owner c s = false := by
    unfold renews
    split
    next args _ _ is_create _ => exact absurd is_create (quiet args)
    · rfl
  have none : chargedBy rt owner c s = none := by
    unfold chargedBy
    split
    next args _ _ _ _ _ _ _ _ is_post _ => exact absurd is_post (silent args)
    · rfl
  simp [postsAfter, never, none]

theorem Accounted.of_same {posts : List ℕ} (accounted : Accounted rt owner posts s)
    (same : ∀ x, t.get (rt.address (.session owner)) = ⟨rt.programId, .session x⟩ →
      s.get (rt.address (.session owner)) = ⟨rt.programId, .session x⟩) : Accounted rt owner posts t :=
  fun x held => accounted x (same x held)

/-- A handler that leaves no session behind leaves every session as it was. -/
theorem session_eq_of_leaves {instr : Instruction} {x : Session} (ran : (process rt inv instr).run s = .ok () t)
    (none : AccountKind.session ∉ instr.leaves) (held : t.get k = ⟨rt.programId, .session x⟩) :
    s.get k = ⟨rt.programId, .session x⟩ := by
  have same := ((within_process rt inv instr).keeps.ok ran).get_eq' (k := k) (by rwa [Ledger.data, held])
  rw [← same, held]

theorem accounted_execute {c : Call rt} {posts : List ℕ} (accounted : Accounted rt owner posts s) :
    Accounted rt owner (postsAfter rt owner c s posts) (execute rt c s) := by
  by_cases returns : c.returns s = true
  · have ran := Call.ran returns
    cases is_instr : c.instruction with
    | createSession args =>
      rw [is_instr] at ran
      obtain ⟨signer, config, session, rest, x, accounts, -, here, at_session, mine, zero, -, -, others⟩ :=
        processCreateSession_ok ran
      by_cases own : signer = owner
      · subst own
        have renewed : renews rt signer c s = true := by
          unfold renews
          rw [is_instr, accounts]
          simp [returns]
        rw [postsAfter, if_pos renewed]
        intro y held
        rw [here] at held
        rw [Ledger.data, held] at at_session
        cases at_session
        exact ⟨mine, by simp [zero], by simp, by simp⟩
      · have kept : postsAfter rt owner c s posts = posts := by
          have never : renews rt owner c s = false := by
            unfold renews
            rw [is_instr, accounts]
            simp [own]
          have none : chargedBy rt owner c s = none := by
            unfold chargedBy
            rw [is_instr]
          simp [postsAfter, never, none]
        rw [kept]
        apply accounted.of_same
        intro y held
        rw [← others, held]
        rintro same
        rw [← here] at same
        exact own (by simpa using (rt.address_injective _ _ same).symm)
    | revokeSession =>
      rw [is_instr] at ran
      rw [postsAfter_of_silent (by simp [is_instr]) (by simp [is_instr])]
      obtain ⟨signer, session, rest, x, accounts, -, here, held, mine, after⟩ := processRevokeSession_ok ran
      rw [after]
      by_cases own : signer = owner
      · subst own
        intro y held'
        rw [here, Ledger.get_setData_self] at held'
        cases congrArg Account.data held'
        rw [← here] at held
        exact accounted x held
      · apply accounted.of_same
        intro y held'
        rwa [Ledger.get_setData_of_ne] at held'
        rintro same
        rw [← here] at same
        exact own (by simpa using (rt.address_injective _ _ same).symm)
    | postIntentDelegated args =>
      rw [is_instr] at ran
      obtain ⟨ctx, id, mid, feePayer, delegate, config, session, rest, x, -, accounts, given, -, held, alive, posted,
        matched⟩ := processPostIntentDelegated_ok ran
      have touched := touches_inlineMatch matched
      obtain ⟨posting⟩ := postIntent_ok posted
      have charged := posting.charged
      rw [given] at charged
      obtain ⟨x', x'', at_session, recorded, after⟩ := charged
      rw [Ledger.data, held] at at_session
      cases at_session
      have never : renews rt owner c s = false := by
        unfold renews
        rw [is_instr]
      -- The match that may follow leaves the session alone.
      have between : ∀ y, (execute rt c s).get (rt.address (.session owner)) = ⟨rt.programId, .session y⟩ →
          mid.get (rt.address (.session owner)) = ⟨rt.programId, .session y⟩ := by
        intro y held'
        rw [← touched.get_eq' (by simp [Ledger.data, held']), held']
      by_cases own : session = rt.address (.session owner)
      · have amount : chargedBy rt owner c s = some (args.reserve posting.inst posting.b) := by
          unfold chargedBy
          rw [is_instr, accounts]
          simp [posting.instrument_eq, posting.book_eq, own, returns]
        subst own
        intro y held'
        have same := between y held'
        rw [after] at same
        cases congrArg Account.data same
        obtain ⟨mine, used, each, total⟩ := accounted x held
        obtain ⟨⟨-, within_intent, -, within_cap⟩, rfl⟩ := Session.recordIntent_ok.mp recorded
        rw [postsAfter, never, amount]
        refine ⟨mine, ?_, fun a member => ?_, ?_⟩
        · simp [used]
        · simp only [Bool.false_eq_true, if_false, Option.toList_some, List.mem_append, List.mem_singleton] at member
          rcases member with earlier | rfl
          · exact each a earlier
          · exact within_intent
        · simpa [used] using within_cap
      · have none : chargedBy rt owner c s = none := by
          unfold chargedBy
          rw [is_instr, accounts]
          simp [posting.instrument_eq, posting.book_eq, own]
        have kept : postsAfter rt owner c s posts = posts := by simp [postsAfter, never, none]
        rw [kept]
        apply accounted.of_same
        intro y held'
        have same := between y held'
        rw [← posting.others, same]
        · intro book
          rw [book, posting.book_after] at same
          cases same
        · intro margin
          rw [margin, posting.margin_after] at same
          cases same
        · rw [given]
          exact fun same => own (Option.some.inj same)
    | _ =>
      rw [postsAfter_of_silent (by simp [is_instr]) (by simp [is_instr])]
      apply accounted.of_same
      intro y held
      apply session_eq_of_leaves ran _ held
      rw [is_instr]
      simp [Instruction.leaves, Instruction.writes]
  · rw [Bool.not_eq_true] at returns
    rw [execute_of_not_returns returns]
    have kept : postsAfter rt owner c s posts = posts := by
      have never : renews rt owner c s = false := by
        unfold renews
        split
        · simp [returns]
        · rfl
      have none : chargedBy rt owner c s = none := by
        unfold chargedBy
        split
        · split
          · simp [returns]
          · rfl
        · rfl
      simp [postsAfter, never, none]
    rw [kept]
    exact accounted

/-- The counter of a session after a run. -/
theorem accounted_runCalls {calls : List (Call rt)} {posts : List ℕ} (accounted : Accounted rt owner posts s) :
    Accounted rt owner (delegatedPosts rt owner calls s posts) (runCalls rt calls s) := by
  induction calls generalizing s posts with
  | nil => exact accounted
  | cons c rest ih => exact ih (accounted_execute accounted)

/-! ### A session that is over -/

/-- No session of this owner is active from this slot on. -/
def SessionOver (rt : Runtime) (owner : Pubkey) (slot : ℕ) (s : Ledger) : Prop :=
  ∀ x, s.get (rt.address (.session owner)) = ⟨rt.programId, .session x⟩ → x.revoked ≠ 0 ∨ x.expiresAtSlot ≤ slot

/-- The session that a delegated call names. -/
def Call.session (c : Call rt) : Option Pubkey :=
  match c.instruction, c.inv.accounts with
  | .postIntentDelegated _, _ :: _ :: _ :: _ :: _ :: _ :: session :: _ => some session
  | .cancelIntentDelegated _, _ :: _ :: _ :: _ :: _ :: session :: _ => some session
  | _, _ => none

theorem not_active_of_over {x : Session} {slot now : ℕ} (ended : x.revoked ≠ 0 ∨ x.expiresAtSlot ≤ slot) (later : slot ≤ now) :
    x.isActive now = false := by
  unfold Session.isActive
  rw [decide_eq_false_iff_not]
  omega

theorem processCancelIntentDelegated_ok {intentId : UInt64}
    (ran : (processCancelIntentDelegated rt inv intentId).run s = .ok () t) :
    ∃ feePayer delegate instrument book margin session rest owner x,
      inv.accounts = feePayer :: delegate :: instrument :: book :: margin :: session :: rest ∧
      inv.isSigner delegate = true ∧ (∀ k ∈ [instrument, book, margin], s.owner k = rt.programId) ∧
      s.get session = ⟨rt.programId, .session x⟩ ∧ LiveSession rt inv session delegate instrument owner x ∧
      (cancelIntent rt inv instrument book margin intentId.toNat (authorizeSession owner)).run s = .ok () t := by
  unfold processCancelIntentDelegated at ran
  split at ran
  next feePayer delegate instrument book margin session rest accounts =>
    simp only [Exec.bind_check, exists_const] at ran
    obtain ⟨-, -, signed, -, -, owned, owner, ⟨x, held, alive⟩, ran⟩ := ran
    exact ⟨feePayer, delegate, instrument, book, margin, session, rest, owner, x, accounts, signed,
      fun k member => owned k (by simp at member ⊢; tauto), get_eq_of_data (owned _ (by simp)) held, alive, ran⟩
  · cases ran

/-- A delegated call that returns finds an active session. -/
theorem Call.session_active {c : Call rt} (names : c.session = some k) (returns : c.returns s = true) :
    ∃ x, s.get k = ⟨rt.programId, .session x⟩ ∧ x.isActive c.inv.slot = true := by
  have ran := Call.ran returns
  unfold Call.session at names
  split at names
  next args _ _ _ _ _ _ session _ is_post given =>
    cases names
    rw [is_post] at ran
    obtain ⟨ctx, id, mid, feePayer, delegate, config, session, rest, x, -, accounts, -, -, held, alive, -⟩ :=
      processPostIntentDelegated_ok ran
    rw [given] at accounts
    cases accounts
    exact ⟨x, held, alive.active⟩
  next intentId _ _ _ _ _ session _ is_cancel given =>
    cases names
    rw [is_cancel] at ran
    obtain ⟨feePayer, delegate, instrument, book, margin, session, rest, owner, x, accounts, -, -, held, alive, -⟩ :=
      processCancelIntentDelegated_ok ran
    rw [given] at accounts
    cases accounts
    exact ⟨x, held, alive.active⟩
  · cases names

theorem SessionOver.not_returns {c : Call rt} {slot : ℕ} (ended : SessionOver rt owner slot s) (later : slot ≤ c.inv.slot)
    (names : c.session = some (rt.address (.session owner))) : c.returns s = false := by
  by_contra returns
  rw [Bool.not_eq_false] at returns
  obtain ⟨x, held, active⟩ := Call.session_active names returns
  rw [not_active_of_over (ended x held) later] at active
  cases active

theorem SessionOver.of_same {slot : ℕ} (ended : SessionOver rt owner slot s)
    (same : ∀ x, t.get (rt.address (.session owner)) = ⟨rt.programId, .session x⟩ →
      s.get (rt.address (.session owner)) = ⟨rt.programId, .session x⟩) : SessionOver rt owner slot t :=
  fun x held => ended x (same x held)

/-- A revoked session is over for good. -/
theorem sessionOver_revoke {x : Session} (slot : ℕ) :
    SessionOver rt owner slot (s.setData (rt.address (.session owner)) (.session x.revoke)) := by
  intro y held
  rw [Ledger.get_setData_self] at held
  cases congrArg Account.data held
  exact .inl (by simp [Session.revoke])

theorem SessionOver.execute {c : Call rt} {slot : ℕ} (ended : SessionOver rt owner slot s) (later : slot ≤ c.inv.slot)
    (not_renewed : renews rt owner c s = false) : SessionOver rt owner slot (execute rt c s) := by
  by_cases returns : c.returns s = true
  · have ran := Call.ran returns
    cases is_instr : c.instruction with
    | createSession args =>
      rw [is_instr] at ran
      obtain ⟨signer, config, session, rest, x, accounts, -, here, -, -, -, -, -, others⟩ := processCreateSession_ok ran
      have other : signer ≠ owner := by
        rintro rfl
        unfold renews at not_renewed
        rw [is_instr, accounts] at not_renewed
        simp [returns] at not_renewed
      apply ended.of_same
      intro y held
      rw [← others, held]
      rintro same
      rw [← here] at same
      exact other (by simpa using (rt.address_injective _ _ same).symm)
    | revokeSession =>
      rw [is_instr] at ran
      obtain ⟨signer, session, rest, x, accounts, -, here, held, mine, after⟩ := processRevokeSession_ok ran
      rw [after, ← here]
      by_cases own : signer = owner
      · subst own
        exact sessionOver_revoke slot
      · apply ended.of_same
        intro y held'
        rwa [Ledger.get_setData_of_ne] at held'
        rintro same
        exact own (by simpa using (rt.address_injective _ _ same).symm)
    | postIntentDelegated args =>
      rw [is_instr] at ran
      obtain ⟨ctx, id, mid, feePayer, delegate, config, session, rest, x, -, accounts, given, -, held, alive, posted,
        matched⟩ := processPostIntentDelegated_ok ran
      have touched := touches_inlineMatch matched
      obtain ⟨posting⟩ := postIntent_ok posted
      have other : session ≠ rt.address (.session owner) := by
        rintro rfl
        have active := alive.active
        rw [not_active_of_over (ended x held) later] at active
        cases active
      apply ended.of_same
      intro y held'
      have same : mid.get (rt.address (.session owner)) = ⟨rt.programId, .session y⟩ := by
        rw [← touched.get_eq' (by simp [Ledger.data, held']), held']
      rw [← posting.others, same]
      · intro book
        rw [book, posting.book_after] at same
        cases same
      · intro margin
        rw [margin, posting.margin_after] at same
        cases same
      · rw [given]
        exact fun same => other (Option.some.inj same)
    | _ =>
      apply ended.of_same
      intro y held
      apply session_eq_of_leaves ran _ held
      rw [is_instr]
      simp [Instruction.leaves, Instruction.writes]
  · rw [Bool.not_eq_true] at returns
    rwa [execute_of_not_returns returns]

/-- No call of a run is a successful creation of this owner's session. -/
def NeverRenewed (rt : Runtime) (owner : Pubkey) : List (Call rt) → Ledger → Prop
  | [], _ => True
  | c :: rest, s => renews rt owner c s = false ∧ NeverRenewed rt owner rest (execute rt c s)

theorem SessionOver.runCalls {calls : List (Call rt)} {slot : ℕ} (ended : SessionOver rt owner slot s)
    (later : ∀ c ∈ calls, slot ≤ c.inv.slot) (never : NeverRenewed rt owner calls s) :
    SessionOver rt owner slot (runCalls rt calls s) := by
  induction calls generalizing s with
  | nil => exact ended
  | cons c rest ih =>
    obtain ⟨first, never⟩ := never
    exact ih (ended.execute (later c List.mem_cons_self) first) (fun c' member => later c' (List.mem_cons_of_mem c member)) never

/-- After a successful revocation the owner's session is over from any slot on. -/
theorem sessionOver_of_revoke {c : Call rt} {rest : List Pubkey} (revokes : c.instruction = .revokeSession)
    (accounts : c.inv.accounts = owner :: rest) (returns : c.returns s = true) (slot : ℕ) :
    SessionOver rt owner slot (execute rt c s) := by
  have ran := Call.ran returns
  rw [revokes] at ran
  obtain ⟨signer, session, rest', x, given, -, here, -, -, after⟩ := processRevokeSession_ok ran
  rw [accounts] at given
  cases given
  rw [after, ← here]
  exact sessionOver_revoke slot

/-! ### Whose intents a delegate handles -/

/-- What a delegated call works on: the session is active, it allows the instrument among the call's accounts,
its delegate signed, and the intent that is posted or cancelled is the session owner's. A post may be followed
by the match that it tries, and nothing else. -/
structure DelegatedFor (rt : Runtime) (s : Ledger) (c : Call rt) (x : Session) (instrument : Pubkey) : Prop where
  session : s.get (rt.address (.session x.owner)) = ⟨rt.programId, .session x⟩
  signed : c.inv.isSigner x.delegate = true
  active : x.isActive c.inv.slot = true
  allowed : x.allowedInstruments = [] ∨ instrument ∈ x.allowedInstruments
  posts : ∀ args, c.instruction = .postIntentDelegated args → ∃ ctx id mid feePayer config rest,
    c.inv.accounts = feePayer :: x.delegate :: config :: instrument :: ctx.book :: ctx.margin ::
      rt.address (.session x.owner) :: rest ∧
    (unpackPostIntentDelegated rt c.inv).run s = .ok ctx s ∧ ctx.owner = x.owner ∧ ctx.instrument = instrument ∧
    (postIntent rt c.inv ctx args).run s = .ok id mid ∧
    (Exec.when (args.tryMatch ≠ 0) (inlineMatch rt c.inv ctx args id)).run mid = .ok () (execute rt c s) ∧
    (Books rt s → ∃ b b' i o, s.get ctx.book = ⟨rt.programId, .intentBook b⟩ ∧ mid.get ctx.book = ⟨rt.programId, .intentBook b'⟩ ∧
      b'.header.instrument = instrument ∧ b'.order i = some o ∧ o.id = id ∧ b'.trader o.ownerSeat = some x.owner ∧
      (∀ j o', j ≠ i → b'.order j = some o' → b.order j = some o') ∧
      ∀ j o', b.order j = some o' → b.trader o'.ownerSeat ≠ some x.owner → b'.order j = some o')
  cancels : ∀ intentId, c.instruction = .cancelIntentDelegated intentId → ∃ inst b b' idx node seat feePayer margin rest,
    c.inv.accounts = feePayer :: x.delegate :: instrument :: inst.intentBook :: margin :: rt.address (.session x.owner) :: rest ∧
    s.get instrument = ⟨rt.programId, .instrumentConfig inst⟩ ∧ s.get inst.intentBook = ⟨rt.programId, .intentBook b⟩ ∧
    (execute rt c s).get inst.intentBook = ⟨rt.programId, .intentBook b'⟩ ∧ b.nodes[idx]? = some (.intent node) ∧
    node.id = intentId.toNat ∧ b.nodes[node.ownerSeat]? = some (.seat seat) ∧ seat.trader = x.owner ∧
    (Books rt s → b'.order = Function.update b.order idx none)

/-- What an owner's post prunes is the owner's. -/
theorem Book.orders_of_pruneOwn {b b' : IntentBook} {now refund : ℕ} (tidy : Tidy b)
    (ran : (Book.pruneOwnExpired owner now).run b = .ok refund b') :
    (∀ j o, b'.order j = some o → b.order j = some o) ∧
      ∀ j o, b.order j = some o → b.trader o.ownerSeat ≠ some owner → b'.order j = some o := by
  obtain ⟨work, batch, owned, -, view, -⟩ := Book.pruneOwnExpired_ok tidy ran
  have order : ∀ j, b'.order j = if j ∈ work.map Prod.fst then none else b.order j :=
    fun j => congrFun (congrArg BookView.order view) j
  constructor
  · intro j o placed
    rw [order] at placed
    split at placed
    · cases placed
    · exact placed
  · intro j o placed foreign
    rw [order, if_neg, placed]
    intro member
    obtain ⟨⟨idx, node, total⟩, listed, rfl⟩ := List.mem_map.mp member
    cases (batch.1 idx node total listed).1.symm.trans placed
    exact foreign (owned _ listed).1

/-- A cancel that returned: the order it took out, and the book without it. -/
theorem cancelIntent_ok {instrument book margin : Pubkey} {intentId : ℕ} {u : Unit}
    {authorize : Pubkey → IntentNode → Except ProgramError Unit} (genuine : Genuine rt s)
    (owned : ∀ k ∈ [instrument, book, margin], s.owner k = rt.programId)
    (ran : (cancelIntent rt inv instrument book margin intentId authorize).run s = .ok u t) :
    ∃ inst b b' idx node seat, s.get instrument = ⟨rt.programId, .instrumentConfig inst⟩ ∧ inst.intentBook = book ∧
      s.get book = ⟨rt.programId, .intentBook b⟩ ∧ t.get book = ⟨rt.programId, .intentBook b'⟩ ∧
      b.nodes[idx]? = some (.intent node) ∧ node.id = intentId ∧ b.nodes[node.ownerSeat]? = some (.seat seat) ∧
      authorize seat.trader node = .ok () ∧ (∀ j, j ≠ book → j ≠ margin → t.get j = s.get j) ∧
      (Books rt s → Sound inst.collateralBucket b' ∧ b'.view = { b.view with order := Function.update b.view.order idx none }) := by
  simp only [cancelIntent, Exec.bind_check, exists_const, ne_eq, not_not] at ran
  obtain ⟨inst, found, at_book, ran⟩ := ran
  rw [Exec.bind_ok] at ran
  obtain ⟨refund, mid, cancelled, refunded⟩ := ran
  obtain ⟨b, b', found_book, inner, rfl⟩ := atBook_ok cancelled
  obtain ⟨m, m', found_margin, -, rfl⟩ := atMargin_ok refunded
  have apart : margin ≠ book := by
    rintro rfl
    rw [Ledger.data_setData_self] at found_margin
    cases found_margin
  have stays := inner
  simp only [cancelInBook, Exec.bind_ok, Exec.gets_ok, Exec.ofExcept_ok, Exec.rejectIf_ok, Exec.pure_ok] at inner
  obtain ⟨⟨idx, side⟩, _, ⟨search, rfl⟩, node, _, ⟨slot, rfl⟩, seat, _, ⟨seated, rfl⟩, _, _, ⟨authorized, rfl⟩, _, _,
    ⟨-, rfl⟩, _, _, taken, total, _, ⟨-, rfl⟩, -, final⟩ := inner
  rw [final] at taken
  rw [IntentBook.intent_eq_ok] at slot
  rw [IntentBook.seat_eq_ok] at seated
  have named : node.id = intentId ∧ node.side = side := by
    rw [Book.findIntentById, Book.findIntentFrom_ok] at search
    obtain ⟨j, node', here, slot', named, sided, -⟩ := search
    rw [Nat.zero_add] at here
    subst here
    rw [slot] at slot'
    cases slot'
    exact ⟨named, sided⟩
  obtain ⟨named, rfl⟩ := named
  refine ⟨inst, b, b', idx, node, seat, get_eq_of_data (owned _ (by simp)) found, at_book,
    get_eq_of_data (owned _ (by simp)) found_book, ?_, slot, named, seated, authorized, fun j book margin => ?_, fun books => ?_⟩
  · rw [Ledger.get_setData_of_ne _ _ apart.symm, Ledger.get_setData_self, owned _ (by simp)]
  · rw [Ledger.get_setData_of_ne _ _ margin, Ledger.get_setData_of_ne _ _ book]
  · have listed := listed_of_load (owned _ (by simp)) found
    have sound := (genuine.sound_of_listed books listed at_book (owned _ (by simp)) found_book).2
    exact ⟨(bookStep_cancelInBook sound stays).1.sound, (Book.cancel_ok sound.consistent.tidy slot taken).2⟩

theorem delegatedFor_of_returns (genuine : Genuine rt s) {c : Call rt} (names : c.session = some k) (returns : c.returns s = true) :
    ∃ x instrument, rt.address (.session x.owner) = k ∧ DelegatedFor rt s c x instrument := by
  have ran := Call.ran returns
  unfold Call.session at names
  split at names
  next args _ _ _ _ _ _ session _ is_post given =>
    cases names
    rw [is_post] at ran
    obtain ⟨ctx, id, mid, feePayer, delegate, config, session, rest, x, unpacked, accounts, -, signed, held, alive, posted,
      matched⟩ := processPostIntentDelegated_ok ran
    rw [given] at accounts
    cases accounts
    obtain ⟨rfl, active, allows, address_eq, owner_eq⟩ := alive
    subst address_eq
    refine ⟨x, ctx.instrument, rfl, held, signed, active, by simpa [Session.allowsInstrument] using allows, ?_, ?_⟩
    · intro args' is_post'
      rw [is_post] at is_post'
      cases is_post'
      refine ⟨ctx, id, mid, _, _, _, given, unpacked, owner_eq.symm, rfl, posted, matched, fun books => ?_⟩
      obtain ⟨posting⟩ := postIntent_ok posted
      have owned_book := posting.owned ctx.book (by simp)
      obtain ⟨same, sound⟩ := posting.sound genuine books
      have pruned := posting.step_prune sound
      obtain ⟨-, is_id, slot, seat, view, -⟩ := Book.post_ok pruned.sound.consistent posting.isSide posting.posted
      obtain ⟨earlier, kept⟩ := Book.orders_of_pruneOwn sound.consistent.tidy posting.pruned
      have orders : posting.b2.order = Function.update posting.b1.order slot _ := view.order
      have vacant : posting.b1.order slot = none := view.vacant
      have order := congrFun view.order slot
      rw [Function.update_self] at order
      refine ⟨posting.b, posting.b2, slot, _, get_eq_of_data owned_book posting.book_eq, posting.book_after, ?_, order, ?_, ?_,
        fun j o' other placed => ?_, fun j o' placed foreign => ?_⟩
      · have header := congrArg IntentBookHeader.instrument view.header
        exact header.trans (pruned.instrument.trans same)
      · exact is_id.symm
      · have trader := congrFun view.trader seat
        rw [Function.update_self, ← owner_eq] at trader
        exact trader
      · rw [orders, Function.update_of_ne other] at placed
        exact earlier j o' placed
      · rw [owner_eq] at foreign
        have stays := kept j o' placed foreign
        have other : j ≠ slot := by
          rintro rfl
          cases stays.symm.trans vacant
        rw [orders, Function.update_of_ne other, stays]
    · intro intentId is_cancel
      rw [is_post] at is_cancel
      cases is_cancel
  next intentId _ _ _ _ _ session _ is_cancel given =>
    cases names
    rw [is_cancel] at ran
    obtain ⟨feePayer, delegate, instrument, book, margin, session, rest, owner, x, accounts, signed, owned, held, alive,
      cancelled⟩ := processCancelIntentDelegated_ok ran
    rw [given] at accounts
    cases accounts
    obtain ⟨rfl, active, allows, address_eq, owner_eq⟩ := alive
    subst address_eq owner_eq
    refine ⟨x, _, rfl, held, signed, active, by simpa [Session.allowsInstrument] using allows, ?_, ?_⟩
    · intro args is_post
      rw [is_cancel] at is_post
      cases is_post
    · intro intentId' is_cancel'
      rw [is_cancel] at is_cancel'
      cases is_cancel'
      obtain ⟨inst, b, b', idx, node, seat, at_instrument, rfl, before, after, slot, named, seated, authorized, -, view⟩ :=
        cancelIntent_ok genuine owned cancelled
      refine ⟨inst, b, b', idx, node, seat, _, _, _, given, at_instrument, before, after, slot, named, seated, ?_,
        fun books => ?_⟩
      · unfold authorizeSession at authorized
        split at authorized
        · cases authorized
        next same => exact not_not.mp same
      · exact congrArg BookView.order (view books).2
  · cases names

/-- A session stays within its bounds over a whole run: it has used what was posted since it was created,
each post and all of them together stay below its caps; once it is over it admits nothing until its owner
creates a new one; and it is used for its owner's intents on its instruments only. -/
theorem session_bounds {start : Ledger} (gen : Genesis rt start) (calls : List (Call rt)) (owner : Pubkey) :
    Accounted rt owner (delegatedPosts rt owner calls start []) (runCalls rt calls start) ∧
      (∀ (slot : ℕ) (later : List (Call rt)) (c : Call rt), SessionOver rt owner slot (runCalls rt calls start) →
        NeverRenewed rt owner later (runCalls rt calls start) → (∀ c' ∈ later, slot ≤ c'.inv.slot) → slot ≤ c.inv.slot →
        c.session = some (rt.address (.session owner)) →
        c.returns (runCalls rt later (runCalls rt calls start)) = false) ∧
      (∀ (c : Call rt) (rest : List Pubkey) (slot : ℕ), c.instruction = .revokeSession → c.inv.accounts = owner :: rest →
        c.returns (runCalls rt calls start) = true →
        SessionOver rt owner slot (execute rt c (runCalls rt calls start))) ∧
      ∀ c : Call rt, c.session = some (rt.address (.session owner)) → c.returns (runCalls rt calls start) = true →
        ∃ x instrument, x.owner = owner ∧ DelegatedFor rt (runCalls rt calls start) c x instrument := by
  refine ⟨?_, fun slot later c ended never laters now names => ?_, fun c rest slot revokes accounts returns => ?_,
    fun c names returns => ?_⟩
  · apply accounted_runCalls
    intro x held
    rw [gen.vacant] at held
    cases congrArg Account.data held
  · exact (ended.runCalls laters never).not_returns now names
  · exact sessionOver_of_revoke revokes accounts returns slot
  · have reached : Reachable rt (fun _ => True) (runCalls rt calls start) :=
      Reachable.runCalls (fun _ _ => trivial) (.genesis gen)
    obtain ⟨x, instrument, here, works⟩ := delegatedFor_of_returns (genuine_of_reachable reached) names returns
    exact ⟨x, instrument, by simpa using here, works⟩

/-- Bob has posted for Alice twice. -/
theorem session_bounds_delegating :
    Accounted Runtime.sample Sample.alice [1000, 1000] (runCalls Runtime.sample Sample.delegating Sample.genesis) := by
  have posts : delegatedPosts Runtime.sample Sample.alice Sample.delegating Sample.genesis [] = [1000, 1000] := by
    decide +kernel
  have bounds := (session_bounds Sample.genesis_genesis Sample.delegating Sample.alice).1
  rwa [posts] at bounds

end Polyleverage

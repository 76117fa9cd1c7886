import Polyleverage.Invariants.BookEvents

/-! # The match of a call

A match is reached by four instructions: two name the pair or search it in the book, and two post an intent
first. Up to the match a call works on books by posts only.
-/

namespace Polyleverage

open Machine

variable {rt : Runtime} {s v : Ledger} {ctx : MatchCtx} {longId shortId : ℕ} {k : Pubkey}

/-- The match that a post tries once its intent is in the book. -/
def TriesMatch (inv : rt.Invocation) (post : PostCtx) (args : PostIntentArgs) (s : Ledger) (ctx : MatchCtx)
    (longId shortId : ℕ) (v : Ledger) : Prop :=
  args.tryMatch ≠ 0 ∧ ∃ id mid other counterpartyMargin pmlc system feeSchedule takerVolume makerVolume treasury rest,
    (postIntent rt inv post args).run s = .ok id mid ∧
    inv.accounts.drop post.inlineMatchOffset =
      counterpartyMargin :: pmlc :: system :: feeSchedule :: takerVolume :: makerVolume :: treasury :: rest ∧
    (atBook rt inv post.book (Book.findOverlapOnSide (if args.side.toNat = SIDE_LONG then SIDE_SHORT else SIDE_LONG)
      args.priceFp.toNat inv.slot id)).run mid = .ok (some other) v ∧
    ctx = inlineMatchCtx post args counterpartyMargin pmlc feeSchedule takerVolume makerVolume treasury ∧
    (longId, shortId) = if args.side.toNat = SIDE_LONG then (id, other) else (other, id)

/-- The call matches these two intents with these accounts, from this ledger. -/
def Call.Matches (c : Call rt) (s : Ledger) (ctx : MatchCtx) (longId shortId : ℕ) (v : Ledger) : Prop :=
  match c.instruction with
  | .matchPair args =>
    (unpackMatchAccounts rt c.inv).run s = .ok ctx v ∧ longId = args.longIntentId.toNat ∧ shortId = args.shortIntentId.toNat
  | .matchBestAvailable =>
    ∃ u, (unpackMatchAccounts rt c.inv).run s = .ok ctx u ∧
      (atBook rt c.inv ctx.book (Book.scanForFirstValidPair c.inv.slot)).run u = .ok (some (longId, shortId)) v
  | .postIntent args =>
    ∃ post u, (unpackPostIntent rt c.inv).run s = .ok post u ∧ TriesMatch c.inv post args u ctx longId shortId v
  | .postIntentDelegated args =>
    ∃ post u, (unpackPostIntentDelegated rt c.inv).run s = .ok post u ∧ TriesMatch c.inv post args u ctx longId shortId v
  | _ => False

/-- What a call has done when it comes to its match. -/
structure Leads (rt : Runtime) (s v : Ledger) (ctx : MatchCtx) : Prop where
  touches : Touches [.intentBook, .marginAccount, .session] [.intentBook, .marginAccount, .session] s v
  shelves : Shelves Grows s v
  evolves : ∀ k, EvolvesAt rt k (s.Listed rt) (fun _ => True) False s v
  instrument : v.owner ctx.instrument = rt.programId
  book : v.owner ctx.book = rt.programId

/-- What a call has done so far does not change when it looks at a book. -/
theorem Leads.look {u : Ledger} {inv : rt.Invocation} {α : Type} {m : BookM α} {a : α} (leads : Leads rt s u ctx)
    (looks : Exec.Keeps Eq m) (ran : (atBook rt inv k m).run u = .ok a v) : Leads rt s v ctx where
  touches := by
    have same : Touches [.intentBook, .marginAccount, .session] [.intentBook, .marginAccount, .session] u v :=
      fun j => .inl (get_of_look looks ran j)
    exact Trans.trans leads.touches same
  shelves := by
    have keeping : Exec.Keeping Grows m := keeping_of_eq looks
    have same : Shelves Grows u v := Exec.Keeping.keeps.ok ran
    exact Trans.trans leads.shelves same
  evolves j := (leads.evolves j).trans (evolvesAt_of_get_eq (get_of_look looks ran j))
  instrument := by rw [Ledger.owner, get_of_look looks ran, ← leads.instrument, Ledger.owner]
  book := by rw [Ledger.owner, get_of_look looks ran, ← leads.book, Ledger.owner]

theorem leads_of_unpackMatchAccounts {inv : rt.Invocation} (ran : (unpackMatchAccounts rt inv).run s = .ok ctx v) :
    Leads rt s v ctx := by
  obtain ⟨rfl, instrument, book⟩ := unpackMatchAccounts_ok ran
  exact ⟨Std.Refl.refl s, Std.Refl.refl s, fun _ => evolvesAt_of_get_eq rfl, instrument, book⟩

theorem TriesMatch.leads {inv : rt.Invocation} {post : PostCtx} {args : PostIntentArgs} (genuine : Genuine rt s)
    (tries : TriesMatch inv post args s ctx longId shortId v) : Leads rt s v ctx := by
  obtain ⟨-, id, mid, other, margin, pmlc, system, schedule, taker, maker, treasury, rest, posted, -, looked, rfl, -⟩ := tries
  have touches : Touches [.intentBook, .marginAccount, .session] [.intentBook, .marginAccount, .session] s mid :=
    (within_postIntent post args fun _ => by simp).keeps.ok posted
  have posts : Leads rt s mid (inlineMatchCtx post args margin pmlc schedule taker maker treasury) := by
    obtain ⟨posting⟩ := postIntent_ok posted
    refine ⟨touches, Exec.Keeping.keeps.ok posted, fun _ => evolvesAt_postIntent genuine trivial posted, ?_, ?_⟩
    · have kept := touches.get_eq (k := post.instrument) (by rw [posting.instrument_eq]; simp)
      exact (congrArg Account.owner kept).trans (posting.owned _ (by simp))
    · exact congrArg Account.owner posting.book_after
  exact posts.look (keeps_findOverlapOnSide _ _ _ _) looked

theorem Call.Matches.leads {c : Call rt} (genuine : Genuine rt s) (matching : c.Matches s ctx longId shortId v) :
    Leads rt s v ctx := by
  unfold Call.Matches at matching
  split at matching
  next args _ => exact leads_of_unpackMatchAccounts matching.1
  next =>
    obtain ⟨_, unpacked, scanned⟩ := matching
    exact (leads_of_unpackMatchAccounts unpacked).look (keeps_scanForFirstValidPair _) scanned
  next args _ =>
    obtain ⟨post, _, unpacked, tries⟩ := matching
    obtain ⟨rfl, -⟩ := unpackPostIntent_ok unpacked
    exact tries.leads genuine
  next args _ =>
    obtain ⟨post, _, unpacked, tries⟩ := matching
    obtain ⟨rfl, -⟩ := unpackPostIntentDelegated_ok unpacked
    exact tries.leads genuine
  · cases matching

namespace Leads

variable (leads : Leads rt s v ctx)
include leads

/-- The instruments are as they were listed before. -/
theorem listed_iff {instrument : Pubkey} {c : InstrumentConfig} : v.Listed rt instrument c ↔ s.Listed rt instrument c := by
  constructor
  · intro listed
    obtain ⟨-, status, found⟩ := listed.account
    have same := leads.touches.get_eq' (k := instrument) (by rw [found]; simp)
    rwa [Ledger.Listed, Ledger.fixed, Ledger.owner, Ledger.data, same] at listed
  · intro listed
    obtain ⟨-, status, found⟩ := listed.account
    have same := leads.touches.get_eq (k := instrument) (by rw [found]; simp)
    rwa [Ledger.Listed, Ledger.fixed, Ledger.owner, Ledger.data, same]

/-- The books are as events make them. -/
theorem bookAt {I : (InstrumentConfig → Prop) → IntentBook → Prop} {expands : Prop} (invariant : BookInvariant rt (fun _ => True) expands I)
    (before : BookAt rt I k s) : BookAt rt I k v := by
  apply invariant.evolvesAt before
  · intro b' held'
    obtain ⟨b, held⟩ := leads.shelves.old k _ b' held'
    exact ⟨b, held⟩
  · exact fun _ _ => leads.listed_iff.mpr
  · intro b held home
    obtain ⟨b', held', evolves⟩ := leads.evolves k b held home
    exact ⟨b', held', evolves.weaken (fun _ => id) False.elim⟩

end Leads

end Polyleverage

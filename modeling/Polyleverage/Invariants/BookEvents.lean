import Polyleverage.Invariants.History
import Polyleverage.Invariants.Nodewise
import Mathlib.Logic.Relation

/-! # What happens to a book

An instruction works on the book of an instrument by a few programs: it prunes, posts, cancels, fills, or
grows the book, on the terms of the instrument that is listed for it. What each of these keeps is kept by
every instruction.
-/

namespace Polyleverage

open RedBlack Machine

/-- A draft on the terms of an instrument, for a book with this cached fee. -/
structure Book.Admissible (c : InstrumentConfig) (b : IntentBook) (d : Book.Draft) : Prop where
  isSide : IsSide d.side
  some_contracts : d.contracts ≠ 0
  priced : validatePriceTicked d.priceFp c.tickFp = .ok ()
  reserved : d.reservedCollateral = d.contracts * c.collateralBucket
  buffered : d.feeBuffer = d.contracts * c.collateralBucket * b.header.cachedMaxFeeBps / BPS_DENOM

/-- Take the intents of a prune out, one after the other. -/
def pruneSlots : List (ℕ × IntentNode × Pubkey × ℕ) → BookM Unit
  | [] => pure ()
  | (idx, node, _) :: work => do
    pruneSlot idx node.side
    pruneSlots work

/-- One program on a book, on the terms of its instrument, where these traders post. A match counts however it ends. -/
inductive BookEvent (rt : Runtime) (c : InstrumentConfig) (posts : Pubkey → Prop) (expands : Prop) :
    IntentBook → IntentBook → Prop
  | prunedOwn {b b' owner now refund} (ran : (Book.pruneOwnExpired owner now).run b = .ok refund b') :
      BookEvent rt c posts expands b b'
  | posted {b b' owner d id} (may : posts owner) (admissible : Book.Admissible c b d)
      (ran : (Book.post owner d).run b = .ok id b') : BookEvent rt c posts expands b b'
  | cancelled {b b' margin mint id authorize refund}
      (ran : (cancelInBook rt margin mint id authorize).run b = .ok refund b') : BookEvent rt c posts expands b b'
  | pruned {b b' work} (measured : Measured b work) (ran : (pruneSlots work).run b = .ok () b') :
      BookEvent rt c posts expands b b'
  | matched {b b' instrument pmlc longId shortId now}
      (left : b' ∈ ((matchInBook rt instrument pmlc c.collateralBucket longId shortId now).run b).state?) :
      BookEvent rt c posts expands b b'
  | substituted {b b' substitutor p longId shortId now r}
      (ran : (substituteInBook substitutor p c.collateralBucket longId shortId now).run b = .ok r b') :
      BookEvent rt c posts expands b b'
  | expanded {b b' n} (grows : expands) (ran : (IntentBook.expandNodes n).run b = .ok () b') : BookEvent rt c posts expands b b'

variable {rt : Runtime} {terms : InstrumentConfig → Prop} {c : InstrumentConfig} {posts posts' : Pubkey → Prop}
  {expands expands' : Prop} {b b' : IntentBook}

theorem BookEvent.weaken (event : BookEvent rt c posts expands b b') (more : ∀ p, posts p → posts' p)
    (wider : expands → expands') : BookEvent rt c posts' expands' b b' := by
  cases event with
  | prunedOwn ran => exact .prunedOwn ran
  | posted may admissible ran => exact .posted (more _ may) admissible ran
  | cancelled ran => exact .cancelled ran
  | pruned measured ran => exact .pruned measured ran
  | matched left => exact .matched left
  | substituted ran => exact .substituted ran
  | expanded grows ran => exact .expanded (wider grows) ran

/-- What an instruction makes of a book. -/
def Evolves (rt : Runtime) (terms : InstrumentConfig → Prop) (posts : Pubkey → Prop) (expands : Prop) :
    IntentBook → IntentBook → Prop :=
  Relation.ReflTransGen fun b b' => ∃ c, terms c ∧ BookEvent rt c posts expands b b'

theorem Evolves.weaken (evolves : Evolves rt terms posts expands b b') (more : ∀ p, posts p → posts' p)
    (wider : expands → expands') : Evolves rt terms posts' expands' b b' :=
  Relation.ReflTransGen.mono (fun _ _ ⟨c, known, event⟩ => ⟨c, known, event.weaken more wider⟩) _ _ evolves

section Nodes

variable {P : Pubkey → IntentNode → Prop} [Unlinked P] [Enduring P]

instance (work) : Exec.Keeping (StaysEvery P) (pruneSlots work) := by
  induction work with
  | nil =>
    unfold pruneSlots
    infer_instance
  | cons entry work ih => exact Exec.keeping_bind inferInstance fun _ => ih

/-- An event keeps what every intent has, if the intents that are posted have it. -/
theorem staysEvery_of_event (event : BookEvent rt c posts expands b b')
    (new : ∀ d id seq seat, Book.Admissible c b d → P b.header.instrument (d.node id seq seat)) : StaysEvery P b b' := by
  cases event with
  | prunedOwn ran => exact Exec.Keeping.keeps.ok ran
  | posted may admissible ran => exact staysEvery_post (fun id seq seat => new _ id seq seat admissible) ran
  | cancelled ran => exact Exec.Keeping.keeps.ok ran
  | pruned measured ran => exact Exec.Keeping.keeps.ok ran
  | matched left => exact Exec.Keeping.keeps _ _ left
  | substituted ran => exact Exec.Keeping.keeps.ok ran
  | expanded grows ran => exact Exec.Keeping.keeps.ok ran

end Nodes

/-- The book stays the book of its instrument, with its fee rate. -/
theorem Evolves.same (evolves : Evolves rt terms posts expands b b') : StaysEvery (fun _ _ => True) b b' := by
  induction evolves with
  | refl => exact Std.Refl.refl b
  | tail _ event ih =>
    obtain ⟨c, -, event⟩ := event
    exact Trans.trans ih (staysEvery_of_event (P := fun _ _ => True) event fun _ _ _ _ _ => trivial)

/-! ### Sound books -/

/-- The intents of a prune are taken out of a sound book one after the other. -/
theorem staysSound_pruneSlots {bucket : ℕ} {work : List (ℕ × IntentNode × Pubkey × ℕ)} (measured : Measured b work)
    (ran : (pruneSlots work).run b = .ok () b') : StaysSound bucket b b' := by
  induction work generalizing b with
  | nil =>
    obtain ⟨-, rfl⟩ := Exec.pure_ok.mp ran
    exact Std.Refl.refl b
  | cons entry work ih =>
    intro sound
    obtain ⟨idx, node, trader, total⟩ := entry
    rw [pruneSlots, Exec.bind_ok] at ran
    obtain ⟨_, b1, pruned, ran⟩ := ran
    obtain ⟨placed, seated, -⟩ := measured.1 idx node trader total List.mem_cons_self
    have first : StaysSound bucket b b1 := (bookStep_pruneSlot sound placed seated pruned).stays_single
    have next : StaysSound bucket b1 b' := ih (measured.tail (pruneSlot_ok sound.consistent.tidy placed pruned)) ran
    exact Trans.trans first next sound

/-- An event that is no growth keeps a book sound, and orders keep their numbers and traders. Only a post reserves. -/
theorem sound_of_event (event : BookEvent rt c posts False b b') (sound : Sound c.collateralBucket b) :
    Sound c.collateralBucket b' ∧ Heirs b b' ∧ ∀ p, ¬ posts p → b'.view.reserved p ≤ b.view.reserved p := by
  have stays : StaysSound c.collateralBucket b b' →
      Sound c.collateralBucket b' ∧ Heirs b b' ∧ ∀ p, ¬ posts p → b'.view.reserved p ≤ b.view.reserved p := by
    intro stays
    obtain ⟨sound', heirs, -, less⟩ := stays sound
    exact ⟨sound', heirs, fun p _ => less p⟩
  cases event with
  | prunedOwn ran => exact stays (bookStep_pruneOwnExpired sound ran).stays_single
  | @posted owner _ _ may admissible ran =>
    have cached : b.header.cachedMaxFeeBps = 0 := sound.unbuffered.1
    have step := bookStep_post sound admissible.isSide admissible.some_contracts admissible.reserved
      (by rw [admissible.buffered, cached, Nat.mul_zero, Nat.zero_div]) ran
    refine ⟨step.sound, step.heirs, fun p others => ?_⟩
    have apart : p ≠ owner := by
      rintro rfl
      exact others may
    have reserved := step.reserved p
    rw [Pi.single_eq_of_ne apart] at reserved
    omega
  | cancelled ran => exact stays (bookStep_cancelInBook sound ran).1.stays_single
  | pruned measured ran => exact stays (staysSound_pruneSlots measured ran)
  | matched left => exact stays (keeps_matchInBook _ _ _ _ _ b b' left)
  | substituted ran => exact stays (bookStep_substituteInBook sound ran).1.stays_pair
  | expanded grows _ => exact grows.elim

/-! ### From ledgers to books -/

section Ledgers

variable {inv : rt.Invocation} {s t v : Ledger} {k book instrument : Pubkey} {listed : Pubkey → InstrumentConfig → Prop}

/-- The book at this key, if it is the book of its instrument, goes through some events. -/
def EvolvesAt (rt : Runtime) (k : Pubkey) (listed : Pubkey → InstrumentConfig → Prop) (posts : Pubkey → Prop) (expands : Prop)
    (s t : Ledger) : Prop :=
  ∀ b, s.get k = ⟨rt.programId, .intentBook b⟩ → rt.address (.book b.header.instrument) = k →
    ∃ b', t.get k = ⟨rt.programId, .intentBook b'⟩ ∧ Evolves rt (listed b.header.instrument) posts expands b b'

theorem EvolvesAt.trans (first : EvolvesAt rt k listed posts expands s t) (next : EvolvesAt rt k listed posts expands t v) :
    EvolvesAt rt k listed posts expands s v := by
  intro b held here
  obtain ⟨b1, held1, evolves1⟩ := first b held here
  have same := evolves1.same.instrument
  obtain ⟨b2, held2, evolves2⟩ := next b1 held1 (by rw [same, here])
  rw [same] at evolves2
  exact ⟨b2, held2, evolves1.trans evolves2⟩

theorem evolvesAt_of_get_eq (same : t.get k = s.get k) : EvolvesAt rt k listed posts expands s t := fun b held _ =>
  ⟨b, same.trans held, .refl⟩

theorem evolvesAt_of_touches {old new : List AccountKind} (touches : Touches old new s t)
    (unwritten : AccountKind.intentBook ∉ old) : EvolvesAt rt k listed posts expands s t := fun b held _ =>
  ⟨b, kept_of_touches touches unwritten held, .refl⟩

theorem instrument_of_home {b : IntentBook} (home : rt.address (.book instrument) = book)
    (here : rt.address (.book b.header.instrument) = book) : b.header.instrument = instrument := by
  have addresses := here.trans home.symm
  simpa using rt.address_injective _ _ addresses

/-- The book of an instrument is written. -/
theorem evolvesAt_setData {b b' : IntentBook} (home : rt.address (.book instrument) = book)
    (found : s.data book = .intentBook b) (evolves : Evolves rt (listed instrument) posts expands b b') :
    EvolvesAt rt k listed posts expands s (s.setData book (.intentBook b')) := by
  intro b0 held here
  by_cases same : k = book
  · subst same
    rw [Ledger.data, held] at found
    cases found
    rw [instrument_of_home home here]
    exact ⟨b', by rw [Ledger.get_setData_self, Ledger.owner, held], evolves⟩
  · exact evolvesAt_of_get_eq (Ledger.get_setData_of_ne _ _ same) b0 held here

/-- A program on the book of an instrument. -/
theorem evolvesAt_atBook {α : Type} {m : BookM α} {a : α} (home : rt.address (.book instrument) = book)
    (ran : (atBook rt inv book m).run s = .ok a t)
    (event : ∀ b b', s.data book = .intentBook b → m.run b = .ok a b' → Evolves rt (listed instrument) posts expands b b') :
    EvolvesAt rt k listed posts expands s t := by
  obtain ⟨b, b', found, inner, rfl, -⟩ := atAccount_ok ran
  rw [AccountData.loadBook_ok] at found
  exact evolvesAt_setData home found (event b b' found inner)

/-- However a program on a book ends, the book is as the program left it. -/
theorem atBook_left {α : Type} {m : BookM α} (left : t ∈ ((atBook rt inv book m).run s).state?) :
    (t = s ∧ ∀ b, s.data book ≠ .intentBook b) ∨
      ∃ b b', s.data book = .intentBook b ∧ b' ∈ (m.run b).state? ∧ t = s.setData book (.intentBook b') := by
  cases ran : (atBook rt inv book m).run s with
  | ok a t' =>
    rw [ran] at left
    cases left
    obtain ⟨b, b', found, inner, rfl, -⟩ := atAccount_ok ran
    exact .inr ⟨b, b', AccountData.loadBook_ok.mp found, by rw [inner]; rfl, rfl⟩
  | err e t' =>
    rw [ran] at left
    cases left
    rcases atAccount_err ran with ⟨rfl, misread⟩ | ⟨b, b', found, inner, rfl, -⟩
    · refine .inl ⟨rfl, fun b found => ?_⟩
      rw [AccountData.loadBook_ok.mpr found] at misread
      cases misread
    · exact .inr ⟨b, b', AccountData.loadBook_ok.mp found, by rw [inner]; rfl, rfl⟩
  | abort => simp [ran] at left

/-! ### Posts, cancels and prunes -/

/-- The instrument that an instruction reads names its own book. -/
theorem home_of_load {inst : InstrumentConfig} (genuine : Genuine rt s) (owned : s.owner instrument = rt.programId)
    (found : s.data instrument = .instrumentConfig inst) (at_book : inst.intentBook = book) :
    rt.address (.book instrument) = book := by
  have listed := listed_of_load owned found
  rw [← (genuine.listed_ok listed).1]
  exact at_book

/-- A post leaves other books alone. -/
theorem evolvesAt_of_posting_ne {ctx : PostCtx} {args : PostIntentArgs} {id : ℕ} (posting : Posting rt inv s ctx args id t)
    (other : k ≠ ctx.book) : EvolvesAt rt k listed posts expands s t := by
  intro b held here
  refine evolvesAt_of_get_eq (posting.others k other ?_ ?_) b held here
  · rintro rfl
    have found := posting.margin_eq
    rw [Ledger.data, held] at found
    cases found
  · intro session
    have charged := posting.charged
    rw [session] at charged
    obtain ⟨x, x', found, -⟩ := charged
    rw [Ledger.data, held] at found
    cases found

theorem evolvesAt_postIntent {ctx : PostCtx} {args : PostIntentArgs} {id : ℕ} (genuine : Genuine rt s)
    (may : posts ctx.owner) (ran : (postIntent rt inv ctx args).run s = .ok id t) : EvolvesAt rt k (s.Listed rt) posts expands s t := by
  obtain ⟨posting⟩ := postIntent_ok ran
  intro b held here
  by_cases book : k = ctx.book
  · subst book
    have found := posting.book_eq
    rw [Ledger.data, held] at found
    cases found
    have home := home_of_load genuine (posting.owned _ (by simp)) posting.instrument_eq posting.book_of
    have instrument := instrument_of_home home here
    have known : s.Listed rt ctx.instrument posting.inst.listing :=
      listed_of_load (posting.owned _ (by simp)) posting.instrument_eq
    have pruned : StaysEvery (fun _ _ => True) posting.b posting.b1 := Exec.Keeping.keeps.ok posting.pruned
    rw [← instrument] at known
    refine ⟨posting.b2, posting.book_after, .tail (.single ⟨_, known, .prunedOwn posting.pruned⟩) ⟨_, known, ?_⟩⟩
    refine .posted may ⟨posting.isSide, posting.some_contracts, posting.priced, rfl, ?_⟩ posting.posted
    rw [pruned.cached]
    rfl
  · exact evolvesAt_of_posting_ne posting book b held here

theorem evolvesAt_cancelIntent {margin : Pubkey} {intentId : ℕ} {authorize : Pubkey → IntentNode → Except ProgramError Unit}
    (genuine : Genuine rt s) (owned : s.owner instrument = rt.programId)
    (ran : (cancelIntent rt inv instrument book margin intentId authorize).run s = .ok () t) :
    EvolvesAt rt k (s.Listed rt) posts expands s t := by
  simp only [cancelIntent, Exec.bind_check, exists_const, ne_eq, not_not] at ran
  obtain ⟨inst, found, at_book, ran⟩ := ran
  rw [Exec.bind_ok] at ran
  obtain ⟨refund, s1, cancelled, refunded⟩ := ran
  have first : EvolvesAt rt k (s.Listed rt) posts expands s s1 :=
    evolvesAt_atBook (home_of_load genuine owned found at_book) cancelled fun _ _ _ inner =>
      .single ⟨_, listed_of_load owned found, .cancelled inner⟩
  have rest : Touches [.marginAccount] [.marginAccount] s1 t := Within.keeps.ok refunded
  exact first.trans (evolvesAt_of_touches rest (by simp))

theorem evolvesAt_processCancelIntent {intentId : UInt64} (genuine : Genuine rt s)
    (ran : (processCancelIntent rt inv intentId).run s = .ok () t) : EvolvesAt rt k (s.Listed rt) posts expands s t := by
  unfold processCancelIntent at ran
  split at ran
  · simp only [Exec.bind_check, exists_const] at ran
    obtain ⟨-, -, -, owned, ran⟩ := ran
    exact evolvesAt_cancelIntent genuine (owned _ (by simp)) ran
  · cases ran

theorem evolvesAt_processCancelIntentDelegated {intentId : UInt64} (genuine : Genuine rt s)
    (ran : (processCancelIntentDelegated rt inv intentId).run s = .ok () t) :
    EvolvesAt rt k (s.Listed rt) posts expands s t := by
  unfold processCancelIntentDelegated at ran
  split at ran
  · simp only [Exec.bind_check, exists_const] at ran
    obtain ⟨-, -, -, -, -, owned, owner, -, ran⟩ := ran
    exact evolvesAt_cancelIntent genuine (owned _ (by simp)) ran
  · cases ran

/-- One intent of a prune: its margin account is refunded, then it is taken out. -/
theorem pruneAll_cons {mint : Pubkey} {entry : ℕ × IntentNode × Pubkey × ℕ} {work : List (ℕ × IntentNode × Pubkey × ℕ)}
    {margins : List Pubkey} {u : Unit} (ran : (pruneAll rt inv book mint (entry :: work) margins).run s = .ok u t) :
    ∃ s1 s2 rest, Touches [.marginAccount] [.marginAccount] s s1 ∧
      (atBook rt inv book (pruneSlot entry.1 entry.2.1.side)).run s1 = .ok () s2 ∧
      (pruneAll rt inv book mint work rest).run s2 = .ok u t := by
  rw [pruneAll, Exec.bind_check] at ran
  obtain ⟨⟨margin, rest⟩, -, ran⟩ := ran
  simp only [Exec.bind_ok] at ran
  obtain ⟨_, s1, refunded, _, s2, pruned, ran⟩ := ran
  exact ⟨s1, s2, rest, Within.keeps.ok refunded, pruned, ran⟩

/-- A prune takes its intents out of the book, and leaves other books alone. -/
theorem pruneAll_ok {mint o : Pubkey} {work : List (ℕ × IntentNode × Pubkey × ℕ)} {margins : List Pubkey} {u : Unit}
    {b c : IntentBook} (ran : (pruneAll rt inv book mint work margins).run s = .ok u t) (at_book : s.data book = .intentBook b)
    (held : s.get k = ⟨o, .intentBook c⟩) :
    ∃ b', (pruneSlots work).run b = .ok () b' ∧ t.get k = if k = book then ⟨o, .intentBook b'⟩ else ⟨o, .intentBook c⟩ := by
  induction work generalizing s margins b c with
  | nil =>
    obtain ⟨-, rfl⟩ := Exec.pure_ok.mp ran
    refine ⟨b, rfl, ?_⟩
    split
    next here =>
      subst here
      rw [Ledger.data, held] at at_book
      cases at_book
      exact held
    · exact held
  | cons entry work ih =>
    obtain ⟨s1, s2, rest, refunded, pruned, ran⟩ := pruneAll_cons ran
    have held1 := kept_of_touches refunded (by simp) held
    obtain ⟨b0, b1, found, inner, rfl, -⟩ := atAccount_ok pruned
    rw [AccountData.loadBook_ok] at found
    have same : s1.get book = s.get book := refunded.get_eq' (by rw [found]; simp)
    rw [Ledger.data, same] at found
    cases at_book.symm.trans found
    obtain ⟨b', slots, after⟩ : ∃ b', (pruneSlots work).run b1 = .ok () b' ∧
        t.get k = if k = book then ⟨o, .intentBook b'⟩ else ⟨o, .intentBook c⟩ := by
      by_cases here : k = book
      · subst here
        rw [same, held] at held1
        have held2 : (s1.setData k (.intentBook b1)).get k = ⟨o, .intentBook b1⟩ := by
          rw [Ledger.get_setData_self, Ledger.owner, same, held]
        obtain ⟨b', slots, after⟩ := ih ran (Ledger.data_setData_self _ _) held2
        refine ⟨b', slots, ?_⟩
        rwa [if_pos rfl] at after ⊢
      · exact ih ran (Ledger.data_setData_self _ _) (by rw [Ledger.get_setData_of_ne _ _ here, held1])
    refine ⟨b', ?_, after⟩
    change (pruneSlot entry.1 entry.2.1.side >>= fun _ => pruneSlots work).run b = _
    rw [Exec.run_bind_of_ok inner, slots]

theorem evolvesAt_processPruneExpired (genuine : Genuine rt s) (ran : (processPruneExpired rt inv).run s = .ok () t) :
    EvolvesAt rt k (s.Listed rt) posts expands s t := by
  unfold processPruneExpired at ran
  split at ran
  next caller instrument book margins _ =>
    simp only [Exec.bind_check, exists_const, ne_eq, not_not] at ran
    obtain ⟨-, -, owned, inst, found, at_book, b, found_book, work, scanned, ran⟩ := ran
    intro c held here
    obtain ⟨b', slots, after⟩ := pruneAll_ok ran found_book held
    by_cases same : k = book
    · subst same
      rw [Ledger.data, held] at found_book
      cases found_book
      rw [if_pos rfl] at after
      have known : s.Listed rt instrument inst.listing := listed_of_load (owned _ (by simp)) found
      rw [← instrument_of_home (home_of_load genuine (owned _ (by simp)) found at_book) here] at known
      exact ⟨b', after, .single ⟨_, known, .pruned (measured_of_scan scanned) slots⟩⟩
    · rw [if_neg same] at after
      exact ⟨c, after, .refl⟩
  · cases ran

theorem evolvesAt_processClaimReentry {args : ClaimReentryArgs} (genuine : Genuine rt s)
    (may : ∀ p, inv.isSigner p = true → posts p) (ran : (processClaimReentry rt inv args).run s = .ok () t) :
    EvolvesAt rt k (s.Listed rt) posts expands s t := by
  have cleared : ∀ {pmlc side u v w}, (clearReentry rt inv pmlc side).run v = .ok u w →
      EvolvesAt rt k (s.Listed rt) posts expands v w := by
    intro pmlc side u v w ran
    have touches : Touches [.pmlc] [.pmlc] v w := Within.keeps.ok ran
    exact evolvesAt_of_touches touches (by simp)
  unfold processClaimReentry at ran
  split at ran
  next owner config pmlc instrument book margin rest _ =>
    simp only [Exec.bind_check, exists_const, ne_eq, not_not] at ran
    obtain ⟨signed, -, -, -, owned, -, -, side, p, -, -, -, -, -, inst, found, -, -, at_book, priced, -, _, -, m, -, -, -,
      ran⟩ := ran
    split at ran
    · exact cleared ran
    · simp only [Exec.bind_check] at ran
      obtain ⟨b, found_book, contracts, -, ran⟩ := ran
      split at ran
      · exact cleared ran
      next some_contracts =>
        simp only [reenter, Exec.bind_check] at ran
        obtain ⟨⟨reservedCollateral, feeBuffer, totalReserve⟩, reserves, ran⟩ := ran
        simp only [Exec.bind_ok] at ran
        obtain ⟨_, s1, reserved, id, s2, posted, ran⟩ := ran
        have first : Touches [.marginAccount] [.marginAccount] s s1 := Within.keeps.ok reserved
        have isSide : IsSide args.side.toNat := by
          by_contra neither
          exact side ⟨fun long => neither (.inl long), fun short => neither (.inr short)⟩
        obtain ⟨backed, buffered, -⟩ := reserveFor_ok reserves
        have known : s.Listed rt instrument inst.listing := listed_of_load (owned _ (by simp)) found
        have home := home_of_load genuine (owned _ (by simp)) found at_book
        have second : EvolvesAt rt k (s.Listed rt) posts expands s1 s2 := by
          refine evolvesAt_atBook home posted fun c c' reread inner => .single ⟨_, known, .posted (may _ signed) ?_ inner⟩
          have same : s1.get book = s.get book := first.get_eq' (by rw [reread]; simp)
          rw [Ledger.data, same] at reread
          cases found_book.symm.trans reread
          exact ⟨isSide, some_contracts, priced, backed, feeBufferFor_ok buffered⟩
        exact (evolvesAt_of_touches first (by simp)).trans (second.trans (cleared ran))
  · cases ran

/-! ### Fills -/

/-- However a match ends, what follows its book part leaves books alone. -/
theorem evolvesAt_matchPairCore {ctx : MatchCtx} {longId shortId : ℕ}
    (terms : ∀ inst, s.data ctx.instrument = .instrumentConfig inst → inst.intentBook = ctx.book →
      rt.address (.book ctx.instrument) = ctx.book ∧ listed ctx.instrument inst.listing)
    (left : t ∈ ((matchPairCore rt inv ctx longId shortId).run s).state?) : EvolvesAt rt k listed posts expands s t := by
  rw [matchPairCore] at left
  rcases Exec.left_bind_check left with rfl | ⟨inst, found, left⟩
  · exact evolvesAt_of_get_eq rfl
  rcases Exec.left_bind_check left with rfl | ⟨_, -, left⟩
  · exact evolvesAt_of_get_eq rfl
  rcases Exec.left_bind_check left with rfl | ⟨_, at_book, left⟩
  · exact evolvesAt_of_get_eq rfl
  rw [not_not] at at_book
  obtain ⟨home, known⟩ := terms inst found at_book
  obtain ⟨s1, matched, rest⟩ : ∃ s1, s1 ∈ ((atBook rt inv ctx.book (matchInBook rt ctx.instrument ctx.pmlc
      inst.collateralBucket longId shortId inv.slot)).run s).state? ∧
      Touches [.marginAccount, .userVolume, .feeTreasury, .raw] [.marginAccount, .userVolume, .feeTreasury, .raw, .pmlc] s1 t := by
    refine left_bind_within (fun _ => ?_) left
    repeat with_reducible refine within_bind inferInstance fun _ => ?_
    infer_instance
  refine EvolvesAt.trans ?_ (evolvesAt_of_touches rest (by simp))
  rcases atBook_left matched with ⟨rfl, -⟩ | ⟨b, b', found_book, inner, rfl⟩
  · exact evolvesAt_of_get_eq rfl
  · exact evolvesAt_setData home found_book (.single ⟨_, known, .matched inner⟩)

/-- Looking at a book leaves the ledger as it is. -/
theorem get_of_look {α : Type} {m : BookM α} {a : α} (looks : Exec.Keeps Eq m) (ran : (atBook rt inv book m).run s = .ok a t)
    (j : Pubkey) : t.get j = s.get j := by
  obtain ⟨b, b', found, inner, rfl, -⟩ := atAccount_ok ran
  obtain rfl := looks.ok inner
  rw [AccountData.loadBook_ok] at found
  rw [← found]
  exact get_setData_data s book j

theorem evolvesAt_inlineMatch {ctx : PostCtx} {args : PostIntentArgs} {id : ℕ} {u : Unit}
    (terms : ∀ inst, s.data ctx.instrument = .instrumentConfig inst → inst.intentBook = ctx.book →
      rt.address (.book ctx.instrument) = ctx.book ∧ listed ctx.instrument inst.listing)
    (ran : (inlineMatch rt inv ctx args id).run s = .ok u t) : EvolvesAt rt k listed posts expands s t := by
  unfold inlineMatch at ran
  split at ran
  next counterpartyMargin pmlc system sched takerVolume makerVolume treasury rest _ =>
    rw [Exec.bind_ok] at ran
    obtain ⟨counterparty, s1, looked, ran⟩ := ran
    have same := get_of_look (keeps_findOverlapOnSide _ _ _ _) looked
    refine (evolvesAt_of_get_eq (same k)).trans ?_
    split at ran
    next other =>
      simp only [Exec.bind_ok, Exec.pure_ok] at ran
      obtain ⟨caught, s2, swallowed, -, rfl⟩ := ran
      have left : s2 ∈ ((inlineMatchPair rt inv (inlineMatchCtx ctx args counterpartyMargin pmlc sched takerVolume
          makerVolume treasury) args id other).run s1).state? := by
        rcases Exec.swallow_ok.mp swallowed with ⟨-, matched⟩ | ⟨e, -, failed⟩
        · rw [matched]
          rfl
        · rw [failed]
          rfl
      have terms1 : ∀ inst, s1.data ctx.instrument = .instrumentConfig inst → inst.intentBook = ctx.book →
          rt.address (.book ctx.instrument) = ctx.book ∧ listed ctx.instrument inst.listing := by
        intro inst found
        rw [Ledger.data, same] at found
        exact terms inst found
      unfold inlineMatchPair at left
      split at left
      · exact evolvesAt_matchPairCore terms1 left
      · exact evolvesAt_matchPairCore terms1 left
    · obtain ⟨-, rfl⟩ := Exec.pure_ok.mp ran
      exact evolvesAt_of_get_eq rfl
  · obtain ⟨-, rfl⟩ := Exec.pure_ok.mp ran
    exact evolvesAt_of_get_eq rfl

/-- The instrument that an instruction loads names its book. -/
theorem terms_of_owned (genuine : Genuine rt s) (owned : s.owner instrument = rt.programId) :
    ∀ inst, s.data instrument = .instrumentConfig inst → inst.intentBook = book →
      rt.address (.book instrument) = book ∧ s.Listed rt instrument inst.listing :=
  fun _ found at_book => ⟨home_of_load genuine owned found at_book, listed_of_load owned found⟩

/-- What follows a post. -/
theorem evolvesAt_tried {ctx : PostCtx} {args : PostIntentArgs} {id : ℕ} {u : Unit} (genuine : Genuine rt s)
    (posted : (postIntent rt inv ctx args).run s = .ok id v)
    (tried : (Exec.when (args.tryMatch ≠ 0) (inlineMatch rt inv ctx args id)).run v = .ok u t) :
    EvolvesAt rt k (s.Listed rt) posts expands v t := by
  rcases Exec.when_ok.mp tried with ⟨-, matched⟩ | ⟨-, rfl⟩
  · refine evolvesAt_inlineMatch (fun inst found => ?_) matched
    obtain ⟨posting⟩ := postIntent_ok posted
    have within : Within [.intentBook, .marginAccount, .session] [.intentBook, .marginAccount, .session]
        (postIntent rt inv ctx args) := within_postIntent ctx args fun _ => by simp
    have touches := within.keeps.ok posted
    apply terms_of_owned genuine (posting.owned _ (by simp))
    rw [← found]
    exact congrArg Account.data (touches.get_eq' (k := ctx.instrument) (by rw [found]; simp)).symm
  · exact evolvesAt_of_get_eq rfl

theorem evolvesAt_doPostIntentInner {ctx : PostCtx} {args : PostIntentArgs} {u : Unit} (genuine : Genuine rt s)
    (may : posts ctx.owner) (ran : (doPostIntentInner rt inv ctx args).run s = .ok u t) : EvolvesAt rt k (s.Listed rt) posts expands s t := by
  rw [doPostIntentInner, Exec.bind_ok] at ran
  obtain ⟨id, mid, posted, tried⟩ := ran
  exact (evolvesAt_postIntent genuine may posted).trans (evolvesAt_tried genuine posted tried)

theorem evolvesAt_processMatchPair {args : MatchPairArgs} (genuine : Genuine rt s)
    (ran : (processMatchPair rt inv args).run s = .ok () t) : EvolvesAt rt k (s.Listed rt) posts expands s t := by
  rw [processMatchPair, Exec.bind_ok] at ran
  obtain ⟨ctx, _, unpacked, ran⟩ := ran
  obtain ⟨rfl, instrument, -⟩ := unpackMatchAccounts_ok unpacked
  exact evolvesAt_matchPairCore (terms_of_owned genuine instrument) (by rw [ran]; rfl)

theorem evolvesAt_processMatchBestAvailable (genuine : Genuine rt s)
    (ran : (processMatchBestAvailable rt inv).run s = .ok () t) : EvolvesAt rt k (s.Listed rt) posts expands s t := by
  simp only [processMatchBestAvailable, Exec.bind_ok, Exec.orErr_ok] at ran
  obtain ⟨ctx, _, unpacked, pair, mid, scanned, ⟨longId, shortId⟩, _, ⟨-, rfl⟩, ran⟩ := ran
  obtain ⟨rfl, instrument, -⟩ := unpackMatchAccounts_ok unpacked
  have same := get_of_look (keeps_scanForFirstValidPair _) scanned
  refine (evolvesAt_of_get_eq (same k)).trans ?_
  refine evolvesAt_matchPairCore (fun inst found => ?_) (by rw [ran]; rfl)
  rw [Ledger.data, same] at found
  exact terms_of_owned genuine instrument inst found

/-- A substitution works on the book of its instrument, and what follows leaves books alone. -/
theorem substituteInBook_of_ok {args : MatchPairArgs} {withSettle : Bool} (ran : (doSubstitute rt inv args withSettle).run s = .ok () t) :
    ∃ substitutor instrument book more inst p c mid, inv.accounts = substitutor :: instrument :: book :: more ∧
      s.owner instrument = rt.programId ∧ s.data instrument = .instrumentConfig inst ∧ inst.requireActive = .ok () ∧
      inst.intentBook = book ∧
      (atBook rt inv book (substituteInBook substitutor p inst.collateralBucket args.longIntentId.toNat
        args.shortIntentId.toNat inv.slot)).run s = .ok c mid ∧
      Touches [.marginAccount, .pmlc] [.marginAccount, .pmlc] mid t := by
  unfold doSubstitute at ran
  split at ran
  next substitutor instrument book pmlc substitutorMargin counterpartyMargin _ accounts =>
    simp only [Exec.bind_check, exists_const, ne_eq, not_not] at ran
    obtain ⟨-, -, -, -, -, owned, inst, found, active, at_book, p, -, -, -, -, ran⟩ := ran
    rw [Exec.bind_ok] at ran
    obtain ⟨c, mid, substituted, ran⟩ := ran
    refine ⟨_, instrument, book, _, inst, p, c, mid, accounts, owned _ (by simp), found, active, at_book, substituted, ?_⟩
    refine (?_ : Within [.marginAccount, .pmlc] [.marginAccount, .pmlc] _).keeps.ok ran
    repeat with_reducible refine within_bind inferInstance fun _ => ?_
    infer_instance
  · cases ran

theorem evolvesAt_doSubstitute {args : MatchPairArgs} {withSettle : Bool} (genuine : Genuine rt s)
    (ran : (doSubstitute rt inv args withSettle).run s = .ok () t) : EvolvesAt rt k (s.Listed rt) posts expands s t := by
  obtain ⟨_, instrument, book, _, inst, p, c, mid, -, owned, found, -, at_book, substituted, rest⟩ := substituteInBook_of_ok ran
  obtain ⟨home, known⟩ := terms_of_owned genuine owned inst found at_book
  have first : EvolvesAt rt k (s.Listed rt) posts expands s mid :=
    evolvesAt_atBook home substituted fun _ _ _ inner => .single ⟨_, known, .substituted inner⟩
  exact first.trans (evolvesAt_of_touches rest (by simp))

/-! ### Every instruction -/

theorem evolvesAt_processExpandIntentBook {additionalNodes : UInt32} (genuine : Genuine rt s)
    (ran : (processExpandIntentBook rt inv additionalNodes).run s = .ok () t) :
    EvolvesAt rt k (s.Listed rt) posts (inv.accounts[3]? = some k) s t := by
  simp only [processExpandIntentBook, Exec.bind_check, exists_const] at ran
  obtain ⟨-, ran⟩ := ran
  split at ran
  next payer config instrument book system rest accounts =>
    simp only [Exec.bind_check, exists_const, ne_eq, not_not] at ran
    obtain ⟨-, -, -, owned, -, inst, found, at_book, -, -, ran⟩ := ran
    have home := home_of_load genuine (owned _ (by simp)) found at_book
    by_cases same : k = book
    · subst same
      have known : s.Listed rt instrument inst.listing := listed_of_load (owned _ (by simp)) found
      exact evolvesAt_atBook home ran fun _ _ _ inner => .single ⟨_, known, .expanded (by rw [accounts]; rfl) inner⟩
    · obtain ⟨b, b', -, -, rfl, -⟩ := atAccount_ok ran
      exact evolvesAt_of_get_eq (Ledger.get_setData_of_ne _ _ same)
  · cases ran

/-- The call grows this book. -/
def Call.Expands (c : Call rt) (book : Pubkey) : Prop :=
  ∃ additionalNodes, c.instruction = .expandIntentBook additionalNodes ∧ c.inv.accounts[3]? = some book

/-- The call is signed by the owner, or by the delegate of its active session. -/
def Call.ActsFor (c : Call rt) (s : Ledger) (owner : Pubkey) : Prop :=
  c.inv.isSigner owner = true ∨
    ∃ x, s.get (rt.address (.session owner)) = ⟨rt.programId, .session x⟩ ∧ x.isActive c.inv.slot = true ∧
      c.inv.isSigner x.delegate = true

/-- The delegate of a session acts for its owner. -/
theorem Call.actsFor_of_unpack {c : Call rt} {ctx : PostCtx} (unpacked : (unpackPostIntentDelegated rt c.inv).run s = .ok ctx t) :
    c.ActsFor s ctx.owner := by
  obtain ⟨-, session, delegate, x, -, signed, owned, held, delegate_eq, active, -, address, same⟩ :=
    unpackPostIntentDelegated_ok unpacked
  refine .inr ⟨x, ?_, active, delegate_eq ▸ signed⟩
  rw [← same, address]
  exact get_eq_of_data owned held

/-- What a call that returns makes of a book. -/
theorem evolvesAt_process {c : Call rt} (genuine : Genuine rt s) (ran : (process rt c.inv c.instruction).run s = .ok () t) :
    EvolvesAt rt k (s.Listed rt) (c.ActsFor s) (c.Expands k) s t := by
  obtain ⟨inv, instr⟩ := c
  cases instr with
  | postIntent args =>
    rw [process, processPostIntent, Exec.bind_ok] at ran
    obtain ⟨ctx, _, unpacked, ran⟩ := ran
    obtain ⟨rfl, signed, -⟩ := unpackPostIntent_ok unpacked
    exact evolvesAt_doPostIntentInner genuine (.inl signed) ran
  | postIntentDelegated args =>
    rw [process, processPostIntentDelegated, Exec.bind_ok] at ran
    obtain ⟨ctx, _, unpacked, ran⟩ := ran
    have acts := Call.actsFor_of_unpack (c := ⟨inv, .postIntentDelegated args⟩) unpacked
    obtain ⟨rfl, -⟩ := unpackPostIntentDelegated_ok unpacked
    exact evolvesAt_doPostIntentInner genuine acts ran
  | matchPair args => exact evolvesAt_processMatchPair genuine ran
  | matchBestAvailable => exact evolvesAt_processMatchBestAvailable genuine ran
  | matchSubstitute args => exact evolvesAt_doSubstitute genuine ran
  | matchSubstituteWithSettle args => exact evolvesAt_doSubstitute genuine ran
  | cancelIntent _ => exact evolvesAt_processCancelIntent genuine ran
  | cancelIntentDelegated _ => exact evolvesAt_processCancelIntentDelegated genuine ran
  | pruneExpired => exact evolvesAt_processPruneExpired genuine ran
  | claimReentry _ => exact evolvesAt_processClaimReentry genuine (fun _ => .inl) ran
  | expandIntentBook n =>
    intro b held here
    obtain ⟨b', held', evolves⟩ := evolvesAt_processExpandIntentBook genuine ran b held here
    exact ⟨b', held', evolves.weaken (fun _ => id) fun at_book => ⟨n, rfl, at_book⟩⟩
  | _ =>
    refine evolvesAt_of_touches ((within_process rt inv _).keeps.ok ran) ?_
    simp [Instruction.writes]

/-! ### Invariants -/

/-- A property of books, on the terms that are listed for them, which fresh books have and events keep. -/
structure BookInvariant (rt : Runtime) (posts : Pubkey → Prop) (expands : Prop)
    (I : (InstrumentConfig → Prop) → IntentBook → Prop) : Prop where
  fresh : ∀ terms instrument capacity bump, I terms (IntentBook.initIntentBook instrument capacity bump 0)
  wider : ∀ {terms terms' : InstrumentConfig → Prop} {b}, (∀ c, terms c → terms' c) → I terms b → I terms' b
  event : ∀ {terms : InstrumentConfig → Prop} {c b b'}, terms c → (∀ c', terms c' → c' = c) → BookEvent rt c posts expands b b' →
    I terms b → I terms b'

/-- If there is a book at this key, then it is the book of its instrument, and has the property. -/
def BookAt (rt : Runtime) (I : (InstrumentConfig → Prop) → IntentBook → Prop) (k : Pubkey) (s : Ledger) : Prop :=
  ∀ b, s.get k = ⟨rt.programId, .intentBook b⟩ → rt.address (.book b.header.instrument) = k ∧ I (s.Listed rt b.header.instrument) b

variable {I : (InstrumentConfig → Prop) → IntentBook → Prop}

theorem BookInvariant.evolves (invariant : BookInvariant rt posts expands I) {terms : InstrumentConfig → Prop} {b b' : IntentBook}
    (unique : ∀ c c', terms c → terms c' → c = c') (holds : I terms b) (evolves : Evolves rt terms posts expands b b') :
    I terms b' := by
  induction evolves with
  | refl => exact holds
  | tail _ event ih =>
    obtain ⟨c, known, event⟩ := event
    exact invariant.event known (fun c' known' => unique c' c known' known) event ih

/-- What instructions make of the book at a key keeps the property. -/
theorem BookInvariant.evolvesAt (invariant : BookInvariant rt posts expands I) (before : BookAt rt I k s)
    (old : ∀ b', t.get k = ⟨rt.programId, .intentBook b'⟩ → ∃ b, s.get k = ⟨rt.programId, .intentBook b⟩)
    (fixed : ∀ i c, s.Listed rt i c → t.Listed rt i c) (evolves : EvolvesAt rt k (s.Listed rt) posts expands s t) :
    BookAt rt I k t := by
  intro b' held'
  obtain ⟨b, held⟩ := old b' held'
  obtain ⟨home, holds⟩ := before b held
  obtain ⟨b1, held1, evolved⟩ := evolves b held home
  cases held1.symm.trans held'
  have instrument := evolved.same.instrument
  rw [instrument]
  refine ⟨home, invariant.wider (fixed _) (invariant.evolves (fun _ _ known known' => known.unique known') holds evolved)⟩

/-- A call that returns keeps the property of the book at a key. -/
theorem BookInvariant.process {c : Call rt} (invariant : BookInvariant rt posts expands I) (genuine : Genuine rt s)
    (before : BookAt rt I k s) (ran : (Polyleverage.process rt c.inv c.instruction).run s = .ok () t)
    (may : ∀ p, c.ActsFor s p → posts p) (plain : c.Expands k → expands) : BookAt rt I k t := by
  have fixed : ∀ i x, s.Listed rt i x → t.Listed rt i x := fun i x => (upkeep_process genuine ran).fixed i _
  have evolves : EvolvesAt rt k (s.Listed rt) posts expands s t := by
    intro b held home
    obtain ⟨b', held', evolved⟩ := evolvesAt_process genuine ran b held home
    exact ⟨b', held', evolved.weaken may plain⟩
  cases created : c.instruction.creates with
  | false =>
    refine invariant.evolvesAt before (fun b' held' => ?_) fixed evolves
    obtain ⟨b, held, -⟩ := (shelves_of_process created ran).back held'
    exact ⟨b, held⟩
  | true =>
    obtain ⟨inv, instr⟩ := c
    cases instr with
    | createInstrument args =>
      intro b' held'
      rcases books_of_createInstrument ran held' with held | ⟨instrument, capacity, bump, rfl, -, rfl⟩
      · obtain ⟨home, holds⟩ := before b' held
        exact ⟨home, invariant.wider (fixed _) holds⟩
      · exact ⟨rfl, invariant.fresh _ _ _ _⟩
    | _ => cases created

theorem bookAt_genesis (gen : Genesis rt s) : BookAt rt I k s :=
  fun _ held => absurd (congrArg Account.owner held) (gen.not_owned k)

/-- What all events keep holds of all books that are reached. -/
theorem BookInvariant.reachable {allowed : Instruction → Prop} (invariant : BookInvariant rt (fun _ => True) True I)
    (reached : Reachable rt allowed s) (k : Pubkey) : BookAt rt I k s := by
  have both : Genuine rt s ∧ ∀ k, BookAt rt I k s := by
    refine reached.induct (P := fun s => Genuine rt s ∧ ∀ k, BookAt rt I k s)
      (fun _ gen => ⟨genuine_genesis gen, fun _ => bookAt_genesis gen⟩) ?_
    rintro s t inv instr ⟨genuine, all⟩ - ran
    refine ⟨(upkeep_process genuine ran).genuine, fun k => ?_⟩
    exact invariant.process (c := ⟨inv, instr⟩) genuine (all k) ran (fun _ _ => trivial) fun _ => trivial
  exact both.2 k

/-- What all events but growth keep holds of a book in every run that never grows it. -/
theorem BookInvariant.run (invariant : BookInvariant rt (fun _ => True) False I) (gen : Genesis rt s) (calls : List (Call rt))
    (plain : ∀ past c, past ++ [c] <+: calls → c.returns (runCalls rt past s) = true → ¬ c.Expands book) :
    BookAt rt I book (runCalls rt calls s) := by
  induction calls using List.reverseRecOn with
  | nil => exact bookAt_genesis gen
  | append_singleton past c ih =>
    have before := ih fun past' c' reached => plain past' c' (reached.trans (List.prefix_append past [c]))
    rw [runCalls_concat]
    cases returns : c.returns (runCalls rt past s) with
    | false => rwa [execute_of_not_returns returns]
    | true =>
      have reached : Reachable rt (fun _ => True) (runCalls rt past s) := .runCalls (fun _ _ => trivial) (.genesis gen)
      exact invariant.process (genuine_of_reachable reached) before (c.ran returns) (fun _ _ => trivial)
        (plain past c List.prefix_rfl returns)

end Ledgers

end Polyleverage

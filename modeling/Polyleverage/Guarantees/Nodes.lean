import Polyleverage.Guarantees.Amortisation
import Polyleverage.Guarantees.Sizes

/-! # Well-formed intents

An intent is posted on a side, at a price on the tick grid of its instrument, and with collateral for each
of its contracts. As long as its book is not grown, it is taken out with its last contract. So the pairs
that are found can always be filled.
-/

namespace Polyleverage

open Machine

/-- An intent on a side, at a price of its instrument, with no more contracts left than it had. -/
structure IntentNode.Proper (c : InstrumentConfig) (node : IntentNode) : Prop where
  isSide : IsSide node.side
  positive : 0 < node.priceFp
  below_one : node.priceFp < PRICE_ONE
  on_tick : c.tickFp ∣ node.priceFp
  left_le : node.contractsRemaining ≤ node.contractsTotal

/-- Such an intent with some contracts left, and the collateral of each of them. -/
structure IntentNode.WellFormed (c : InstrumentConfig) (node : IntentNode) : Prop extends node.Proper c where
  some_left : 1 ≤ node.contractsRemaining
  reserved : node.reservedCollateral = node.contractsRemaining * c.collateralBucket

/-- None of the guards in the arithmetic of a fill fires: the counters can be taken down, the buffers can be
shared out, and the entry is not zero. -/
structure Book.Pair.Fillable (bucket : ℕ) (p : Book.Pair) : Prop where
  consumes : ∃ filled, Book.consume bucket p = .ok filled
  divides : ∀ notional, positionSizeFp notional (priceMidpoint p.long.priceFp p.short.priceFp) ≠
    .error PolyleverageError.divisionByZero

/-- When these two intents are filled on the terms of this instrument, no pair is found, or one that can be
filled. -/
def FillsFreely (rt : Runtime) (s : Ledger) (instrument book : Pubkey) (longId shortId nowSlot : ℕ) : Prop :=
  ∀ inst b p, s.get instrument = ⟨rt.programId, .instrumentConfig inst⟩ → s.get book = ⟨rt.programId, .intentBook b⟩ →
    inst.intentBook = book → Book.findPair longId shortId nowSlot b = .ok p → p.Fillable inst.collateralBucket

/-! ### Prices and sides -/

section Proper

variable {terms : InstrumentConfig → Prop}

instance : Unlinked fun _ node => ∃ c, terms c ∧ node.Proper c where
  iff _ node l := by
    constructor
    · rintro ⟨c, known, proper⟩
      exact ⟨c, known, proper.isSide, proper.positive, proper.below_one, proper.on_tick, proper.left_le⟩
    · rintro ⟨c, known, proper⟩
      exact ⟨c, known, proper.isSide, proper.positive, proper.below_one, proper.on_tick, proper.left_le⟩

instance : Enduring fun _ node => ∃ c, terms c ∧ node.Proper c where
  fill := by
    rintro _ node bucket release ⟨c, known, proper⟩
    exact ⟨c, known, proper.isSide, proper.positive, proper.below_one, proper.on_tick,
      (Nat.sub_le _ _).trans proper.left_le⟩

end Proper

/-- A fresh book has no intents. -/
theorem every_init (P : Pubkey → IntentNode → Prop) (instrument : Pubkey) (capacity bump cachedMaxFeeBps : ℕ) :
    Every P (IntentBook.initIntentBook instrument capacity bump cachedMaxFeeBps) := by
  intro i node slot
  simp [IntentBook.initIntentBook, List.getElem?_replicate] at slot

/-- An admissible draft is posted as a proper intent. -/
theorem Book.Admissible.proper {c : InstrumentConfig} {b : IntentBook} {d : Book.Draft} (admissible : Book.Admissible c b d)
    (id seq seat : ℕ) : (d.node id seq seat).Proper c := by
  obtain ⟨positive, below_one, -, aligned⟩ := validatePriceTicked_ok.mp admissible.priced
  exact ⟨admissible.isSide, positive, below_one, Nat.dvd_of_mod_eq_zero aligned, le_refl _⟩

/-- In every book all intents are proper, on the terms that are listed for it. -/
theorem bookInvariant_proper (rt : Runtime) : BookInvariant rt (fun _ => True) True fun terms b => Every (fun _ node => ∃ c, terms c ∧ node.Proper c) b where
  fresh _ _ _ _ := every_init _ _ _ _ _
  wider le all i node slot := by
    obtain ⟨c, known, proper⟩ := all i node slot
    exact ⟨c, le c known, proper⟩
  event known _ event :=
    (staysEvery_of_event event fun _ id seq seat admissible => ⟨_, known, admissible.proper id seq seat⟩).every

/-! ### Collateral -/

/-- A book that is sound on the terms that are listed for it, if it has any intents. -/
structure Founded (terms : InstrumentConfig → Prop) (b : IntentBook) : Prop where
  consistent : Consistent b
  unbuffered : b.view.Unbuffered
  backed : Every (fun _ node => ∃ c, terms c ∧ node.contractsRemaining ≠ 0 ∧
    node.reservedCollateral = node.contractsRemaining * c.collateralBucket) b

theorem Founded.sound {terms : InstrumentConfig → Prop} {c : InstrumentConfig} {b : IntentBook} (founded : Founded terms b)
    (unique : ∀ c', terms c' → c' = c) : Sound c.collateralBucket b where
  consistent := founded.consistent
  unbuffered := founded.unbuffered
  backed i o placed := by
    obtain ⟨node, slot, rfl⟩ := IntentBook.intent_of_order placed
    obtain ⟨c', known, some_left, reserved⟩ := founded.backed i node slot
    obtain rfl := unique c' known
    exact ⟨some_left, reserved⟩

theorem founded_of_sound {terms : InstrumentConfig → Prop} {c : InstrumentConfig} {b : IntentBook} (known : terms c)
    (sound : Sound c.collateralBucket b) : Founded terms b where
  consistent := sound.consistent
  unbuffered := sound.unbuffered
  backed _ _ slot := ⟨c, known, sound.backed_of_intent slot⟩

/-- A book that is not grown stays sound. -/
theorem bookInvariant_founded (rt : Runtime) {posts : Pubkey → Prop} : BookInvariant rt posts False Founded where
  fresh terms instrument capacity bump := by
    have sound : Sound 0 (IntentBook.initIntentBook instrument capacity bump 0) := sound_init instrument capacity bump
    exact ⟨sound.consistent, sound.unbuffered, every_init _ _ _ _ _⟩
  wider le founded := by
    refine ⟨founded.consistent, founded.unbuffered, fun i node slot => ?_⟩
    obtain ⟨c, known, backed⟩ := founded.backed i node slot
    exact ⟨c, le c known, backed⟩
  event known unique event founded := founded_of_sound known (sound_of_event event (founded.sound unique)).1

/-! ### Fills -/

/-- A size is only undefined at an entry of zero. -/
theorem positionSizeFp_ne_divisionByZero {notional entryFp : ℕ} (positive : entryFp ≠ 0) :
    positionSizeFp notional entryFp ≠ .error PolyleverageError.divisionByZero := by
  rw [positionSizeFp, if_neg positive]
  generalize (checkedMul 128 notional PRICE_ONE).map (· / entryFp) = size
  cases size with
  | none =>
    intro same
    cases same
  | some size =>
    intro same
    cases same

/-- In a sound book with proper prices every pair that is found can be filled. -/
theorem Sound.fillable {c : InstrumentConfig} {b : IntentBook} (sound : Sound c.collateralBucket b)
    (proper : ∀ (i : ℕ) node, b.nodes[i]? = some (.intent node) → node.Proper c) {longId shortId nowSlot : ℕ} {p : Book.Pair}
    (found : Book.findPair longId shortId nowSlot b = .ok p) : p.Fillable c.collateralBucket := by
  obtain ⟨slots, -, -⟩ := (Book.findPair_ok sound.consistent).mp found
  constructor
  · obtain ⟨longLeft, longReserved⟩ := sound.backed_of_intent slots.long
    obtain ⟨shortLeft, shortReserved⟩ := sound.backed_of_intent slots.short
    have longSmall := sound.buffer_of_intent slots.long
    have shortSmall := sound.buffer_of_intent slots.short
    obtain ⟨longRelease, shortRelease, consumed⟩ := Book.exists_consume ⟨longLeft, shortLeft⟩ ⟨longReserved, shortReserved⟩
      (by omega) (by omega)
    exact ⟨_, consumed⟩
  · intro notional failed
    have positive : 0 < priceMidpoint p.long.priceFp p.short.priceFp :=
      Nat.lt_of_lt_of_le (proper _ _ slots.short).positive (priceMidpoint_between slots.cross).1
    exact positionSizeFp_ne_divisionByZero (Nat.pos_iff_ne_zero.mp positive) failed

/-! ### Runs -/

section Runs

variable {rt : Runtime} {start v : Ledger} {instrument book : Pubkey}

/-- What the two invariants say of an intent. -/
theorem wellFormed_of_bookAt {b : IntentBook} (proper : BookAt rt (fun terms b => Every (fun _ node => ∃ c, terms c ∧ node.Proper c) b) book v)
    (founded : BookAt rt Founded book v) (held : v.get book = ⟨rt.programId, .intentBook b⟩) {i : ℕ} {node : IntentNode}
    (slot : b.nodes[i]? = some (.intent node)) : ∃ c, v.Listed rt b.header.instrument c ∧ node.WellFormed c := by
  obtain ⟨c, listed, proper⟩ := (proper b held).2 i node slot
  obtain ⟨c', listed', some_left, reserved⟩ := (founded b held).2.backed i node slot
  obtain rfl := listed.unique listed'
  exact ⟨c, listed, proper, Nat.pos_iff_ne_zero.mpr some_left, reserved⟩

/-- What they say of a pair. -/
theorem fillsFreely_of_bookAt (proper : BookAt rt (fun terms b => Every (fun _ node => ∃ c, terms c ∧ node.Proper c) b) book v)
    (founded : BookAt rt Founded book v)
    (home : ∀ inst, v.get instrument = ⟨rt.programId, .instrumentConfig inst⟩ → inst.intentBook = book →
      rt.address (.book instrument) = book) (longId shortId nowSlot : ℕ) :
    FillsFreely rt v instrument book longId shortId nowSlot := by
  intro inst b p at_instrument held book_of found
  have listed : v.Listed rt instrument inst.listing :=
    listed_of_load (congrArg Account.owner at_instrument) (congrArg Account.data at_instrument)
  rw [← instrument_of_home (home inst at_instrument book_of) (proper b held).1] at listed
  have sound : Sound inst.listing.collateralBucket b := (founded b held).2.sound fun c known => known.unique listed
  refine sound.fillable (fun i node slot => ?_) found
  obtain ⟨c, known, proper⟩ := (proper b held).2 i node slot
  rwa [← known.unique listed]

/-- In every run that does not grow the book, all its intents are well formed, and whatever pair a match or a
substitution finds in it can be filled. -/
theorem intents_well_formed (gen : Genesis rt start) (calls : List (Call rt)) (book : Pubkey)
    (plain : ∀ past c, past ++ [c] <+: calls → c.returns (runCalls rt past start) = true → ¬ c.Expands book) :
    (∀ b, (runCalls rt calls start).get book = ⟨rt.programId, .intentBook b⟩ → ∀ (i : ℕ) node,
      b.nodes[i]? = some (.intent node) →
        ∃ c, (runCalls rt calls start).Listed rt b.header.instrument c ∧ node.WellFormed c) ∧
    (∀ instrument longId shortId nowSlot, FillsFreely rt (runCalls rt calls start) instrument book longId shortId nowSlot) ∧
    ∀ (c : Call rt) ctx longId shortId v, c.Matches (runCalls rt calls start) ctx longId shortId v → ctx.book = book →
      FillsFreely rt v ctx.instrument book longId shortId c.inv.slot := by
  have reached : Reachable rt (fun _ => True) (runCalls rt calls start) := .runCalls (fun _ _ => trivial) (.genesis gen)
  have genuine := genuine_of_reachable reached
  have proper := (bookInvariant_proper rt).reachable reached book
  have founded := (bookInvariant_founded rt).run gen calls plain
  refine ⟨fun b held i node slot => wellFormed_of_bookAt proper founded held slot, fun instrument => ?_, ?_⟩
  · apply fillsFreely_of_bookAt proper founded
    intro inst at_instrument book_of
    exact home_of_load genuine (congrArg Account.owner at_instrument) (congrArg Account.data at_instrument) book_of
  · rintro c ctx longId shortId v matching rfl
    have leads := matching.leads genuine
    apply fillsFreely_of_bookAt (leads.bookAt (bookInvariant_proper rt) proper) (leads.bookAt (bookInvariant_founded rt) founded)
    intro inst at_instrument book_of
    -- The instrument was there before the call.
    have same := leads.touches.get_eq' (k := ctx.instrument) (by rw [Ledger.data, at_instrument]; simp)
    rw [same] at at_instrument
    exact home_of_load genuine (congrArg Account.owner at_instrument) (congrArg Account.data at_instrument) book_of

end Runs

/-- The intents of Alice and Bob can be filled against each other. -/
theorem intents_well_formed_posted : ∃ b p, (Sample.posted 0 1).get (Sample.book Sample.poly) = ⟨Runtime.sample.programId, .intentBook b⟩ ∧
    Book.findPair 1 2 1 b = .ok p ∧ p.long.contractsRemaining ≤ p.long.contractsTotal ∧ p.Fillable 1000 := by
  obtain ⟨t, ran⟩ := Sample.fill_ran (by decide +kernel : Outcome.value? (Exec.run _ (Sample.posted 0 1)) = _) (by decide +kernel)
  obtain ⟨x⟩ := opening_of_matchPairCore ran
  have owned : (Sample.posted 0 1).owner (Sample.book Sample.poly) = Runtime.sample.programId := by decide +kernel
  have owned_instrument : (Sample.posted 0 1).owner Sample.fillCtx.instrument = Runtime.sample.programId := by decide +kernel
  have bucket : ((Sample.posted 0 1).data Sample.fillCtx.instrument).loadInstrument.toOption.map
      InstrumentConfig.collateralBucket = some 1000 := by decide +kernel
  have at_book := get_eq_of_data owned x.book_eq
  have at_instrument := get_eq_of_data owned_instrument x.instrument_eq
  rw [AccountData.loadInstrument_ok.mpr x.instrument_eq] at bucket
  obtain ⟨formed, fills, -⟩ := intents_well_formed Sample.genesis_genesis _ (Sample.book Sample.poly) (by
    have none : ∀ c ∈ Sample.launch 0 ++ [Sample.openMarket Sample.poly, Sample.post Sample.poly Sample.alice 0 1,
        Sample.post Sample.poly Sample.bob 1 1], c.instruction.expands = false := by decide +kernel
    rintro past c reached - ⟨count, grows, -⟩
    have plain := none c (reached.subset (List.mem_append_right past List.mem_cons_self))
    rw [grows] at plain
    cases plain)
  obtain ⟨c, -, wellFormed⟩ := formed x.b at_book x.pair.longIdx x.pair.long (findPair_slots x.found).1
  have fillable := fills _ 1 2 1 x.inst x.b x.pair at_instrument at_book x.book_of x.found
  rw [Option.some.inj bucket] at fillable
  exact ⟨x.b, x.pair, at_book, x.found, wellFormed.left_le, fillable⟩

end Polyleverage

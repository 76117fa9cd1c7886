import Polyleverage.Guarantees.Nodes

/-! # The price of a match

A match opens its position halfway between the two limits. So neither side pays more than it offered, both
gain the same to the last unit, and it does not matter who takes, who is named first, or which instruction
found the pair.
-/

namespace Polyleverage

open Machine

/-- In 64 bits no step of halving two prices overflows. -/
theorem toNat_halves (a b : UInt64) :
    (a / 2 + b / 2 + ((a &&& 1) &&& (b &&& 1))).toNat = priceMidpoint a.toNat b.toNat := by
  have small : priceMidpoint a.toNat b.toNat < 2 ^ 64 := by
    have := a.toNat_lt
    have := b.toNat_lt
    rw [priceMidpoint_eq]
    omega
  rw [priceMidpoint] at small ⊢
  rw [UInt64.toNat_add, UInt64.toNat_add, UInt64.toNat_and, UInt64.toNat_and, UInt64.toNat_and, UInt64.toNat_div,
    UInt64.toNat_div]
  change ((a.toNat / 2 + b.toNat / 2) % 2 ^ 64 + (a.toNat &&& 1 &&& (b.toNat &&& 1))) % 2 ^ 64 = _
  rw [Nat.mod_eq_of_lt (a := a.toNat / 2 + b.toNat / 2) (by omega), Nat.mod_eq_of_lt small]

/-- An entry that honours the limits of both sides, and their interests to the last unit. -/
structure Honours (longFp shortFp entryFp : ℕ) : Prop where
  at_least : shortFp ≤ entryFp
  at_most : entryFp ≤ longFp
  positive : 0 < entryFp
  below_one : entryFp < PRICE_ONE
  centred : |((longFp : ℤ) - entryFp) - ((entryFp : ℤ) - shortFp)| ≤ 1
  halfway : entryFp = (longFp + shortFp) / 2

/-- Halfway between two crossing prices is such an entry. -/
theorem honours_priceMidpoint {longFp shortFp : ℕ} (cross : shortFp ≤ longFp) (positive : 0 < shortFp)
    (below_one : longFp < PRICE_ONE) : Honours longFp shortFp (priceMidpoint longFp shortFp) := by
  have halfway := priceMidpoint_eq longFp shortFp
  generalize priceMidpoint longFp shortFp = entryFp at halfway ⊢
  refine ⟨by omega, by omega, by omega, by omega, ?_, halfway⟩
  rw [abs_le]
  omega

/-- The entry rounds down. -/
example : priceMidpoint 6 3 = 4 := by decide +kernel

/-- The entry of every match is halfway between the limits of its pair, and honours them. -/
theorem entry_honours_limits :
    (∀ a b : UInt64, (a / 2 + b / 2 + ((a &&& 1) &&& (b &&& 1))).toNat = priceMidpoint a.toNat b.toNat ∧
      priceMidpoint a.toNat b.toNat = (a.toNat + b.toNat) / 2 ∧
      priceMidpoint a.toNat b.toNat = priceMidpoint b.toNat a.toNat) ∧
    ∀ (rt : Runtime) (s v t : Ledger) (c : Call rt) (ctx : MatchCtx) (longId shortId : ℕ), Reachable rt (fun _ => True) s →
      c.Matches s ctx longId shortId v → (matchPairCore rt c.inv ctx longId shortId).run v = .ok () t →
        ∃ x : Opening rt c.inv ctx longId shortId v t,
          Honours x.pair.long.priceFp x.pair.short.priceFp x.p.entryPriceFp := by
  constructor
  · intro a b
    refine ⟨toNat_halves a b, priceMidpoint_eq _ _, ?_⟩
    rw [priceMidpoint_eq, priceMidpoint_eq, Nat.add_comm]
  · intro rt s v t c ctx longId shortId reached matching ran
    obtain ⟨x⟩ := opening_of_matchPairCore ran
    have leads := matching.leads (genuine_of_reachable reached)
    have proper := leads.bookAt (bookInvariant_proper rt) ((bookInvariant_proper rt).reachable reached ctx.book)
    have held := get_eq_of_data leads.book x.book_eq
    obtain ⟨longSlot, shortSlot, cross⟩ := findPair_reads x.found
    obtain ⟨_, -, long⟩ := (proper x.b held).2 _ _ longSlot
    obtain ⟨_, -, short⟩ := (proper x.b held).2 _ _ shortSlot
    refine ⟨x, ?_⟩
    rw [x.entry_eq]
    exact honours_priceMidpoint cross short.positive long.below_one

/-- The match of Alice's intent and Bob's honours both. -/
theorem entry_honours_limits_filled : ∃ t, ∃ x : Opening Runtime.sample (Sample.fill Sample.poly Sample.alice Sample.bob 1 2 3).inv
    Sample.fillCtx 1 2 (Sample.posted 0 1) t, Honours x.pair.long.priceFp x.pair.short.priceFp x.p.entryPriceFp := by
  have reached : Reachable Runtime.sample (fun _ => True) (Sample.posted 0 1) := Sample.reachable fun _ _ => trivial
  have unpacked : Outcome.value? (Exec.run (unpackMatchAccounts Runtime.sample
      (Sample.fill Sample.poly Sample.alice Sample.bob 1 2 3).inv) (Sample.posted 0 1)) = some Sample.fillCtx := by decide +kernel
  have returns : (Sample.fill Sample.poly Sample.alice Sample.bob 1 2 3).returns (Sample.posted 0 1) = true := by decide +kernel
  obtain ⟨matching, -⟩ := Sample.fill_matches unpacked returns
  obtain ⟨t, ran⟩ := Sample.fill_ran unpacked returns
  exact ⟨t, entry_honours_limits.2 _ _ _ t _ _ 1 2 reached matching ran⟩

end Polyleverage

import Polyleverage.Invariants.TradeMoves
import Polyleverage.Math.Pnl

/-! # The position that a match opens

A match that returns has found its pair in the book of the instrument. The entry is the midpoint of the
two limits, and the size is the one of the instrument's notional at that entry.
-/

namespace Polyleverage

open Machine

variable {rt : Runtime} {inv : rt.Invocation} {s t : Ledger} {u : Unit}

/-- The two halves of a size give it back. -/
theorem sizeFp_halves {size : ℕ} (small : size < 2 ^ 128) :
    truncate 64 (size >>> 64) <<< 64 ||| truncate 64 size = size := by
  have high : size >>> 64 < 2 ^ 64 := by
    rw [Nat.shiftRight_eq_div_pow]
    omega
  rw [truncate_of_lt high, truncate, ← Nat.shiftLeft_add_eq_or_of_lt (Nat.mod_lt _ (by decide)), Nat.shiftLeft_eq,
    Nat.shiftRight_eq_div_pow]
  omega

/-- A match that returned: its instrument, the pair that it found, and the position that it opened. -/
structure Opening (rt : Runtime) (inv : rt.Invocation) (ctx : MatchCtx) (longId shortId : ℕ) (s t : Ledger) where
  inst : InstrumentConfig
  b : IntentBook
  pair : Book.Pair
  notional : ℕ
  p : Pmlc
  instrument_eq : s.data ctx.instrument = .instrumentConfig inst
  book_of : inst.intentBook = ctx.book
  book_eq : s.data ctx.book = .intentBook b
  found : Book.findPair longId shortId inv.slot b = .ok pair
  pmlc_eq : t.data ctx.pmlc = .pmlc p
  live : p.status = PMLC_STATUS_LIVE
  entry_eq : p.entryPriceFp = priceMidpoint pair.long.priceFp pair.short.priceFp
  collateral_eq : p.collateralPerSide = inst.collateralBucket
  notional_eq : notionalAtoms inst.collateralBucket inst.leverageBps = .ok notional
  size_eq : positionSizeFp notional p.entryPriceFp = .ok p.sizeFp

/-- Every match that returns opens a position. -/
theorem opening_of_matchPairCore {ctx : MatchCtx} {longId shortId : ℕ}
    (ran : (matchPairCore rt inv ctx longId shortId).run s = .ok u t) :
    Nonempty (Opening rt inv ctx longId shortId s t) := by
  simp only [matchPairCore, Exec.bind_check, exists_const, ne_eq, not_not] at ran
  obtain ⟨inst, instrument_eq, -, book_of, ran⟩ := ran
  rw [Exec.bind_ok] at ran
  obtain ⟨r, s1, matched, ran⟩ := ran
  simp only [Exec.bind_check, exists_const] at ran
  obtain ⟨-, -, ran⟩ := ran
  simp only [Exec.bind_ok] at ran
  obtain ⟨fee, s2, -, _, s3, -, _, s4, -, opened⟩ := ran
  obtain ⟨b, b', book_eq, inner, -⟩ := atBook_ok matched
  simp only [matchInBook, Exec.bind_ok, Exec.gets_ok, Exec.pure_ok] at inner
  obtain ⟨pair, _, ⟨found, rfl⟩, _, _, -, _, _, -, _, _, -, _, _, -, _, _, -, _, _, -, rfl, -⟩ := inner
  simp only [openPmlc, Exec.bind_ok, Exec.ofExcept_ok] at opened
  obtain ⟨_, mid, -, notional, _, ⟨notional_eq, rfl⟩, size, _, ⟨size_eq, rfl⟩, wrote⟩ := opened
  obtain ⟨rfl, -⟩ := writeData_ok wrote
  refine ⟨⟨inst, b, pair, notional, _, instrument_eq, book_of, book_eq, found, Ledger.data_setData_self .., rfl, rfl, rfl,
    notional_eq, ?_⟩⟩
  change _ = Except.ok (truncate 64 (size >>> 64) <<< 64 ||| truncate 64 size)
  rw [sizeFp_halves (positionSizeFp_lt size_eq)]
  exact size_eq

end Polyleverage

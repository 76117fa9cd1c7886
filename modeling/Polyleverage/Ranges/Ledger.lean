import Polyleverage.Invariants.FailedMatch
import Polyleverage.Ranges.Book

/-! # The ranges of a ledger

Every account of a ledger holds what its bytes can hold. A program keeps this when it writes only what
fits; what it loads fits then, and the rest of the program may rely on it.
-/

namespace Polyleverage

open Machine Exec

/-- The data fits the words of its layout. Tokens are kept by another program. -/
def AccountData.InRange : AccountData → Prop
  | raw _ | token _ | mint _ => True
  | programConfig c => c.InRange
  | marginAccount m => m.InRange
  | instrumentConfig c => c.InRange
  | intentBook b => b.InRange
  | pmlc p => p.InRange
  | marketNonce n => n.InRange
  | feeSchedule s => s.InRange
  | userVolume v => v.InRange
  | feeTreasury t => t.InRange
  | timelock p => p.InRange
  | adminMultisig ms => ms.InRange
  | bucketRegistry r => r.InRange
  | stablecoinRegistry r => r.InRange
  | session s => s.InRange

/-- Whatever an account holds fits. -/
def Ledger.InRange (s : Ledger) : Prop := ∀ k, (s.data k).InRange

section Writes

variable {s t : Ledger} {k : Pubkey}

theorem Ledger.InRange.set (inRange : s.InRange) {a : Account} (fits : a.data.InRange) :
    Ledger.InRange (s.set k a) := by
  intro j
  by_cases here : j = k
  · subst here
    rwa [Ledger.data, Store.get_set_self]
  · rw [Ledger.data, Store.get_set_of_ne s a here]
    exact inRange j

theorem Ledger.InRange.setData (inRange : s.InRange) {d : AccountData} (fits : d.InRange) : (s.setData k d).InRange :=
  inRange.set (a := ⟨s.owner k, d⟩) fits

/-- Data of these kinds has no words of the program. -/
def AccountKind.isForeign : AccountKind → Bool
  | raw | token | mint => true
  | _ => false

theorem AccountData.inRange_of_isForeign {d : AccountData} (foreign : d.kind.isForeign = true) : d.InRange := by
  cases d with
  | raw _ | token _ | mint _ => trivial
  | _ => cases foreign

theorem Ledger.InRange.touches {old new : List AccountKind} (inRange : s.InRange) (touches : Touches old new s t)
    (foreign : ∀ kind ∈ new, kind.isForeign = true) : t.InRange := by
  intro k
  rcases touches k with same | ⟨-, after⟩
  · rw [Ledger.data, same]
    exact inRange k
  · exact AccountData.inRange_of_isForeign (foreign _ after)

end Writes

/-- One kind of data and its range. -/
class HasRange {τ : Type} (data : τ → AccountData) (R : outParam (τ → Prop)) : Prop where
  iff : ∀ x, (data x).InRange ↔ R x

instance : HasRange AccountData.programConfig ProgramConfig.InRange := ⟨fun _ => Iff.rfl⟩

instance : HasRange AccountData.marginAccount MarginAccount.InRange := ⟨fun _ => Iff.rfl⟩

instance : HasRange AccountData.instrumentConfig InstrumentConfig.InRange := ⟨fun _ => Iff.rfl⟩

instance : HasRange AccountData.intentBook IntentBook.InRange := ⟨fun _ => Iff.rfl⟩

instance : HasRange AccountData.pmlc Pmlc.InRange := ⟨fun _ => Iff.rfl⟩

instance : HasRange AccountData.marketNonce MarketNonceAccount.InRange := ⟨fun _ => Iff.rfl⟩

instance : HasRange AccountData.feeSchedule FeeSchedule.InRange := ⟨fun _ => Iff.rfl⟩

instance : HasRange AccountData.userVolume UserVolume.InRange := ⟨fun _ => Iff.rfl⟩

instance : HasRange AccountData.feeTreasury FeeTreasury.InRange := ⟨fun _ => Iff.rfl⟩

instance : HasRange AccountData.timelock TimelockProposal.InRange := ⟨fun _ => Iff.rfl⟩

instance : HasRange AccountData.adminMultisig AdminMultisig.InRange := ⟨fun _ => Iff.rfl⟩

instance : HasRange AccountData.bucketRegistry BucketRegistry.InRange := ⟨fun _ => Iff.rfl⟩

instance : HasRange AccountData.stablecoinRegistry StablecoinRegistry.InRange := ⟨fun _ => Iff.rfl⟩

instance : HasRange AccountData.session Session.InRange := ⟨fun _ => Iff.rfl⟩

/-! ### Reading and writing -/

section Programs

variable {rt : Runtime} {inv : rt.Invocation} {k : Pubkey} {α τ : Type} {view : AccountData → Except ProgramError τ}
  {data : τ → AccountData} {R : τ → Prop} {Q : α → Prop}

theorem Ledger.InRange.held {s : Ledger} {kind : AccountKind} [Views view data kind] [HasRange data R] {x : τ}
    (inRange : s.InRange) (found : view (s.data k) = .ok x) : R x := by
  have same : s.data k = data x := Views.eq_data.mp found
  have fits := inRange k
  rw [same] at fits
  exact (HasRange.iff x).mp fits

/-- What is loaded fits. -/
theorem upholds_load {kind : AccountKind} [Views view data kind] [HasRange data R] :
    Upholds Ledger.InRange R (load view k) :=
  upholds_gets fun _ _ inRange found => inRange.held found

/-- A program that is run on what an account holds has to leave there what fits. -/
theorem upholds_atAccount {kind : AccountKind} [Views view data kind] [HasRange data R] {m : Exec ProgramError τ α}
    (inner : Upholds R Q m) : Upholds Ledger.InRange Q (atAccount rt inv view data k m) := by
  constructor
  · intro s inRange t left
    simp only [Exec.run, atAccount] at left
    split at left
    · cases left
      exact inRange
    next x found =>
      have fits : R x := inRange.held found
      have stays : ∀ y ∈ (m.run x).state?, (data y).InRange := fun y left =>
        (HasRange.iff y).mpr (inner.state x fits y left)
      simp only [Exec.run] at stays
      split at left
      next a y ran =>
        split at left
        · simp at left
        · cases left
          exact inRange.setData (stays y (by rw [ran]; rfl))
      next e y failed =>
        split at left
        · simp at left
        · cases left
          exact inRange.setData (stays y (by rw [failed]; rfl))
      · simp at left
  · intro s inRange a t ran
    obtain ⟨x, y, found, ran, -⟩ := atAccount_ok ran
    exact inner.value x (inRange.held found) a y ran

instance {kind : AccountKind} [Views view data kind] [HasRange data R] (m : Exec ProgramError τ α)
    [Keeping (Stays R) m] :
    Keeping (Stays Ledger.InRange) (atAccount rt inv view data k m) :=
  (upholds_atAccount (upholds_of_keeping m)).keeping

instance (m : MarginM Unit) [Keeping (Stays MarginAccount.InRange) m] :
    Keeping (Stays Ledger.InRange) (atMargin rt inv k m) :=
  inferInstanceAs (Keeping _ (atAccount rt inv AccountData.loadMargin .marginAccount k m))

instance (m : BookM α) [Keeping (Stays IntentBook.InRange) m] : Keeping (Stays Ledger.InRange) (atBook rt inv k m) :=
  inferInstanceAs (Keeping _ (atAccount rt inv AccountData.loadBook .intentBook k m))

theorem upholds_atBook {m : BookM α} (inner : Upholds IntentBook.InRange Q m) :
    Upholds Ledger.InRange Q (atBook rt inv k m) :=
  upholds_atAccount inner

theorem keeping_updateAccount {kind : AccountKind} [Views view data kind] [HasRange data R] {f : τ → τ}
    (step : ∀ x, R x → R (f x)) :
    Keeping (Stays Ledger.InRange) (updateAccount rt inv view data k f) :=
  (upholds_atAccount (upholds_modify step)).keeping

end Programs

section Creating

variable {rt : Runtime} {inv : rt.Invocation} {k payer : Pubkey} {α : Type}

/-- A program that leaves only foreign data behind. -/
theorem keeping_of_foreign {m : LedgerM α} (old new : List AccountKind) [Within old new m]
    (foreign : ∀ kind ∈ new, kind.isForeign = true) : Keeping (Stays Ledger.InRange) m where
  keeps s t left inRange := by
    have touches : Touches old new s t := Within.keeps s t left
    exact inRange.touches touches foreign

theorem keeping_writeData {d : AccountData} (fits : d.InRange) :
    Keeping (Stays Ledger.InRange) (writeData rt inv k d) := by
  refine keeping_get fun s inRange => upholds_bind (upholds_of_keeping _) fun _ _ => ?_
  exact upholds_put (inRange.setData fits)

theorem keeping_initAccount {fresh : AccountData} (fits : fresh.InRange) :
    Keeping (Stays Ledger.InRange) (initAccount rt inv k fresh) := by
  have : Keeping (Stays Ledger.InRange) (writeData rt inv k fresh) := keeping_writeData fits
  unfold initAccount
  infer_instance

instance (space owner) : Keeping (Stays Ledger.InRange) (createAccount rt inv payer k space owner) :=
  keeping_of_foreign [.raw] [.raw] (by decide)

theorem keeping_createAndInit {fresh : AccountData} (fits : fresh.InRange) :
    Keeping (Stays Ledger.InRange) (createAndInit rt inv payer k fresh) :=
  Exec.keeping_bind inferInstance fun _ => keeping_initAccount fits

instance (space) : Keeping (Stays Ledger.InRange) (ensureCreated rt inv payer k space) := by
  unfold ensureCreated
  infer_instance

/-! ### Checks and inner calls -/

instance : Keeping (Stays Ledger.InRange) (assertSigner rt inv k) := keeping_of_foreign [] [] (by decide)

instance : Keeping (Stays Ledger.InRange) (assertWritable rt inv k) := keeping_of_foreign [] [] (by decide)

instance : Keeping (Stays Ledger.InRange) (assertSystemProgram k) := keeping_of_foreign [] [] (by decide)

instance : Keeping (Stays Ledger.InRange) (assertTokenProgram rt k) := keeping_of_foreign [] [] (by decide)

instance : Keeping (Stays Ledger.InRange) (assertTokenOwned rt k) := keeping_of_foreign [] [] (by decide)

instance : Keeping (Stays Ledger.InRange) (assertEmpty k) := keeping_of_foreign [] [] (by decide)

instance (admin) : Keeping (Stays Ledger.InRange) (assertAdmin k admin) := keeping_of_foreign [] [] (by decide)

instance (vault mint) : Keeping (Stays Ledger.InRange) (validateVaultTokenAccount rt k vault mint) :=
  keeping_of_foreign [] [] (by decide)

instance : Keeping (Stays Ledger.InRange) (loadUnpaused k) := keeping_of_foreign [] [] (by decide)

instance : Keeping (Stays Ledger.InRange) (authorizeAdminOrMultisig rt inv k) := keeping_of_foreign [] [] (by decide)

instance (args rest) :
    Keeping (Stays Ledger.InRange) (checkRegistry rt args rest) := keeping_of_foreign [] [] (by decide)

instance (cfg index type) : Keeping (Stays Ledger.InRange) (loadAttestation rt inv cfg k index type) :=
  keeping_of_foreign [] [] (by decide)

instance (j inst) : Keeping (Stays Ledger.InRange) (loadLivePmlc j k inst) := keeping_of_foreign [] [] (by decide)

instance (delegate instrument) : Keeping (Stays Ledger.InRange) (sessionOwner rt inv k delegate instrument) :=
  keeping_of_foreign [] [] (by decide)

instance (source destination authority amount) :
    Keeping (Stays Ledger.InRange) (invoke fun s => rt.transfer s source destination authority amount) :=
  keeping_of_foreign [.token] [.token] (by decide)

instance (mint destination authority amount) :
    Keeping (Stays Ledger.InRange) (invoke fun s => rt.mintTo s mint destination authority amount) :=
  keeping_of_foreign [.token, .mint] [.token, .mint] (by decide)

instance (source mint authority amount) :
    Keeping (Stays Ledger.InRange) (invoke fun s => rt.burn s source mint authority amount) :=
  keeping_of_foreign [.token, .mint] [.token, .mint] (by decide)

instance (mint authority decimals) :
    Keeping (Stays Ledger.InRange) (ensureWusdMint rt inv payer mint authority decimals) :=
  keeping_of_foreign [.raw] [.raw, .mint] (by decide)

instance : Keeping (Stays Ledger.InRange) (closeAccount rt inv k) where
  keeps s t left inRange := by
    rw [closeAccount, Exec.run_bind_get, Exec.run_bind, Exec.run_abortIf] at left
    split at left
    · simp at left
    · cases left
      exact inRange.set trivial

end Creating

end Polyleverage

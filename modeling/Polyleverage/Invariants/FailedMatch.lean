import Polyleverage.Invariants.SettleMoves

/-! # However a match ends

A post ignores the error of the match that it tries, so what a failed match wrote stays. Its accounts are
still genuine and its books are still sound.
-/

namespace Polyleverage

open Machine

variable {rt : Runtime} {inv : rt.Invocation} {s t : Ledger} {k : Pubkey} {u : Unit}

/-! ### Checks leave the ledger alone -/

section Checks

variable {R : Ledger → Ledger → Prop} [IsTrans Ledger R] [Std.Refl R]

instance {α : Type} (view : AccountData → Except ProgramError α) : Exec.Keeping R (load view k) :=
  inferInstanceAs (Exec.Keeping R (Exec.gets _))

instance (seeds : Seeds) : Exec.Keeping R (assertPda rt seeds k) := by
  unfold assertPda
  infer_instance

instance (keys : List Pubkey) : Exec.Keeping R (assertOwned rt keys) := by
  unfold assertOwned
  infer_instance

instance (owner mint) : Exec.Keeping R (validateMargin rt owner mint k) := by
  unfold validateMargin
  infer_instance

end Checks

/-! ### What stays -/

/-- From genuine accounts a run leads to genuine accounts, lists what was listed, keeps the accounts of
the program, and keeps the books sound. What is reserved and locked beyond the orders and the positions
grows by at least an entry. -/
structure Kept (rt : Runtime) (s t : Ledger) (δ : Gap → ℤ) : Prop where
  genuine : Genuine rt t
  fixed : ∀ k x, s.fixed rt k = some x → t.fixed rt k = some x
  owned : ∀ k, s.owner k = rt.programId → t.owner k = rt.programId
  books : Books rt s → Books rt t
  lock : ∀ owner mint, s.gap rt (.lock owner mint) + δ (.lock owner mint) ≤ t.gap rt (.lock owner mint)
  reserve : Books rt s → ∀ owner mint,
    s.gap rt (.reserve owner mint) + δ (.reserve owner mint) ≤ t.gap rt (.reserve owner mint)

section Kept

variable {v : Ledger} {δ ε : Gap → ℤ}

theorem Moved.kept (moved : Moved rt s t δ) : Kept rt s t δ where
  genuine := moved.genuine
  fixed := moved.fixed
  owned := moved.owned
  books := moved.books
  lock owner mint := (moved.lock owner mint).ge
  reserve books owner mint := (moved.reserve books owner mint).ge

theorem Kept.refl (genuine : Genuine rt s) : Kept rt s s 0 := (Moved.refl genuine).kept

theorem Kept.trans (first : Kept rt s t δ) (next : Kept rt t v ε) : Kept rt s v (δ + ε) where
  genuine := next.genuine
  fixed k x known := next.fixed k x (first.fixed k x known)
  owned k mine := next.owned k (first.owned k mine)
  books books := next.books (first.books books)
  lock owner mint := by
    have before := first.lock owner mint
    have after := next.lock owner mint
    rw [Pi.add_apply]
    omega
  reserve books owner mint := by
    have before := first.reserve books owner mint
    have after := next.reserve (first.books books) owner mint
    rw [Pi.add_apply]
    omega

/-- It may be said to grow less. -/
theorem Kept.weaken (kept : Kept rt s t δ) (lock : ∀ owner mint, ε (.lock owner mint) ≤ δ (.lock owner mint))
    (reserve : Books rt s → ∀ owner mint, ε (.reserve owner mint) ≤ δ (.reserve owner mint)) : Kept rt s t ε where
  genuine := kept.genuine
  fixed := kept.fixed
  owned := kept.owned
  books := kept.books
  lock owner mint := by
    have grown := kept.lock owner mint
    have less := lock owner mint
    omega
  reserve books owner mint := by
    have grown := kept.reserve books owner mint
    have less := reserve books owner mint
    omega

theorem Kept.then (first : Kept rt s t 0) (next : Kept rt t v δ) : Kept rt s v δ := by
  have both := first.trans next
  rwa [zero_add] at both

/-- A fee is neither reserved nor locked. -/
theorem Kept.of_backing {mint : Pubkey} {amount : ℤ} (kept : Kept rt s t (backingEntry mint amount)) : Kept rt s t 0 :=
  kept.weaken (fun _ _ => le_rfl) fun _ _ _ => le_rfl

theorem Kept.listed (kept : Kept rt s t δ) {c : InstrumentConfig} (listed : s.Listed rt k c) : t.Listed rt k c :=
  kept.fixed k _ listed

end Kept

/-- What a failed access to an account leaves. -/
theorem atAccount_err {α τ : Type} {view : AccountData → Except ProgramError τ} {data : τ → AccountData}
    {m : Exec ProgramError τ α} {e : ProgramError} (ran : (atAccount rt inv view data k m).run s = .err e t) :
    (t = s ∧ view (s.data k) = .error e) ∨
      ∃ x y, view (s.data k) = .ok x ∧ m.run x = .err e y ∧ t = s.setData k (data y) ∧
        (data y = s.data k ∨ s.owner k = rt.programId) := by
  simp only [atAccount, Exec.run] at ran
  split at ran
  next e' misread =>
    cases ran
    exact .inl ⟨rfl, misread⟩
  next x found =>
    split at ran
    next b y inner => split at ran <;> cases ran
    next e' y inner =>
      split at ran
      · cases ran
      next allowed =>
        cases ran
        exact .inr ⟨x, y, found, inner, rfl, allowed_of_not_refuses allowed⟩
    · cases ran

/-- A failed access to an account is one more entry, of what it leaves there. -/
theorem moved_of_err {α τ : Type} {view : AccountData → Except ProgramError τ} {data : τ → AccountData}
    {kind : AccountKind} [Views view data kind] {m : Exec ProgramError τ α} {e : ProgramError} (genuine : Genuine rt s)
    (ran : (atAccount rt inv view data k m).run s = .err e t)
    (fixed : ∀ x y, m.run x = .err e y → (data y).fixed = (data x).fixed)
    (fits : ∀ x y, m.run x = .err e y → Fits rt (s.Listed rt) k (data x) → Fits rt (s.Listed rt) k (data y))
    (shelved : ∀ x y, m.run x = .err e y → s.data k = data x → s.owner k = rt.programId → Books rt s →
      Shelved rt (s.Listed rt) k (data y)) :
    t = s ∨ ∃ x y, s.data k = data x ∧ m.run x = .err e y ∧ (data y = data x ∨ s.owner k = rt.programId) ∧
      Moved rt s t (entry (t.mintOf rt) (data x) (data y)) := by
  rcases atAccount_err ran with ⟨rfl, -⟩ | ⟨x, y, found, failed, rfl, allowed⟩
  · exact .inl rfl
  · have held : s.data k = data x := Views.eq_data.mp found
    have write := moved_setData genuine allowed (fun _ z known => by rw [fixed x y failed, ← held, known])
      (fun owned => fits x y failed (held ▸ genuine.fits k owned)) (shelved x y failed held)
    rw [held] at write
    exact .inr ⟨x, y, held, failed, held ▸ allowed, write⟩

/-! ### Margin accounts and volumes -/

instance : Std.Refl MarginAccount.SameAccount := ⟨MarginAccount.SameAccount.refl⟩

instance : IsTrans MarginAccount MarginAccount.SameAccount where
  trans _ _ _ first next := ⟨next.1.trans first.1, next.2.1.trans first.2.1, next.2.2.trans first.2.2⟩

instance (bucket : Bucket) (amount : ℕ) : Exec.Keeping MarginAccount.SameAccount (MarginAccount.credit bucket amount) where
  keeps := Exec.keeps_bind_get fun m m' left => by
    rcases Exec.left_bind_check left with rfl | ⟨v, -, left⟩
    · exact .refl _
    · cases left
      exact MarginAccount.sameAccount_setBalance bucket v

instance (bucket : Bucket) (amount : ℕ) : Exec.Keeping MarginAccount.SameAccount (MarginAccount.debit bucket amount) where
  keeps := Exec.keeps_bind_get fun m m' left => by
    rcases Exec.left_bind_check left with rfl | ⟨v, -, left⟩
    · exact .refl _
    · cases left
      exact MarginAccount.sameAccount_setBalance bucket v

instance (perSide release fee : ℕ) : Exec.Keeping MarginAccount.SameAccount (lockSide perSide release fee) := by
  unfold lockSide MarginAccount.moveReservedToLocked MarginAccount.moveReservedToFree MarginAccount.debitFree
    MarginAccount.move
  infer_instance

section Failures

variable {m m' : MarginAccount} {e : ProgramError} {amount : ℕ}

theorem MarginAccount.credit_err {bucket : Bucket} (failed : (MarginAccount.credit bucket amount).run m = .err e m') : m' = m := by
  rw [MarginAccount.credit, Exec.run_bind_get, Exec.run_bind] at failed
  cases sum : checkedAdd 64 (m.balance bucket) amount with
  | none =>
    rw [sum] at failed
    cases failed
    rfl
  | some v =>
    rw [sum] at failed
    cases failed

theorem MarginAccount.debit_err {bucket : Bucket} (failed : (MarginAccount.debit bucket amount).run m = .err e m') : m' = m := by
  rw [MarginAccount.debit, Exec.run_bind_get, Exec.run_bind] at failed
  cases difference : checkedSub (m.balance bucket) amount with
  | none =>
    rw [difference] at failed
    cases failed
    rfl
  | some v =>
    rw [difference] at failed
    cases failed

/-- What a failed move leaves out of the reserve may be gone. -/
theorem moveReserved_err {destination : Bucket} (failed : (MarginAccount.move .reserved destination amount).run m = .err e m') :
    m.reservedCollateral ≤ m'.reservedCollateral + amount ∧ m'.lockedCollateral = m.lockedCollateral := by
  rw [MarginAccount.move] at failed
  rcases Exec.left_bind (by rw [failed]; rfl : m' ∈ _) with ⟨_, undebited⟩ | ⟨_, m1, debited, -⟩
  · obtain rfl := MarginAccount.debit_err undebited
    exact ⟨Nat.le_add_right _ _, rfl⟩
  · rw [Exec.run_bind_of_ok debited] at failed
    obtain rfl := MarginAccount.credit_err failed
    have step := marginStep_debit debited
    have reserved := step.reserved
    have locked := step.locked
    simp only [Bucket.part, if_true, reduceCtorEq, if_false] at reserved locked
    omega

/-- A side that cannot be locked in full gives up no more of its reserve than it would have, and nothing that is
locked. -/
theorem lockSide_err {perSide release fee : ℕ} (failed : (lockSide perSide release fee).run m = .err e m') :
    m.reservedCollateral ≤ m'.reservedCollateral + (perSide + release) ∧ m.lockedCollateral ≤ m'.lockedCollateral := by
  rw [lockSide] at failed
  rcases Exec.left_bind (by rw [failed]; rfl : m' ∈ _) with ⟨_, unlocked⟩ | ⟨_, m1, locked, -⟩
  · obtain ⟨reserved, same⟩ := moveReserved_err unlocked
    exact ⟨reserved.trans (by omega), same.ge⟩
  have first := marginStep_moveReservedToLocked locked
  have reserved1 := first.reserved
  have locked1 := first.locked
  rw [Exec.run_bind_of_ok locked] at failed
  rcases Exec.left_bind (by rw [failed]; rfl : m' ∈ _) with ⟨_, unreleased⟩ | ⟨_, m2, released, -⟩
  · rw [Exec.run_when] at unreleased
    split at unreleased
    · obtain ⟨reserved, same⟩ := moveReserved_err unreleased
      omega
    · cases unreleased
  have second := marginStep_when 0 (-1) 0 released fun moved =>
    (marginStep_moveReservedToFree moved).cast (by omega) (by omega) (by omega)
  have reserved2 := second.reserved
  have locked2 := second.locked
  rw [Exec.run_bind_of_ok released, Exec.run_when] at failed
  split at failed
  · obtain rfl := MarginAccount.debit_err failed
    omega
  · cases failed

end Failures

/-- A failed lock of one side. -/
theorem kept_lockSide_err {perSide release fee : ℕ} {owner mint : Pubkey} {e : ProgramError} (genuine : Genuine rt s)
    (here : rt.address (.margin owner mint) = k)
    (ran : (atMargin rt inv k (lockSide perSide release fee)).run s = .err e t) :
    Kept rt s t (marginEntry owner mint 0 (-(perSide + release : ℕ)) 0) := by
  have account : ∀ x y : MarginAccount, (lockSide perSide release fee).run x = .err e y → x.SameAccount y :=
    fun _ _ failed => Exec.Keeping.keeps.err failed
  have less : ∀ {v}, Kept rt s v 0 → Kept rt s v (marginEntry owner mint 0 (-(perSide + release : ℕ)) 0) := by
    intro v kept
    refine kept.weaken (fun owner' mint' => ?_) fun _ owner' mint' => ?_
    · simp [marginEntry]
    · simp only [marginEntry]
      split <;> simp
  have moved := moved_of_err genuine ran (fun _ _ _ => rfl)
    (fun x y failed fits => by
      obtain ⟨owner, mint, bump⟩ := account x y failed
      rw [Fits, owner, mint, bump]
      exact fits) fun _ _ _ _ _ _ => trivial
  rcases moved with rfl | ⟨x, y, found, failed, allowed, moved⟩
  · exact less (.refl genuine)
  by_cases owned : s.owner k = rt.programId
  · obtain ⟨same_owner, same_mint, -⟩ := account x y failed
    obtain ⟨reserved, locked⟩ := lockSide_err failed
    obtain ⟨rfl, rfl⟩ := genuine.margin_identity here owned found
    refine moved.kept.weaken (fun owner' mint' => ?_) fun _ owner' mint' => ?_
    · simp only [marginEntry, entry, AccountData.locked, AccountData.held, MarginAccount.isOf, same_owner, same_mint]
      by_cases mine : x.owner = owner' ∧ x.collateralMint = mint'
      · simp only [mine, and_self, if_true]
        omega
      · simp only [mine, if_false]
        omega
    · simp only [marginEntry, entry, AccountData.reserved, AccountData.booked, MarginAccount.isOf, same_owner, same_mint]
      by_cases mine : x.owner = owner' ∧ x.collateralMint = mint'
      · simp only [mine, and_self, if_true]
        omega
      · simp only [mine, if_false]
        omega
  · rw [allowed.resolve_right owned, entry_self] at moved
    exact less moved.kept

/-- The volume stays its owner's. -/
def UserVolume.SameHolder (v v' : UserVolume) : Prop := v'.owner = v.owner ∧ v'.collateralMint = v.collateralMint

instance : Std.Refl UserVolume.SameHolder := ⟨fun _ => ⟨rfl, rfl⟩⟩

instance : IsTrans UserVolume UserVolume.SameHolder where
  trans _ _ _ first next := ⟨next.1.trans first.1, next.2.trans first.2⟩

instance (start : ℕ) : Exec.Keeping UserVolume.SameHolder
    (Exec.modify fun v => { v with epochStartSlot := start } : Exec ProgramError UserVolume Unit) :=
  ⟨Exec.keeps_modify fun _ => ⟨rfl, rfl⟩⟩

instance (now : ℕ) : Exec.Keeping UserVolume.SameHolder (UserVolume.maybeRollEpoch now) where
  keeps := Exec.keeps_bind_get fun v v' left => by
    rw [Exec.run_when] at left
    split at left
    · rcases Exec.left_bind left with ⟨e, failed⟩ | ⟨_, v1, rolled, left⟩
      · cases failed
      · cases rolled
        have after : UserVolume.SameHolder _ v' := Exec.Keeping.keeps _ v' left
        exact after
    · cases left
      exact Std.Refl.refl v

instance (amount now : ℕ) : Exec.Keeping UserVolume.SameHolder (UserVolume.addVolume amount now) :=
  Exec.keeping_bind inferInstance fun _ => ⟨Exec.keeps_bind_get fun v v' left => by
    rcases Exec.left_bind_check left with rfl | ⟨_, -, left⟩
    · exact Std.Refl.refl _
    · cases left
      exact ⟨rfl, rfl⟩⟩

theorem kept_addVolume_err {amount now : ℕ} {e : ProgramError} (genuine : Genuine rt s)
    (ran : (atAccount rt inv AccountData.loadUserVolume .userVolume k (UserVolume.addVolume amount now)).run s = .err e t) :
    Kept rt s t 0 := by
  have moved := moved_of_err genuine ran (fun _ _ _ => rfl)
    (fun x y failed fits => by
      obtain ⟨owner, mint⟩ := (Exec.Keeping.keeps.err failed : x.SameHolder y)
      rw [Fits, owner, mint]
      exact fits) fun _ _ _ _ _ _ => trivial
  rcases moved with rfl | ⟨x, y, -, -, -, moved⟩
  · exact .refl genuine
  · exact (moved.cast (entry_weightless (weightless_idle rfl) (weightless_idle rfl))).kept

def FeeTreasury.SameMint (f f' : FeeTreasury) : Prop := f'.collateralMint = f.collateralMint

instance (amount : ℕ) : Exec.Keeping FeeTreasury.SameMint (FeeTreasury.accrue amount) where
  keeps := Exec.keeps_bind_get fun f f' left => by
    rcases Exec.left_bind_check left with rfl | ⟨_, -, left⟩
    · rfl
    · cases left
      rfl

theorem kept_accrue_err {amount : ℕ} {e : ProgramError} (genuine : Genuine rt s)
    (ran : (atAccount rt inv AccountData.loadFeeTreasury .feeTreasury k (FeeTreasury.accrue amount)).run s = .err e t) :
    Kept rt s t 0 := by
  have moved := moved_of_err genuine ran (fun _ _ _ => rfl)
    (fun x y failed fits => by
      have mint : y.collateralMint = x.collateralMint := (Exec.Keeping.keeps.err failed : x.SameMint y)
      rw [Fits, mint]
      exact fits) fun _ _ _ _ _ _ => trivial
  rcases moved with rfl | ⟨x, y, -, -, -, moved⟩
  · exact .refl genuine
  · refine moved.kept.weaken (fun owner mint => ?_) fun _ owner mint => ?_
    · simp [entry, AccountData.locked, AccountData.held]
    · simp [entry, AccountData.reserved, AccountData.booked]

/-! ### New accounts -/

theorem writeData_ne_err {d : AccountData} {e : ProgramError} : (writeData rt inv k d).run s ≠ .err e t := by
  rw [writeData, Exec.run_bind_get, Exec.run_bind, Exec.run_abortIf]
  split <;> simp

theorem createAccount_ne_err {payer owner : Pubkey} {space : ℕ} {e : ProgramError} :
    (createAccount rt inv payer k space owner).run s ≠ .err e t := by
  rw [createAccount, Exec.run_bind_get, Exec.run_bind, Exec.run_abortIf]
  split <;> simp

/-- Creating an account with its first data succeeds or takes the transaction down. -/
theorem createAndInit_ne_err {payer : Pubkey} {fresh : AccountData} {e : ProgramError} :
    (createAndInit rt inv payer k fresh).run s ≠ .err e t := by
  intro ran
  rw [createAndInit] at ran
  rcases Exec.left_bind (by rw [ran]; rfl : t ∈ _) with ⟨_, failed⟩ | ⟨_, s1, created, -⟩
  · exact createAccount_ne_err failed
  · obtain ⟨-, rfl⟩ := createAccount_ok created
    rw [Exec.run_bind_of_ok created, initAccount, Exec.run_bind_get, Exec.run_bind] at ran
    have fresh_ok : ((Ledger.data (s.set k ⟨rt.programId, .raw fresh.length⟩) k).checkFresh fresh) = .ok () := by
      rw [AccountData.checkFresh_ok, Ledger.data, Store.get_set_self]
    rw [fresh_ok] at ran
    exact writeData_ne_err ran

theorem ensureFeeTreasury_err {payer mint : Pubkey} {e : ProgramError}
    (ran : (ensureFeeTreasury rt inv payer k mint).run s = .err e t) : t = s := by
  rw [ensureFeeTreasury] at ran
  rcases Exec.left_bind_check (by rw [ran]; rfl : t ∈ _) with same | ⟨bump, ⟨here, rfl⟩, -⟩
  · exact same
  · have checked : (assertPda rt (.treasury mint) k).run s = .ok (rt.bump (.treasury mint)) s := by simp [here]
    rw [Exec.run_bind_of_ok checked, Exec.run_bind_get] at ran
    split at ran
    · exact (Exec.Keeping.keeps (R := Eq) s t (by rw [ran]; rfl)).symm
    · exact absurd ran createAndInit_ne_err

theorem ensureUserVolume_err {payer owner mint : Pubkey} {e : ProgramError}
    (ran : (ensureUserVolume rt inv payer k owner mint).run s = .err e t) : t = s := by
  rw [ensureUserVolume] at ran
  rcases Exec.left_bind_check (by rw [ran]; rfl : t ∈ _) with same | ⟨bump, ⟨here, rfl⟩, -⟩
  · exact same
  · have checked : (assertPda rt (.userVolume owner mint) k).run s = .ok (rt.bump (.userVolume owner mint)) s := by simp [here]
    rw [Exec.run_bind_of_ok checked, Exec.run_bind_get] at ran
    split at ran
    · exact (Exec.Keeping.keeps (R := Eq) s t (by rw [ran]; rfl)).symm
    · exact absurd ran createAndInit_ne_err

/-! ### The match -/

theorem kept_chargeTaker {ctx : MatchCtx} {r : MatchResult} {mint : Pubkey} {perSide : ℕ} (genuine : Genuine rt s)
    (left : t ∈ ((chargeTaker rt inv ctx r mint perSide).run s).state?) : Kept rt s t 0 := by
  rw [chargeTaker] at left
  rcases Exec.left_bind left with ⟨e, failed⟩ | ⟨_, s1, treasury, left⟩
  · rw [ensureFeeTreasury_err failed]
    exact .refl genuine
  obtain ⟨moved, here⟩ := moved_ensureFeeTreasury genuine treasury
  have first := moved.kept
  refine first.then ?_
  rcases Exec.left_bind left with ⟨e, failed⟩ | ⟨_, s2, taker, left⟩
  · rw [ensureUserVolume_err failed]
    exact .refl first.genuine
  have second := (moved_ensureUserVolume first.genuine taker).kept
  refine second.then ?_
  rcases Exec.left_bind left with ⟨e, failed⟩ | ⟨_, s3, maker, left⟩
  · rw [ensureUserVolume_err failed]
    exact .refl second.genuine
  have third := (moved_ensureUserVolume second.genuine maker).kept
  refine third.then ?_
  rcases Exec.left_bind_check left with rfl | ⟨sched, -, left⟩
  · exact .refl third.genuine
  rcases Exec.left_bind_check left with rfl | ⟨vol, -, left⟩
  · exact .refl third.genuine
  rcases Exec.left_bind left with ⟨e, failed⟩ | ⟨_, s4, took, left⟩
  · exact kept_addVolume_err third.genuine failed
  have fourth := (moved_addVolume third.genuine took).kept
  refine fourth.then ?_
  rcases Exec.left_bind left with ⟨e, failed⟩ | ⟨_, s5, made, left⟩
  · exact kept_addVolume_err fourth.genuine failed
  have fifth := (moved_addVolume fourth.genuine made).kept
  refine fifth.then ?_
  rcases Exec.left_bind left with ⟨e, failed⟩ | ⟨_, s6, accrued, left⟩
  · rw [Exec.run_when] at failed
    split at failed
    · exact kept_accrue_err fifth.genuine failed
    · cases failed
  · cases left
    rcases Exec.when_ok.mp accrued with ⟨-, accrued⟩ | ⟨-, rfl⟩
    · exact (moved_accrue fifth.genuine here accrued).kept.of_backing
    · exact .refl fifth.genuine

theorem kept_openPmlc {ctx : MatchCtx} {r : MatchResult} {inst : InstrumentConfig} (genuine : Genuine rt s)
    (listed : s.Listed rt ctx.instrument inst.listing) (here : rt.address (.pmlc ctx.instrument r.pmlcId) = ctx.pmlc)
    (left : t ∈ ((openPmlc rt inv ctx r inst).run s).state?) :
    Kept rt s t (pmlcEntry inst.collateralMint
      (Pi.single r.longTrader (inst.collateralBucket : ℤ) + Pi.single r.shortTrader (inst.collateralBucket : ℤ))) := by
  cases ran : (openPmlc rt inv ctx r inst).run s with
  | ok u t' =>
    rw [ran] at left
    cases left
    exact (moved_openPmlc genuine listed here ran).kept
  | err e t' =>
    have unopened : Kept rt s t 0 := by
      rw [openPmlc] at ran left
      rcases Exec.left_bind left with ⟨_, failed⟩ | ⟨_, s1, created, left⟩
      · exact absurd failed createAccount_ne_err
      have first := (moved_createAccount genuine created).1.kept
      refine first.then ?_
      rw [Exec.run_bind_of_ok created] at ran
      rcases Exec.left_bind_check left with rfl | ⟨notional, computed, left⟩
      · exact .refl first.genuine
      rw [Exec.run_bind_of_ok (Exec.ofExcept_ok.mpr ⟨computed, rfl⟩)] at ran
      rcases Exec.left_bind_check left with rfl | ⟨sizeFp, sized, left⟩
      · exact .refl first.genuine
      rw [Exec.run_bind_of_ok (Exec.ofExcept_ok.mpr ⟨sized, rfl⟩)] at ran
      exact absurd ran writeData_ne_err
    refine unopened.weaken (fun owner mint => ?_) fun _ _ _ => le_rfl
    simp only [pmlcEntry, Pi.add_apply, Pi.single_apply, Pi.zero_apply]
    split_ifs <;> omega
  | abort => simp [ran] at left

/-- A match that fails in the book may have written its fill there. -/
theorem kept_matchInBook_err {instrument pmlc : Pubkey} {c : InstrumentConfig} {longId shortId : ℕ} {e : ProgramError}
    (genuine : Genuine rt s) (listed : s.Listed rt instrument c) (at_book : c.intentBook = k)
    (owned : s.owner k = rt.programId)
    (failed : (atBook rt inv k (matchInBook rt instrument pmlc c.collateralBucket longId shortId inv.slot)).run s = .err e t) :
    Kept rt s t 0 := by
  have known : ∀ b, s.data k = .intentBook b → Books rt s → b.header.instrument = instrument ∧ Sound c.collateralBucket b :=
    fun b held books => genuine.sound_of_listed books listed at_book owned held
  have moved := moved_of_err genuine failed (fun _ _ _ => rfl) (fun _ _ _ fits => fits) ?_
  · rcases moved with rfl | ⟨b, b', held, wrong, -, moved⟩
    · exact .refl genuine
    · refine moved.kept.weaken (fun owner mint => ?_) fun books owner mint => ?_
      · simp [entry, AccountData.locked, AccountData.held]
      · obtain ⟨-, -, same, less⟩ := (keeps_matchInBook _ _ _ _ _).err wrong (known b held books).2
        have drop := less owner
        simp only [entry, AccountData.reserved, AccountData.booked, same]
        split_ifs <;> simp_all
  · intro b b' wrong held owned books
    obtain ⟨same, sound⟩ := known b held books
    obtain ⟨sound', -, instrument, -⟩ := (keeps_matchInBook _ _ _ _ _).err wrong sound
    obtain ⟨here, -⟩ := books.book_ok owned held
    rw [same] at here
    rw [Shelved, instrument, same]
    exact ⟨here, c, listed, sound'⟩

/-- A fill of which some has been booked on the two sides. -/
theorem Kept.part_filled {s1 s2 : Ledger} {mint long short : Pubkey} {x y : ℕ} {total reserved locked : ℤ}
    {total' reserved' locked' : ℤ}
    (filled : Kept rt s s1 (bookEntry mint (-Pi.single long (x : ℤ) - Pi.single short (y : ℤ))))
    (first : Kept rt s1 s2 (marginEntry long mint total reserved locked))
    (next : Kept rt s2 t (marginEntry short mint total' reserved' locked')) (enough : -x ≤ reserved) (more : 0 ≤ locked)
    (enough' : -y ≤ reserved') (more' : 0 ≤ locked') : Kept rt s t 0 := by
  refine ((filled.trans first).trans next).weaken (fun owner mint' => ?_) fun _ owner mint' => ?_
  · simp only [Pi.add_apply, Pi.zero_apply, bookEntry, marginEntry]
    split_ifs <;> omega
  · simp only [Pi.add_apply, Pi.sub_apply, Pi.neg_apply, Pi.zero_apply, bookEntry, marginEntry, Pi.single_apply,
      @eq_comm _ owner]
    by_cases same : mint = mint'
    · by_cases onLong : long = owner <;> by_cases onShort : short = owner <;> simp [same, onLong, onShort] <;> omega
    · simp [same]

/-- Nothing has been booked on a side. -/
theorem Kept.unbooked (kept : Kept rt s t 0) (owner mint : Pubkey) : Kept rt s t (marginEntry owner mint 0 0 0) := by
  rwa [marginEntry_zero]

/-- A match leaves the accounts genuine and the books sound, also when it fails, and never reserves or locks less than
the orders and the positions count. -/
theorem kept_matchPairCore {ctx : MatchCtx} {longId shortId : ℕ} (genuine : Genuine rt s)
    (owned_instrument : s.owner ctx.instrument = rt.programId) (owned_book : s.owner ctx.book = rt.programId)
    (left : t ∈ ((matchPairCore rt inv ctx longId shortId).run s).state?) : Kept rt s t 0 := by
  rw [matchPairCore] at left
  rcases Exec.left_bind_check left with rfl | ⟨inst, found, left⟩
  · exact .refl genuine
  have listed : s.Listed rt ctx.instrument inst.listing := listed_of_load owned_instrument found
  rcases Exec.left_bind_check left with rfl | ⟨_, -, left⟩
  · exact .refl genuine
  rcases Exec.left_bind_check left with rfl | ⟨_, same, left⟩
  · exact .refl genuine
  have at_book : inst.intentBook = ctx.book := not_not.mp same
  rcases Exec.left_bind left with ⟨e, failed⟩ | ⟨r, s1, matched, left⟩
  · exact kept_matchInBook_err genuine listed at_book owned_book failed
  obtain ⟨b, b', -, inner, -, -⟩ := atAccount_ok matched
  have here := matchInBook_address inner
  have first : Kept rt s s1 (bookEntry inst.collateralMint
      (-Pi.single r.longTrader ((inst.collateralBucket + r.feeBufReleaseLong : ℕ) : ℤ) -
        Pi.single r.shortTrader ((inst.collateralBucket + r.feeBufReleaseShort : ℕ) : ℤ))) :=
    (moved_atBook genuine listed at_book matched
      (fun _ _ _ ran sound => (bookStep_matchInBook sound ran).1) owned_book).kept
  have unbooked {v : Ledger} (genuine : Genuine rt v) (owner : Pubkey) :
      Kept rt v v (marginEntry owner inst.collateralMint 0 0 0) := (Kept.refl genuine).unbooked owner _
  have unfilled : Kept rt s s1 0 :=
    first.part_filled (unbooked first.genuine _) (unbooked first.genuine _) (by omega) le_rfl (by omega) le_rfl
  rcases Exec.left_bind_check left with rfl | ⟨_, ⟨long_here, -⟩, left⟩
  · exact unfilled
  rcases Exec.left_bind_check left with rfl | ⟨_, ⟨short_here, -⟩, left⟩
  · exact unfilled
  rcases Exec.left_bind left with ⟨e, failed⟩ | ⟨fee, s2, charged, left⟩
  · exact unfilled.then (kept_chargeTaker first.genuine (by rw [failed]; rfl))
  have second := (moved_chargeTaker first.genuine charged).kept.of_backing
  have filled : Kept rt s s2 _ := first.trans second
  rw [add_zero] at filled
  rcases Exec.left_bind left with ⟨e, failed⟩ | ⟨_, s3, long, left⟩
  · have tried := kept_lockSide_err second.genuine long_here failed
    exact filled.part_filled tried (unbooked tried.genuine _) le_rfl le_rfl (by omega) le_rfl
  have third := (moved_atMargin second.genuine long_here long fun _ _ => marginStep_lockSide).kept
  rcases Exec.left_bind left with ⟨e, failed⟩ | ⟨_, s4, short, left⟩
  · have tried := kept_lockSide_err third.genuine short_here failed
    exact filled.part_filled third tried (by omega) (by omega) le_rfl le_rfl
  have fourth := (moved_atMargin third.genuine short_here short fun _ _ => marginStep_lockSide).kept
  have fifth := kept_openPmlc fourth.genuine (fourth.listed (third.listed (second.listed (first.listed listed)))) here left
  have sum := fill_entry inst.collateralMint r.longTrader r.shortTrader inst.collateralBucket r.feeBufReleaseLong
    r.feeBufReleaseShort fee r.takerIsLong
  refine (((filled.trans third).trans fourth).trans fifth).weaken (fun owner mint => ?_) fun _ owner mint => ?_
  · have parts := congrFun sum (.lock owner mint)
    simp only [Pi.add_apply, Pi.zero_apply] at parts ⊢
    simp only [backingEntry] at parts
    omega
  · have parts := congrFun sum (.reserve owner mint)
    simp only [Pi.add_apply, Pi.zero_apply] at parts ⊢
    simp only [backingEntry] at parts
    omega

/-- A post keeps what stays however its match ends. -/
theorem kept_inlineMatch {ctx : PostCtx} {args : PostIntentArgs} {id : ℕ} (genuine : Genuine rt s)
    (owned_instrument : s.owner ctx.instrument = rt.programId) (owned_book : s.owner ctx.book = rt.programId)
    (ran : (inlineMatch rt inv ctx args id).run s = .ok u t) : Kept rt s t 0 := by
  unfold inlineMatch at ran
  split at ran
  next counterpartyMargin pmlc system sched takerVolume makerVolume treasury rest _ =>
    rw [Exec.bind_ok] at ran
    obtain ⟨counterparty, s1, looked, ran⟩ := ran
    have first := (moved_lookAtBook genuine (keeps_findOverlapOnSide _ _ _ _) looked).kept
    refine first.then ?_
    split at ran
    next counterpartyId =>
      simp only [Exec.bind_ok, Exec.pure_ok] at ran
      obtain ⟨caught, s2, swallowed, -, rfl⟩ := ran
      let inner := inlineMatchCtx ctx args counterpartyMargin pmlc sched takerVolume makerVolume treasury
      have left : s2 ∈ ((inlineMatchPair rt inv inner args id counterpartyId).run s1).state? := by
        rcases Exec.swallow_ok.mp swallowed with ⟨-, matched⟩ | ⟨e, -, failed⟩
        · rw [matched]
          rfl
        · rw [failed]
          rfl
      unfold inlineMatchPair at left
      split at left
      · exact kept_matchPairCore first.genuine (first.owned _ owned_instrument) (first.owned _ owned_book) left
      · exact kept_matchPairCore first.genuine (first.owned _ owned_instrument) (first.owned _ owned_book) left
    · obtain ⟨-, rfl⟩ := Exec.pure_ok.mp ran
      exact .refl first.genuine
  · obtain ⟨-, rfl⟩ := Exec.pure_ok.mp ran
    exact .refl genuine

end Polyleverage

import Polyleverage.Invariants.Matches

/-! # Fee buffers

A book is created with a cached fee of zero, and nothing ever changes it. So every intent is posted with an
empty fee buffer, and a fill releases nothing.
-/

namespace Polyleverage

open RedBlack Machine

def RawNode.buffer : RawNode → ℕ
  | .intent node => node.feeBuffer
  | _ => 0

/-- The book asks for no fee buffer, and no intent in it has one. -/
structure Unbuffered (b : IntentBook) : Prop where
  cached : b.header.cachedMaxFeeBps = 0
  buffers : ∀ raw ∈ b.nodes, raw.buffer = 0

theorem Unbuffered.feeBuffer_eq {b : IntentBook} {i : ℕ} {node : IntentNode} (unbuffered : Unbuffered b)
    (slot : b.nodes[i]? = some (.intent node)) : node.feeBuffer = 0 :=
  unbuffered.buffers _ (List.mem_of_getElem? slot)

/-- A book without buffers stays one. -/
def StaysUnbuffered (b b' : IntentBook) : Prop := Unbuffered b → Unbuffered b'

/-! ### Events -/

instance : Unlinked fun _ node => node.feeBuffer = 0 := ⟨fun _ _ _ => Iff.rfl⟩

instance : Enduring fun _ node => node.feeBuffer = 0 where
  fill _ node bucket release none := by
    change node.feeBuffer - release = 0
    omega

theorem unbuffered_iff {b : IntentBook} :
    Unbuffered b ↔ b.header.cachedMaxFeeBps = 0 ∧ Every (fun _ node => node.feeBuffer = 0) b := by
  constructor
  · exact fun unbuffered => ⟨unbuffered.cached, fun _ _ slot => unbuffered.feeBuffer_eq slot⟩
  · rintro ⟨cached, all⟩
    refine ⟨cached, fun raw member => ?_⟩
    obtain ⟨i, slot⟩ := List.mem_iff_getElem?.mp member
    cases raw with
    | intent node => exact all i node slot
    | _ => rfl

/-- A draft for a book that asks for no buffer has none. -/
theorem staysUnbuffered_of_event {rt : Runtime} {c : InstrumentConfig} {posts : Pubkey → Prop} {expands : Prop}
    {b b' : IntentBook} (event : BookEvent rt c posts expands b b') : StaysUnbuffered b b' := by
  intro unbuffered
  obtain ⟨cached, all⟩ := unbuffered_iff.mp unbuffered
  have stays : StaysEvery (fun _ node => node.feeBuffer = 0) b b' := by
    refine staysEvery_of_event event fun d id seq seat admissible => ?_
    change d.feeBuffer = 0
    rw [admissible.buffered, cached, Nat.mul_zero, Nat.zero_div]
  exact unbuffered_iff.mpr ⟨stays.cached.trans cached, stays.every all⟩

/-- No book ever holds a buffer. -/
theorem bookInvariant_unbuffered (rt : Runtime) : BookInvariant rt (fun _ => True) True fun _ b => Unbuffered b where
  fresh _ _ _ _ := by
    refine ⟨rfl, fun raw member => ?_⟩
    rw [List.eq_of_mem_replicate member]
    rfl
  wider _ := id
  event _ _ event := staysUnbuffered_of_event event

/-! ### Fills -/

section Fills

variable {now : ℕ}

/-- The intents of a pair that was found have no buffers. -/
theorem Unbuffered.pair {b : IntentBook} {longId shortId : ℕ} {p : Book.Pair} (unbuffered : Unbuffered b)
    (found : Book.findPair longId shortId now b = .ok p) : p.long.feeBuffer = 0 ∧ p.short.feeBuffer = 0 := by
  obtain ⟨long, short⟩ := findPair_slots found
  exact ⟨unbuffered.feeBuffer_eq long, unbuffered.feeBuffer_eq short⟩

/-- An empty buffer has nothing to release. -/
theorem releases_of_consume {bucket : ℕ} {p filled : Book.Pair} {longRelease shortRelease : ℕ} (long : p.long.feeBuffer = 0)
    (short : p.short.feeBuffer = 0) (consumed : Book.consume bucket p = .ok (filled, longRelease, shortRelease)) :
    longRelease = 0 ∧ shortRelease = 0 := by
  obtain ⟨-, -, -, longReleased, shortReleased⟩ := Book.consume_ok consumed
  have first := (Book.fillRelease_ok longReleased).1
  have second := (Book.fillRelease_ok shortReleased).1
  omega

/-- A match in a book without buffers releases nothing. -/
theorem Unbuffered.releases {rt : Runtime} {b b' : IntentBook} {instrument pmlc : Pubkey} {bucket longId shortId : ℕ}
    {r : MatchResult} (unbuffered : Unbuffered b)
    (ran : (matchInBook rt instrument pmlc bucket longId shortId now).run b = .ok r b') :
    r.feeBufReleaseLong = 0 ∧ r.feeBufReleaseShort = 0 := by
  simp only [matchInBook, Exec.bind_ok, Exec.rejectIf_ok, Exec.gets_ok, Exec.ofExcept_ok, Exec.pure_ok] at ran
  obtain ⟨p, _, ⟨found, rfl⟩, _, _, ⟨consumed, rfl⟩, _, _, -, _, _, -, _, _, -, _, _, -, _, _, -, rfl, -⟩ := ran
  obtain ⟨long, short⟩ := unbuffered.pair found
  exact releases_of_consume long short consumed

end Fills

section Ledger

variable {rt : Runtime} {s v : Ledger}

/-- No book of the program asks for a fee buffer or holds one. -/
def AllUnbuffered (rt : Runtime) (s : Ledger) : Prop := ∀ k b, s.get k = ⟨rt.programId, .intentBook b⟩ → Unbuffered b

/-- In every run fee buffers stay empty, also when a call comes to its match. -/
theorem Leads.allUnbuffered {allowed : Instruction → Prop} {ctx : MatchCtx} (leads : Leads rt s v ctx)
    (reached : Reachable rt allowed s) : AllUnbuffered rt v := by
  have invariant := bookInvariant_unbuffered rt
  exact fun k b held => (leads.bookAt invariant (invariant.reachable reached k) b held).2

end Ledger

end Polyleverage

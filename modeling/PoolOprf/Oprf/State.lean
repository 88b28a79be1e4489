import PoolOprf.Oprf.Blocks

/-!
# The states of the client and of the server

What the two parties keep from the preprocessing (`pool-oprf/src/preprocessing.rs` and `voprf.rs`).
The lengths and ranges that the source's comments give are fields, so that no index of the online
phase is out of bounds. `ClientState.Spent` and `ServerState.Spent` say that one state is another
with more runs spent and nothing else changed: `nextRuns_of_le` gives it for one step, `Spent.trans`
chains it.
-/

namespace PoolOprf

open Panic

variable {S : Permutations}

/-! ## Entries -/

/-- The side of a pair that a bit chooses. -/
def side (b : Bool) : Fin 2 := if b then 1 else 0

/-- A bit as a byte is a bit. -/
theorem toUInt8_toNat_le (b : Bool) : b.toUInt8.toNat ≤ 1 := by cases b <;> decide

/-- What a bit as a byte picks of a pair is its side. -/
theorem index_toUInt8 {α : Type} (pair : Fin 2 → α) (b : Bool) :
    index pair b.toUInt8.toNat = some (pair (side b)) := by cases b <;> rfl

/-- One entry of `R_C`. -/
structure RcEntry where
  /-- `b′`. -/
  b_prime : Zdelta
  /-- `r′_{b′}`. -/
  r_prime : Zp
  /-- `b′` is in `ℤ_Δ`. -/
  b_prime_lt : b_prime.toNat < DELTA

/-- One entry of `R_S`. -/
structure RsEntry where
  /-- `b_i`, 0 or 1. -/
  b : UInt8
  /-- Expands to the masks of the server's choice. -/
  ot_block : Block
  /-- `b_i` is a bit. -/
  b_le : b.toNat ≤ 1

/-- A `pk` whose `π_setup` verified. -/
structure VerifiedKey (S : Permutations) where
  /-- The key commitment. -/
  pk : KeyCommitment S

/-- `d^{v, k}_0 .. d^{v, k}_{Δ-1}` of one run `k`. -/
abbrev PadsCommitments (S : Permutations) := Fin DELTA → PadCommitment S

/-- What a VOPRF client keeps from the preprocessing. -/
structure ClientVoprf (S : Permutations) where
  /-- The server's key. -/
  pk : VerifiedKey S
  /-- `m^v` of each evaluation `v`. -/
  m : List (MaskSumCommitment S)
  /-- `d^{v, k}_0 .. d^{v, k}_{Δ-1}` of each run. -/
  d : List (PadsCommitments S)

/-- What a VOPRF server keeps from the preprocessing. -/
structure ServerVoprf where
  /-- The 1-out-of-Δ OT blocks of each run. -/
  delta_ot_blocks : List (Fin DELTA → Block)

/-! ## The client -/

/-- Client-side preprocessing state. -/
structure ClientState (S : Permutations) where
  /-- `S_C` stored as OT blocks. -/
  ot_blocks : Fin N → Fin 2 → Block
  /-- `b̄_i = b_i ⊕ sk_i`, the masked key bits. -/
  bhat : Fin N → UInt8
  /-- One entry per run. -/
  r_c : List RcEntry
  /-- The session. -/
  uid : Uid
  /-- The run budget. -/
  runs : Runs
  /-- What a VOPRF client keeps. -/
  voprf : Option (ClientVoprf S)
  /-- `b̄` is bits. -/
  bhat_le : ∀ i, (bhat i).toNat ≤ 1
  /-- Length τ. -/
  r_c_length : r_c.length = runs.tau
  /-- One `m` per evaluation. -/
  m_length : ∀ v ∈ voprf, v.m.length = evaluationsFor runs.tau
  /-- One `d` per run of an evaluation. -/
  d_length : ∀ v ∈ voprf, v.d.length = tauFor (evaluationsFor runs.tau)

namespace ClientState

/-- `r^j_{b̄_i,i}` onward, the client's blinding masks for coordinate `i`. -/
def rBhat (self : ClientState S) (blake3 : Blake3) (i : Fin N) (first_run : ℕ) :
    Option (Fin H_ROWS → Zq) := do
  let ot_block ← index (self.ot_blocks i) (self.bhat i).toNat
  some (expand blake3 ot_block first_run)

/-- `r^j_{1-b̄_i,i}` onward, the side not used for blinding. -/
def rNotBhat (self : ClientState S) (blake3 : Blake3) (i : Fin N) (first_run : ℕ) :
    Option (Fin H_ROWS → Zq) := do
  let position ← if (self.bhat i).toNat ≤ 1 then some (1 - (self.bhat i).toNat) else none
  let ot_block ← index (self.ot_blocks i) position
  some (expand blake3 ot_block first_run)

/-- The state with another budget of as many runs. -/
def withRuns (self : ClientState S) (runs : Runs) (h : runs.tau = self.runs.tau) :
    ClientState S where
  ot_blocks := self.ot_blocks
  bhat := self.bhat
  r_c := self.r_c
  uid := self.uid
  runs := runs
  voprf := self.voprf
  bhat_le := self.bhat_le
  r_c_length := self.r_c_length.trans h.symm
  m_length v hv := by rw [h]; exact self.m_length v hv
  d_length v hv := by rw [h]; exact self.d_length v hv

/-- Reserve `count` consecutive runs, returning the first, or `none` if that many are not left. -/
def nextRuns (self : ClientState S) (count : ℕ) : Option (ℕ × ClientState S) :=
  match h : self.runs.take count with
  | none => none
  | some (first, runs) => some (first, self.withRuns runs (Runs.take_eq_some h).2.2.1)

/-- `state'` is `state` with `n` more runs spent. -/
structure Spent (state state' : ClientState S) (n : ℕ) : Prop where
  ot_blocks : state'.ot_blocks = state.ot_blocks
  bhat : state'.bhat = state.bhat
  r_c : state'.r_c = state.r_c
  uid : state'.uid = state.uid
  voprf : state'.voprf = state.voprf
  tau : state'.runs.tau = state.runs.tau
  ctr : state'.runs.ctr = state.runs.ctr + n

theorem Spent.refl (state : ClientState S) : Spent state state 0 :=
  ⟨rfl, rfl, rfl, rfl, rfl, rfl, rfl⟩

theorem Spent.trans {s s' s'' : ClientState S} {n n' : ℕ} (h : Spent s s' n)
    (h' : Spent s' s'' n') : Spent s s'' (n + n') where
  ot_blocks := h'.ot_blocks.trans h.ot_blocks
  bhat := h'.bhat.trans h.bhat
  r_c := h'.r_c.trans h.r_c
  uid := h'.uid.trans h.uid
  voprf := h'.voprf.trans h.voprf
  tau := h'.tau.trans h.tau
  ctr := by rw [h'.ctr, h.ctr, Nat.add_assoc]

/-- Runs that are left can be reserved. -/
theorem nextRuns_of_le {self : ClientState S} {count : ℕ} (h : count ≤ self.runs.remaining) :
    ∃ state, self.nextRuns count = some (self.runs.ctr, state) ∧ Spent self state count := by
  obtain ⟨runs, htake, hctr, htau⟩ := Runs.take_of_le h
  refine ⟨self.withRuns runs htau, ?_, ⟨rfl, rfl, rfl, rfl, rfl, htau, hctr⟩⟩
  unfold nextRuns
  split
  · rename_i hnone
    rw [htake] at hnone
    cases hnone
  · rename_i first runs' hsome
    rw [htake] at hsome
    obtain ⟨rfl, rfl⟩ := Prod.mk.inj (Option.some.inj hsome)
    rfl

/-- Which block of a pair blinds. -/
def bhatBit (self : ClientState S) (i : Fin N) : Bool := decide ((self.bhat i).toNat = 1)

/-- A block of a pair. -/
def blockAt (self : ClientState S) (i : Fin N) (b : Bool) : Block :=
  self.ot_blocks i (if b then 1 else 0)

theorem rBhat_eq (self : ClientState S) (blake3 : Blake3) (i : Fin N) (first_run : ℕ) :
    self.rBhat blake3 i first_run =
      some (expand blake3 (self.blockAt i (self.bhatBit i)) first_run) := by
  have hle := self.bhat_le i
  have hcases : (self.bhat i).toNat = 0 ∨ (self.bhat i).toNat = 1 := by omega
  unfold rBhat bhatBit blockAt
  rcases hcases with h | h
  · rw [h]
    rfl
  · rw [h]
    rfl

theorem rNotBhat_eq (self : ClientState S) (blake3 : Blake3) (i : Fin N) (first_run : ℕ) :
    self.rNotBhat blake3 i first_run =
      some (expand blake3 (self.blockAt i (!self.bhatBit i)) first_run) := by
  have hle := self.bhat_le i
  have hcases : (self.bhat i).toNat = 0 ∨ (self.bhat i).toNat = 1 := by omega
  unfold rNotBhat bhatBit blockAt
  rcases hcases with h | h
  · rw [h]
    rfl
  · rw [h]
    rfl

end ClientState

/-! ## The server -/

/-- Server-side preprocessing state. -/
structure ServerState where
  /-- One entry per binary OT. -/
  r_s : Fin N → RsEntry
  /-- The pads of each run. -/
  s_s : List (Fin DELTA → Zp)
  /-- The session. -/
  uid : Uid
  /-- The run budget. -/
  runs : Runs
  /-- What a VOPRF server keeps. -/
  voprf : Option ServerVoprf
  /-- Length τ. -/
  s_s_length : s_s.length = runs.tau
  /-- One row of blocks per run. -/
  delta_length : ∀ v ∈ voprf, v.delta_ot_blocks.length = runs.tau

namespace ServerState

/-- `r^j_{b_i,i}` onward, the masks the server knows for binary OT `i`. -/
def r (self : ServerState) (blake3 : Blake3) (i : Fin N) (first_run : ℕ) : Fin H_ROWS → Zq :=
  expand blake3 (self.r_s i).ot_block first_run

/-- The state with another budget of as many runs. -/
def withRuns (self : ServerState) (runs : Runs) (h : runs.tau = self.runs.tau) : ServerState where
  r_s := self.r_s
  s_s := self.s_s
  uid := self.uid
  runs := runs
  voprf := self.voprf
  s_s_length := self.s_s_length.trans h.symm
  delta_length v hv := by rw [h]; exact self.delta_length v hv

/-- Reserve `count` consecutive runs, returning the first, or `none` if that many are not left. -/
def nextRuns (self : ServerState) (count : ℕ) : Option (ℕ × ServerState) :=
  match h : self.runs.take count with
  | none => none
  | some (first, runs) => some (first, self.withRuns runs (Runs.take_eq_some h).2.2.1)

/-- `state'` is `state` with `n` more runs spent. -/
structure Spent (state state' : ServerState) (n : ℕ) : Prop where
  r_s : state'.r_s = state.r_s
  s_s : state'.s_s = state.s_s
  uid : state'.uid = state.uid
  voprf : state'.voprf = state.voprf
  tau : state'.runs.tau = state.runs.tau
  ctr : state'.runs.ctr = state.runs.ctr + n

theorem Spent.refl (state : ServerState) : Spent state state 0 :=
  ⟨rfl, rfl, rfl, rfl, rfl, rfl⟩

theorem Spent.trans {s s' s'' : ServerState} {n n' : ℕ} (h : Spent s s' n)
    (h' : Spent s' s'' n') : Spent s s'' (n + n') where
  r_s := h'.r_s.trans h.r_s
  s_s := h'.s_s.trans h.s_s
  uid := h'.uid.trans h.uid
  voprf := h'.voprf.trans h.voprf
  tau := h'.tau.trans h.tau
  ctr := by rw [h'.ctr, h.ctr, Nat.add_assoc]

/-- Runs that are left can be reserved. -/
theorem nextRuns_of_le {self : ServerState} {count : ℕ} (h : count ≤ self.runs.remaining) :
    ∃ state, self.nextRuns count = some (self.runs.ctr, state) ∧ Spent self state count := by
  obtain ⟨runs, htake, hctr, htau⟩ := Runs.take_of_le h
  refine ⟨self.withRuns runs htau, ?_, ⟨rfl, rfl, rfl, rfl, htau, hctr⟩⟩
  unfold nextRuns
  split
  · rename_i hnone
    rw [htake] at hnone
    cases hnone
  · rename_i first runs' hsome
    rw [htake] at hsome
    obtain ⟨rfl, rfl⟩ := Prod.mk.inj (Option.some.inj hsome)
    rfl

end ServerState

end PoolOprf

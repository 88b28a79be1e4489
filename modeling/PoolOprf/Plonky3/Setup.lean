import PoolOprf.Plonky3.Openings
import PoolOprf.Plonky3.System
import PoolOprf.Voprf.Statements

/-!
# The setup circuit

`pool-voprf/src/plonky3/statements/setup.rs` and the rest of `constraints/k_key.rs`: the circuit of
`π_setup`. Its table is the row of (K) `ROWS` times, its public values are `pk`, and no rule reads
the next row or a periodic column.

A table that passes the rules holds a key in each row, and each row's key opens `pk`
(`exists_key_of_holds`); the prover's table opens `pk` to its key in every row
(`holds_trace`, `keyOpenings_trace`). So the circuit's relation is (K): `setup_circuit` is both
directions, with what the prover and the verifier make of them.
-/

namespace PoolOprf

open Row Bits Panic Air

variable {S : Permutations}

/-- The setup statement over this crate's commitments. -/
abbrev Setup (S : Permutations) := SetupStatement (KeyCommitment S)

/-- The setup statement of a key. -/
def SetupStatement.forKey (S : Permutations) (sk : SecretKey) : Setup S := ⟨keyCommit sk⟩

namespace KeyAir

/-! ## The circuit -/

/-- The table for `sk`: `ROWS` copies of the row. -/
def setupTrace (S : Permutations) (sk : SecretKey) : Option (List (List Val)) := do
  let row ← row S sk
  some (chunksExact (NUM_COLS S) (List.replicate ROWS row).flatten)

/-- The circuit. -/
def air (S : Permutations) : Air Val where
  width := NUM_COLS S
  height := ROWS
  num_public_values := DIGEST_ELEMENTS
  periodic_columns := []
  rules row _next _periodic pub := Rules S row fun i => col pub i

/-- The public values of a statement. -/
def publicValues (statement : Setup S) : List Val := List.ofFn statement.pk.digest

/-- What a table's rows open `pk` to. -/
def keyOpenings (table : List (List Val)) : Set (List Val) :=
  {x | ∃ r < ROWS, x = opened (table.getD r [])}

/-! ## The prover's table -/

theorem setupTrace_eq (sk : SecretKey) :
    setupTrace S sk = some (List.replicate ROWS (honestRow S sk)) := by
  have hpos : 0 < NUM_COLS S := lt_of_lt_of_le (by norm_num) (key_bits_le S)
  have hrow : ∀ chunk ∈ List.replicate ROWS (honestRow S sk), chunk.length = NUM_COLS S := by
    intro chunk hchunk
    rw [List.eq_of_mem_replicate hchunk]
    exact honestRow_length sk
  rw [setupTrace, row_eq, Option.bind_eq_bind, Option.bind_some, chunksExact_flatten hpos hrow]

/-- Every row of the prover's table is the row of its key. -/
theorem getD_replicate_row (sk : SecretKey) {r : ℕ} (hr : r < ROWS) :
    (List.replicate ROWS (honestRow S sk)).getD r [] = honestRow S sk := by
  rw [List.getD_eq_getElem?_getD, List.getElem?_replicate, if_pos hr, Option.getD_some]

theorem col_publicValues (statement : Setup S) :
    (fun i : Fin DIGEST_ELEMENTS => col (publicValues statement) i) = statement.pk.digest := by
  funext i
  rw [publicValues, col_ofFn]

/-- The prover's table passes every rule on every row. -/
theorem holds_trace (sk : SecretKey) : (air S).Holds (List.replicate ROWS (honestRow S sk))
    (publicValues (SetupStatement.forKey S sk)) where
  height := List.length_replicate
  width row hrow := by
    rw [List.eq_of_mem_replicate hrow]
    exact honestRow_length sk
  public_values := List.length_ofFn
  rules r hr := by
    have hrules := rules_row (S := S) sk
    change Rules S _ fun i => col (publicValues (SetupStatement.forKey S sk)) i
    rw [getD_replicate_row sk hr, col_publicValues]
    exact hrules

/-- The prover's table opens `pk` to its key. -/
theorem keyOpenings_trace (sk : SecretKey) :
    keyOpenings (List.replicate ROWS (honestRow S sk)) ⊆ {keyElements (packKey sk)} := by
  rintro x ⟨r, hr, rfl⟩
  rw [getD_replicate_row sk hr]
  exact honestRow_opened sk

/-! ## Any table -/

/-- A table that passes the rules opens `pk` to a key. -/
theorem exists_key_of_holds {statement : Setup S} {table : List (List Val)}
    (h : (air S).Holds table (publicValues statement)) :
    ∃ sk, statement.pk = keyCommit sk ∧ keyElements (packKey sk) ∈ keyOpenings table := by
  have hr : 0 < ROWS := by norm_num
  have hrules : Rules S (table.getD 0 []) statement.pk.digest := by
    rw [← col_publicValues]
    exact h.rules 0 hr
  obtain ⟨sk, -, hopened, hdigest⟩ := hrules.sound (h.row_length hr)
  refine ⟨sk, ?_, 0, hr, hopened.symm⟩
  exact (Commitment.eq_of_digest hdigest).symm

/-! ## The prover and the verifier -/

/-- The prover: checks the key first. -/
def prove (stark : Stark Val) (coins : stark.Coins) (statement : Setup S) (sk : SecretKey) :
    Option (Except (ProveError stark) stark.Proof) := do
  if !(← statement.holdsFor sk) then
    some (.error .WrongWitness)
  else
    let table ← setupTrace S sk
    some (Plonky3.proved (stark.prove coins (air S) table (publicValues statement)))

/-- The verifier. -/
def verify (stark : Stark Val) (statement : Setup S) (proof : stark.Proof) :
    Except (VerifyError stark) Unit :=
  Plonky3.verified (stark.verify (air S) (publicValues statement) proof)

/-- A key satisfies the setup statement exactly when `pk` is its commitment. -/
theorem holdsFor_eq (statement : Setup S) (sk : SecretKey) :
    statement.holdsFor sk = some (decide (keyCommit sk = statement.pk)) := by
  have hiff : statement.holdsFor sk = some true ↔ keyCommit sk = statement.pk :=
    Key.holds_eq_some_true
  obtain ⟨b, hb⟩ : ∃ b, statement.holdsFor sk = some b := ⟨_, rfl⟩
  rw [hb, Option.some.injEq] at hiff ⊢
  exact Bool.eq_iff_iff.mpr (hiff.trans decide_eq_true_iff.symm)

/-- The prover refuses a key that `pk` is not the commitment of, and hands Plonky3 the table of one
that it is. -/
theorem prove_eq (stark : Stark Val) (coins : stark.Coins) (statement : Setup S) (sk : SecretKey) :
    prove stark coins statement sk = some (if keyCommit sk = statement.pk then
      Plonky3.proved (stark.prove coins (air S) (List.replicate ROWS (honestRow S sk))
        (publicValues statement)) else .error .WrongWitness) := by
  unfold prove
  rw [holdsFor_eq, setupTrace_eq]
  by_cases h : keyCommit sk = statement.pk
  · simp [h]
  · simp [h]

/-- A complete proof system proves the setup statement of a key, and accepts the proof. -/
theorem prove_of_complete {stark : Stark Val} (hstark : stark.Complete) (coins : stark.Coins)
    (sk : SecretKey) : ∃ proof, prove stark coins (SetupStatement.forKey S sk) sk = some (.ok proof) ∧
      verify stark (SetupStatement.forKey S sk) proof = .ok () := by
  obtain ⟨proof, hproof, hverify⟩ := hstark coins (air S) _ _ (holds_trace sk)
  refine ⟨proof, ?_, Plonky3.verified_eq_ok.mpr hverify⟩
  have hpk : keyCommit sk = (SetupStatement.forKey S sk).pk := rfl
  rw [prove_eq, if_pos hpk, hproof]
  rfl

/-- The setup circuit is (K): for each `pk`, some table passes every rule exactly when `pk` is the
commitment to a key of bits. The prover refuses a key that `pk` is not the commitment to, and hands
Plonky3 such a table for one that it is. -/
theorem setup_circuit (statement : Setup S) :
    ((∃ table, (air S).Holds table (publicValues statement)) ↔
      ∃ sk : SecretKey, statement.pk = keyCommit sk) ∧
    ∀ (stark : Stark Val) (coins : stark.Coins) (sk : SecretKey),
      (statement.pk ≠ keyCommit sk → prove stark coins statement sk = some (.error .WrongWitness)) ∧
      (statement.pk = keyCommit sk → ∃ table, (air S).Holds table (publicValues statement) ∧
        setupTrace S sk = some table ∧ prove stark coins statement sk =
          some (Plonky3.proved (stark.prove coins (air S) table (publicValues statement)))) := by
  constructor
  · constructor
    · rintro ⟨table, h⟩
      obtain ⟨sk, hpk, -⟩ := exists_key_of_holds h
      exact ⟨sk, hpk⟩
    · rintro ⟨sk, hpk⟩
      obtain rfl : statement = SetupStatement.forKey S sk := congrArg SetupStatement.mk hpk
      exact ⟨_, holds_trace sk⟩
  · intro stark coins sk
    rw [prove_eq, setupTrace_eq]
    constructor
    · intro hne
      rw [if_neg fun h => hne h.symm]
    · intro hpk
      obtain rfl : statement = SetupStatement.forKey S sk := congrArg SetupStatement.mk hpk
      exact ⟨_, holds_trace sk, rfl, by rw [if_pos hpk.symm]⟩

end KeyAir

end PoolOprf

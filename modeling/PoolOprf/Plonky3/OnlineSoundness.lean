import PoolOprf.Plonky3.OnlineCompleteness
import PoolOprf.Lib.Binding

/-!
# Soundness of the online circuit

A table that passes the rules of the online circuit opens `pk` and `m^v` on every row, and a `d` on
each. `keyOpenings`, `maskSumOpenings`, and `padOpenings` are what it opens them to. Where no two
openings of `pk`, nor of `m^v`, collide, every row has the same key and the same mask sums
(`key_eq`, `mask_sum_eq`), so that (A) and (R) of each row say the same of each entry
(`RowRules.response_eq`): `pinned_of_holds`. `online_sound` is the statement for any table, with the
collisions as the other cases.
-/

namespace PoolOprf

open Row Bits Panic Air Binding

variable {S : Permutations}

namespace OnlineAir

/-! ## What a table opens -/

/-- Row `r` of a table. -/
def rowAt (table : List (List Val)) (r : ℕ) : List Val := table.getD r []

/-- What the rows of a table open `pk` to. -/
def keyOpenings (S : Permutations) (table : List (List Val)) : Set (List Val) :=
  {x | ∃ r < ROWS, x = KeyAir.opened (columns (rowAt table r) KEY (MASK_SUM S))}

/-- What the rows of a table open `m^v` to. -/
def maskSumOpenings (S : Permutations) (table : List (List Val)) : Set (List Val) :=
  {x | ∃ r < ROWS, x = MaskSumAir.opened (columns (rowAt table r) (MASK_SUM S) (SUM S))}

/-- What the rows of a table open the `d` to. -/
def padOpenings (S : Permutations) (table : List (List Val)) : Set (List Val) :=
  {x | ∃ r < ROWS, x = PadsAir.opened (columns (rowAt table r) (PADS S) (NUM_COLS S))}

/-! ## One row -/

section Row

variable {row : List Val} {u : Fin RUNS_PER_EVALUATION → Val} {pk m d : Fin DIGEST_ELEMENTS → Val}
  {eCols : Fin N → Val} {jCol yCol : Val}

theorem key_length (hrow : row.length = NUM_COLS S) :
    (columns row KEY (MASK_SUM S)).length = KeyAir.NUM_COLS S := by
  rw [columns_length (by rw [hrow]; unfold NUM_COLS PADS RESPONSE SUM; omega), MASK_SUM]
  omega

theorem mask_sum_length (hrow : row.length = NUM_COLS S) :
    (columns row (MASK_SUM S) (SUM S)).length = MaskSumAir.NUM_COLS S := by
  rw [columns_length (by rw [hrow]; unfold NUM_COLS PADS RESPONSE; omega), SUM]
  omega

theorem sum_length (hrow : row.length = NUM_COLS S) :
    (columns row (SUM S) (RESPONSE S)).length = SumAir.NUM_COLS := by
  rw [columns_length (by rw [hrow]; unfold NUM_COLS PADS; omega), RESPONSE]
  omega

theorem response_length (hrow : row.length = NUM_COLS S) :
    (columns row (RESPONSE S) (PADS S)).length = ResponseAir.NUM_COLS := by
  rw [columns_length (by rw [hrow]; unfold NUM_COLS; omega), PADS]
  omega

theorem pads_length (hrow : row.length = NUM_COLS S) :
    (columns row (PADS S) (NUM_COLS S)).length = PadsAir.NUM_COLS S := by
  rw [columns_length hrow.ge, NUM_COLS]
  omega

/-- The entry of the response that a row is for, from the key and the mask sum that it opens. -/
theorem RowRules.response_eq {k : Fin RUNS_PER_EVALUATION} {j : Fin DELTA} {sk : SecretKey}
    {e : Fin N → Zq} {y : Zp} {r pad : Val} (hrow : row.length = NUM_COLS S)
    (h : RowRules S row (picks k) pk m eCols jCol yCol d)
    (hsk : columns (columns row KEY (MASK_SUM S)) 0 KEY_BITS = keyColumns sk)
    (hr : col (columns row (MASK_SUM S) (SUM S)) (MaskSumAir.R_SIGMA + k) = r) (hrlt : r.val < Q)
    (he : ∀ i, eCols i = ((e i).toNat : Val)) (helt : ∀ i, (e i).toNat < Q)
    (hj : jCol = ((j : ℕ) : Val)) (hy : yCol = (y.toNat : Val))
    (hpad : col (columns row (PADS S) (NUM_COLS S)) PadsAir.PAD = pad) (hpadlt : pad.val < P) :
    y.toNat = (Lwr.nearest DELTA
      (((∑ i, (sk.bit i).toNat * (e i).toNat + r.val) % Q + Q - j) % Q) + pad.val) % P := by
  have hcast : ∀ x : Val, ((x.val : ℕ) : Val) = x := ZMod.natCast_zmod_val
  -- The key bits that (A) reads are those that (K) opens.
  have hsum := h.sum.sound (sum_length hrow) (fun i => KeyAir.col_key hsk i) he helt
    (by rw [h.r_sigma_sum, select_picks, hr, hcast]) hrlt
  exact h.response.sound (response_length hrow) (h.a_sigma_sum.trans hsum)
    (Nat.mod_lt _ (by norm_num)) hj j.isLt hy y.toNat_lt (by rw [h.pad, hpad, hcast]) hpadlt

end Row

/-! ## All rows -/

section Table

variable {statement : Online S} {table : List (List Val)}

/-- The rules on the row of an entry, with the statement's values. -/
theorem rowRules_of_holds (h : (air S).Holds table (pubOf statement))
    (k : Fin RUNS_PER_EVALUATION) (j : Fin DELTA) :
    RowRules S (rowAt table (rowOf k j)) (picks k) statement.pk.digest statement.m.digest
      (fun i => (((statement.runs k).e i).toNat : Val)) (j : ℕ)
      (((statement.runs k).y j).toNat : Val)
      ((statement.runs k).d (padPosition j (statement.runs k).b_bar_prime)).digest := by
  have hrules := h.rules (rowOf k j) (rowOf_lt k j)
  have hat := rules_at (S := S) (table.getD (rowOf k j) [])
    (table.getD ((rowOf k j + 1) % (air S).height) []) (pubOf statement) k j
  simp only [pubOf_pk, pubOf_m, runValues_pubOf, runPart_e, runPart_y, runPart_d] at hat
  exact hat.mp hrules

/-- A row has the circuit's columns. -/
theorem rowAt_length {pub : List Val} (h : (air S).Holds table pub) {r : ℕ} (hr : r < ROWS) :
    (rowAt table r).length = NUM_COLS S := h.row_length hr

/-- Without a collision, every row holds the key that `pk` commits to. -/
theorem key_eq (h : (air S).Holds table (pubOf statement))
    (hkey : ¬ Collision (Commitment.commit : List Val → KeyCommitment S) (keyOpenings S table)) :
    ∃ sk, statement.pk = keyCommit sk ∧ keyElements (packKey sk) ∈ keyOpenings S table ∧
      ∀ k j, columns (columns (rowAt table (rowOf k j)) KEY (MASK_SUM S)) 0 KEY_BITS =
        keyColumns sk := by
  have hrow : ∀ k j, ∃ sk, columns (columns (rowAt table (rowOf k j)) KEY (MASK_SUM S)) 0 KEY_BITS =
      keyColumns sk ∧ KeyAir.opened (columns (rowAt table (rowOf k j)) KEY (MASK_SUM S)) =
        keyElements (packKey sk) ∧ keyCommit sk = statement.pk := by
    intro k j
    obtain ⟨sk, hbits, hopened, hdigest⟩ := (rowRules_of_holds h k j).key.sound
      (key_length (rowAt_length h (rowOf_lt k j)))
    exact ⟨sk, hbits, hopened, Commitment.eq_of_digest hdigest⟩
  obtain ⟨sk, -, hopened, hpk⟩ := hrow 0 0
  have hmem : ∀ k j sk', KeyAir.opened (columns (rowAt table (rowOf k j)) KEY (MASK_SUM S)) =
      keyElements (packKey sk') → keyElements (packKey sk') ∈ keyOpenings S table :=
    fun k j sk' hsk' => ⟨rowOf k j, rowOf_lt k j, hsk'.symm⟩
  refine ⟨sk, hpk.symm, hmem 0 0 sk hopened, fun k j => ?_⟩
  obtain ⟨sk', hbits', hopened', hpk'⟩ := hrow k j
  have hcommit : (Commitment.commit (keyElements (packKey sk')) : KeyCommitment S) =
      Commitment.commit (keyElements (packKey sk)) := hpk'.trans hpk.symm
  have heq := eq_of_digest_eq hkey (hmem k j sk' hopened') (hmem 0 0 sk hopened) hcommit
  rw [hbits', packKey_elements_inj heq]

/-- Without a collision, every row has the mask sums that `m^v` opens to. -/
theorem mask_sum_eq (h : (air S).Holds table (pubOf statement))
    (hsum : ¬ Collision (Commitment.commit : List Val → MaskSumCommitment S)
      (maskSumOpenings S table)) :
    ∃ (r : Fin RUNS_PER_EVALUATION → Val) (randomness : List Val),
      randomness.length = RANDOMNESS_ELEMENTS ∧
      statement.m.OpensIn (maskSumOpenings S table) (List.ofFn r) randomness ∧
      ∀ k j (i : Fin RUNS_PER_EVALUATION), col (columns (rowAt table (rowOf k j)) (MASK_SUM S) (SUM S))
        (MaskSumAir.R_SIGMA + i) = r i := by
  have hwide : 32 ≤ S.wide.COLS := S.wide.width_le
  have hlen : ∀ k j, (columns (rowAt table (rowOf k j)) (MASK_SUM S) (SUM S)).length =
      0 + S.wide.COLS := fun k j => mask_sum_length (rowAt_length h (rowOf_lt k j))
  have hopen : ∀ k j, Commitment.commit (MaskSumAir.opened
      (columns (rowAt table (rowOf k j)) (MASK_SUM S) (SUM S))) = statement.m := fun k j =>
    Commitment.eq_of_digest ((rowRules_of_holds h k j).mask_sum.sound (hlen k j))
  have hmem : ∀ k j, MaskSumAir.opened
      (columns (rowAt table (rowOf k j)) (MASK_SUM S) (SUM S)) ∈ maskSumOpenings S table :=
    fun k j => ⟨rowOf k j, rowOf_lt k j, rfl⟩
  -- The row of run 0, entry 0 stands for all.
  generalize hrow₀ : columns (rowAt table (rowOf 0 0)) (MASK_SUM S) (SUM S) = row₀
  have hlen₀ : row₀.length = 0 + S.wide.COLS := by rw [← hrow₀]; exact hlen 0 0
  have hopened₀ : MaskSumAir.opened row₀ =
      List.ofFn (fun i : Fin RUNS_PER_EVALUATION => col row₀ (MaskSumAir.R_SIGMA + i)) ++
        columns row₀ MaskSumAir.RANDOMNESS (MaskSumAir.RANDOMNESS + RANDOMNESS_ELEMENTS) :=
    CircuitSponge.values_eq_ofFn RUNS_PER_EVALUATION RANDOMNESS_ELEMENTS (show 22 ≤ _ by omega)
  refine ⟨fun i => col row₀ (MaskSumAir.R_SIGMA + i),
    columns row₀ MaskSumAir.RANDOMNESS (MaskSumAir.RANDOMNESS + RANDOMNESS_ELEMENTS),
    columns_length (show 22 ≤ _ by omega), ⟨?_, ?_⟩, fun k j i => ?_⟩
  · rw [← hopened₀, ← hrow₀]
    exact hmem 0 0
  · rw [← hopened₀, ← hrow₀, hopen 0 0]
  · have heq := eq_of_digest_eq hsum (hmem k j) (hmem 0 0) ((hopen k j).trans (hopen 0 0).symm)
    have hi : i.val < 16 := i.isLt
    have hcol : ∀ row : List Val, col (MaskSumAir.opened row) i = col row (1 + i) := fun row =>
      col_columns row 1 22 i (by omega)
    have hi₀ := congrArg (fun l => col l i.val) heq
    rw [← hrow₀]
    exact (hcol _).symm.trans (hi₀.trans (hcol _))

/-- What a table without a collision of a key or a mask-sum commitment says of the statement. -/
structure Pinned (statement : Online S) (table : List (List Val)) (sk : SecretKey)
    (r : Fin RUNS_PER_EVALUATION → Val) : Prop where
  /-- `pk` opens to the key. -/
  pk : statement.pk = keyCommit sk
  /-- The table opens it so. -/
  key_mem : keyElements (packKey sk) ∈ keyOpenings S table
  /-- `m^v` opens to the mask sums. -/
  m : ∃ randomness : List Val, randomness.length = RANDOMNESS_ELEMENTS ∧
    statement.m.OpensIn (maskSumOpenings S table) (List.ofFn r) randomness
  /-- Each entry of a response is the one for the key, the mask sum, and the pad that `d` opens
  to, where these are reduced. -/
  y : ∀ k, (r k).val < Q → ∀ j, ∃ (pad : Val) (randomness : List Val),
    randomness.length = RANDOMNESS_ELEMENTS ∧
    ((statement.runs k).d (padPosition j (statement.runs k).b_bar_prime)).OpensIn
      (padOpenings S table) [pad] randomness ∧
    (pad.val < P → ((statement.runs k).y j).toNat = (Lwr.nearest DELTA
      (((∑ i, (sk.bit i).toNat * ((statement.runs k).e i).toNat + (r k).val) % Q + Q - j) % Q) +
        pad.val) % P)

/-- A table that passes the rules pins the statement down. -/
theorem pinned_of_holds (he : ∀ k i, ((statement.runs k).e i).toNat < Q)
    (h : (air S).Holds table (pubOf statement))
    (hkey : ¬ Collision (Commitment.commit : List Val → KeyCommitment S) (keyOpenings S table))
    (hsum : ¬ Collision (Commitment.commit : List Val → MaskSumCommitment S)
      (maskSumOpenings S table)) : ∃ sk r, Pinned statement table sk r := by
  obtain ⟨sk, hpk, hmem, hbits⟩ := key_eq h hkey
  obtain ⟨r, randomness, hlen, hm, hr⟩ := mask_sum_eq h hsum
  refine ⟨sk, r, hpk, hmem, ⟨randomness, hlen, hm⟩, fun k hk j => ?_⟩
  have hrow := rowAt_length h (rowOf_lt k j)
  have hrules := rowRules_of_holds h k j
  have hnarrow : 16 ≤ S.narrow.COLS := S.narrow.width_le
  generalize hpadsRow : columns (rowAt table (rowOf k j)) (PADS S) (NUM_COLS S) = padsRow
  have hpadslen : padsRow.length = PadsAir.NUM_COLS S := by rw [← hpadsRow]; exact pads_length hrow
  have hpadscols : padsRow.length = 0 + S.narrow.COLS := hpadslen
  have hopened := PadsAir.opened_eq hpadslen
  refine ⟨col padsRow PadsAir.PAD,
    columns padsRow (PadsAir.PAD + 1) (PadsAir.PAD + 1 + RANDOMNESS_ELEMENTS),
    columns_length (show 7 ≤ _ by omega), ⟨?_, ?_⟩, fun hpad => ?_⟩
  · rw [List.singleton_append, ← hopened, ← hpadsRow]
    exact ⟨rowOf k j, rowOf_lt k j, rfl⟩
  · have hd := hrules.pads.sound (pads_length hrow)
    rw [hpadsRow, hopened] at hd
    exact (Commitment.eq_of_digest hd).symm
  · exact hrules.response_eq hrow (hbits k j) (hr k j k) hk (fun _ => rfl) (he k) rfl rfl
      (by rw [hpadsRow]) hpad

end Table

/-! ## Any table -/

/-- Soundness of the online circuit: a table that passes every rule has a collision of the key or
the mask-sum commitment, or there are a key that `pk` commits to and mask sums that `m^v` opens
to, such that each entry of each run's response is the one for them and for the pad that its `d`
opens to. -/
theorem online_sound (statement : Online S) (he : ∀ k i, ((statement.runs k).e i).toNat < Q)
    (hb : ∀ k, (statement.runs k).b_bar_prime.toNat < DELTA) {pub : List Val}
    (hpub : publicValues statement = some pub) {table : List (List Val)}
    (h : (air S).Holds table pub) :
    Collision (Commitment.commit : List Val → KeyCommitment S) (keyOpenings S table) ∨
    Collision (Commitment.commit : List Val → MaskSumCommitment S) (maskSumOpenings S table) ∨
    ∃ (sk : SecretKey) (r : Fin RUNS_PER_EVALUATION → Val), statement.pk = keyCommit sk ∧
      (∃ randomness : List Val, randomness.length = RANDOMNESS_ELEMENTS ∧
        statement.m = Commitment.commit (List.ofFn r ++ randomness)) ∧
      ∀ k, (r k).val < Q → ∀ j, ∃ pad : Val,
        (∃ randomness : List Val, randomness.length = RANDOMNESS_ELEMENTS ∧
          (statement.runs k).d (padPosition j (statement.runs k).b_bar_prime) =
            Commitment.commit (pad :: randomness)) ∧
        (pad.val < P → ((statement.runs k).y j).toNat = (Lwr.nearest DELTA
          (((∑ i, (sk.bit i).toNat * ((statement.runs k).e i).toNat + (r k).val) % Q + Q - j) % Q) +
            pad.val) % P) := by
  rw [publicValues_eq hb, Option.some.injEq] at hpub
  subst hpub
  -- Without a collision the openings of the whole table agree, so its rows pin one key and one sum
  -- a run.
  by_cases hkey : Collision (Commitment.commit : List Val → KeyCommitment S) (keyOpenings S table)
  · exact .inl hkey
  by_cases hsum : Collision (Commitment.commit : List Val → MaskSumCommitment S)
      (maskSumOpenings S table)
  · exact .inr (.inl hsum)
  obtain ⟨sk, r, hpinned⟩ := pinned_of_holds he h hkey hsum
  refine .inr (.inr ⟨sk, r, hpinned.pk, ?_, fun k hk j => ?_⟩)
  · obtain ⟨randomness, hlen, -, hm⟩ := hpinned.m
    exact ⟨randomness, hlen, hm⟩
  · obtain ⟨pad, randomness, hlen, ⟨-, hd⟩, hy⟩ := hpinned.y k hk j
    exact ⟨pad, ⟨randomness, hlen, hd⟩, hy⟩

/-! ## What the prover's table opens -/

section Trace

variable {statement : Online S} {witness : OnlineWitness} {table : List (List Val)}

/-- A row of the prover's table is the prover's row of an entry of a run. -/
theorem rowAt_trace (h : statement.Holds witness) (htrace : trace statement witness = some table) {r : ℕ}
    (hr : r < ROWS) : ∃ k j, rowAt table r = honestRow statement witness k j := by
  rw [trace_eq fun k => (h.runs k).b_bar_prime] at htrace
  obtain rfl := Option.some.inj htrace
  obtain ⟨k, j, rfl⟩ := exists_rowOf hr
  exact ⟨k, j, trace_row k j⟩

/-- Where proofs are tables, the prover's proof is its table. -/
theorem trace_of_prove {coins : (Stark.transparent Val).Coins} {proof : (Stark.transparent Val).Proof}
    (h : prove (Stark.transparent Val) coins statement witness = some (.ok proof)) :
    trace statement witness = some proof := by
  rcases prove_cases (Stark.transparent Val) coins statement witness with
    ⟨-, hfailed⟩ | ⟨table, pub, htrace, -, -, hproved⟩
  · rw [hfailed] at h
    cases h
  · rw [hproved] at h
    obtain rfl : table = proof := Except.ok.inj (Option.some.inj h)
    exact htrace

/-- The prover's table opens `pk` to its key. -/
theorem keyOpenings_trace (h : statement.Holds witness) (htrace : trace statement witness = some table) :
    keyOpenings S table ⊆ {keyElements (packKey witness.sk)} := by
  rintro x ⟨r, hr, rfl⟩
  obtain ⟨k, j, hrow⟩ := rowAt_trace h htrace hr
  rw [hrow, honestRow_key]
  exact KeyAir.honestRow_opened witness.sk

/-- The prover's table opens `m^v` to its mask sums. -/
theorem maskSumOpenings_trace (h : statement.Holds witness)
    (htrace : trace statement witness = some table) :
    maskSumOpenings S table ⊆ {maskSumElements ⟨witness.r_sigma_sums, witness.m_randomness⟩} := by
  rintro x ⟨r, hr, rfl⟩
  obtain ⟨k, j, hrow⟩ := rowAt_trace h htrace hr
  rw [hrow, honestRow_mask_sum]
  exact MaskSumAir.honestRow_opened _

/-- The prover's table opens the `d` to its pads. -/
theorem padOpenings_trace (h : statement.Holds witness) (htrace : trace statement witness = some table) :
    padOpenings S table ⊆ {x | ∃ k b, x = padElements
      ⟨(witness.runs k).pads b, (witness.runs k).d_randomness b⟩} := by
  rintro x ⟨r, hr, rfl⟩
  obtain ⟨k, j, hrow⟩ := rowAt_trace h htrace hr
  refine ⟨k, padPosition j (statement.runs k).b_bar_prime, ?_⟩
  rw [hrow, honestRow_pads]
  exact PadsAir.honestRow_opened _

end Trace

/-- The witness of all zeros. -/
def zeroWitness : OnlineWitness where
  sk := SecretKey.ofBool fun _ => false
  m_randomness := 0
  runs _ := { r_sigma_sum := 0, pads := fun _ => 0, d_randomness := fun _ => 0 }

/-- The honest statement for the witness of all zeros and a request of all zeros. -/
def zeroStatement : Online Permutations.identity :=
  OnlineStatement.ofWitness zeroWitness (fun _ _ => 0) fun _ => 0

theorem zeroStatement_holds : zeroStatement.Holds zeroWitness :=
  OnlineStatement.ofWitness_holds (fun _ => show (0 : UInt16).toNat < 4096 by decide)
    (fun _ _ => show (0 : UInt16).toNat < 4096 by decide)
    fun _ => show (0 : UInt8).toNat < 16 by decide

theorem online_sound_zeroStatement : ∃ table,
    (air Permutations.identity).Holds table (pubOf zeroStatement) ∧
    (Collision (Commitment.commit : List Val → KeyCommitment Permutations.identity)
        (keyOpenings Permutations.identity table) ∨
      Collision (Commitment.commit : List Val → MaskSumCommitment Permutations.identity)
        (maskSumOpenings Permutations.identity table) ∨
      ∃ sk, zeroStatement.pk = keyCommit sk) := by
  have hb : ∀ k, (zeroStatement.runs k).b_bar_prime.toNat < DELTA := fun k =>
    (OnlineStatement.Holds.runs zeroStatement_holds k).b_bar_prime
  refine ⟨_, holds_of_holds zeroStatement_holds, ?_⟩
  rcases online_sound zeroStatement (fun k => (OnlineStatement.Holds.runs zeroStatement_holds k).e) hb
    (publicValues_eq hb) (holds_of_holds zeroStatement_holds) with h | h | ⟨sk, r, hpk, -, -⟩
  · exact .inl h
  · exact .inr (.inl h)
  · exact .inr (.inr ⟨sk, hpk⟩)

end OnlineAir

end PoolOprf

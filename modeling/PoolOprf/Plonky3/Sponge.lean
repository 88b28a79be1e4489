import PoolOprf.Voprf.Commitments

/-!
# The sponge in a circuit

`CircuitSponge` of `pool-voprf/src/plonky3/sponge.rs`. In a circuit, one permutation opens one
commitment: its input columns are the domain, the values, and zeros, and it ends in the digest.
`EvalCommitment.hash_eq` says that columns that pass these rules open the digest, and
`evalCommitment_generate` that the columns that the prover fills in pass them.
-/

namespace PoolOprf

open Row

namespace CircuitSponge

variable {W : ℕ} (sponge : Poseidon2 W)

/-- Hashes `input`, which fits in one permutation, and returns the permutation's columns. -/
def trace (input : List Val) : Option (List Val) :=
  if input.length ≤ W - CAPACITY then some (sponge.generate (Poseidon2.state W input)) else none

/-- An input that fits in one permutation. -/
theorem trace_eq {input : List Val} (h : input.length ≤ W - CAPACITY) :
    trace sponge input = some (sponge.generate (Poseidon2.state W input)) := if_pos h

/-- The rules of a commitment at column `first`. -/
structure EvalCommitment (row : List Val) (first : ℕ) (domain : Val) (len : ℕ)
    (digest : Fin DIGEST_ELEMENTS → Val) : Prop where
  /-- Plonky3's rules for the permutation. -/
  air : sponge.air (columns row first (first + sponge.COLS))
  /-- The input starts with the domain. -/
  domain : col row first = domain
  /-- After the values, the input is zeros. -/
  zeros : ∀ zero ∈ columns row (first + 1 + len) (first + W), zero = 0
  /-- The permutation ends in the digest. -/
  digest : ∀ i : Fin DIGEST_ELEMENTS, col row (first + (sponge.post + i)) = digest i

/-- The values that the columns of a commitment open. -/
def values (row : List Val) (first len : ℕ) : List Val :=
  columns row (first + 1) (first + 1 + len)

/-- Opened values are some numbers and then a random value. -/
theorem values_eq_ofFn {row : List Val} {first : ℕ} (n m : ℕ) (h : first + 1 + (n + m) ≤ row.length) :
    values row first (n + m) = List.ofFn (fun k : Fin n => col row (first + 1 + k)) ++
      columns row (first + 1 + n) (first + 1 + (n + m)) := by
  have hlen : (columns row (first + 1) (first + 1 + n)).length = n := by
    rw [columns_length (by omega)]
    omega
  rw [values, ← columns_append_columns row (b := first + 1 + n) (by omega) (by omega),
    ← ofFn_col hlen]
  congr 2
  funext k
  have hk := k.isLt
  exact col_columns row _ _ _ (by omega)

variable {sponge} {row : List Val} {first len : ℕ} {domain : Val}
  {digest : Fin DIGEST_ELEMENTS → Val}

/-- Columns that pass the rules of a commitment open its digest. -/
theorem EvalCommitment.hash_eq (h : EvalCommitment sponge row first domain len digest)
    (hrow : first + sponge.COLS ≤ row.length) (hlen : 1 + len ≤ W) (hcap : CAPACITY ≤ W) :
    sponge.hash (domain :: values row first len) = digest := by
  have hW := sponge.width_le
  have hpost := sponge.post_le
  -- The permutation's input is the domain, the values, and zeros.
  have hzeros : columns row (first + 1 + len) (first + W) = List.replicate (W - (1 + len)) 0 := by
    refine List.eq_replicate_iff.mpr ⟨?_, h.zeros⟩
    rw [columns_length (by omega)]
    omega
  have hvalues : (values row first len).length = len := by
    rw [values, columns_length (by omega)]
    omega
  have hinput : columns row first (first + W) =
      Poseidon2.state W (domain :: values row first len) := by
    rw [Poseidon2.state, List.length_cons, hvalues, Nat.add_comm len 1, ← hzeros, values,
      ← h.domain, ← columns_append_columns row (b := first + 1) (by omega) (by omega),
      ← columns_append_columns row (a := first + 1) (b := first + 1 + len) (by omega) (by omega),
      columns_one (by omega)]
    rfl
  have hout := sponge.air_sound (columns row first (first + sponge.COLS))
    (by rw [columns_length hrow]; omega) h.air
  rw [columns_columns row _ _ _ _ (by omega), columns_columns row _ _ _ _ (by omega), Nat.add_zero,
    hinput] at hout
  funext i
  have hi : i.val < CAPACITY := i.isLt
  rw [Poseidon2.hash, ← hout, col_columns row _ _ _ (by omega), ← h.digest i, Nat.add_assoc]

/-- The columns that the prover fills in pass the rules, and open the values they were made from. -/
theorem evalCommitment_generate (sponge : Poseidon2 W) (domain : Val) (before after : List Val)
    {values : List Val}
    (hvalues : values.length = len) (hlen : 1 + len ≤ W) (hcap : CAPACITY ≤ W) :
    EvalCommitment sponge
      (before ++ (sponge.generate (Poseidon2.state W (domain :: values)) ++ after))
      before.length domain len (sponge.hash (domain :: values)) := by
  have hW := sponge.width_le
  have hpost := sponge.post_le
  have hstate : (Poseidon2.state W (domain :: values)).length = W :=
    Poseidon2.state_length (by rw [List.length_cons, hvalues]; omega)
  generalize hgen : sponge.generate (Poseidon2.state W (domain :: values)) = gen
  have hgenlen : gen.length = sponge.COLS := by rw [← hgen, sponge.generate_length _ hstate]
  have hinput : columns gen 0 W = Poseidon2.state W (domain :: values) := by
    rw [← hgen, sponge.generate_input _ hstate]
  have hair : sponge.air gen := by rw [← hgen]; exact sponge.generate_air _ hstate
  have hcolumns : ∀ a b, b ≤ sponge.COLS →
      columns (before ++ (gen ++ after)) (before.length + a) (before.length + b) =
        columns gen a b := fun a b hb => columns_middle before gen after (by omega)
  have hcol : ∀ c < sponge.COLS,
      col (before ++ (gen ++ after)) (before.length + c) = col gen c :=
    fun c hc => col_middle before gen after (by omega)
  -- The permutation, the domain, the padding with zeros and the digest.
  refine ⟨?_, ?_, ?_, ?_⟩
  · have h := hcolumns 0 sponge.COLS le_rfl
    rw [Nat.add_zero] at h
    rw [h, columns_all hgenlen]
    exact hair
  · have h := hcol 0 (by omega)
    rw [Nat.add_zero] at h
    rw [h, ← Nat.zero_add 0, ← col_columns gen 0 W 0 (by omega), hinput]
    rfl
  · rw [Nat.add_assoc, hcolumns (1 + len) W hW]
    have hdrop : columns gen (1 + len) W = List.replicate (W - (1 + len)) 0 := by
      have h := columns_columns gen 0 W (1 + len) W (by omega)
      rw [Nat.zero_add, Nat.zero_add] at h
      rw [← h, hinput, Poseidon2.state, List.length_cons, hvalues]
      have happ := columns_append_right (domain :: values)
        (List.replicate (W - (len + 1)) (0 : Val)) 0 (W - (len + 1))
      rw [List.length_cons, hvalues, Nat.add_zero, show len + 1 + (W - (len + 1)) = W by omega,
        columns_all (by simp)] at happ
      rw [Nat.add_comm 1 len, happ]
    rw [hdrop]
    exact fun x hx => List.eq_of_mem_replicate hx
  · intro i
    have hi : i.val < CAPACITY := i.isLt
    rw [hcol _ (by omega), Poseidon2.hash, ← hinput, ← sponge.air_sound gen hgenlen hair,
      col_columns gen _ _ _ (by omega)]

/-- The values that the prover's columns open. -/
theorem values_generate (sponge : Poseidon2 W) (domain : Val) (before after : List Val)
    {values' : List Val}
    (hvalues : values'.length = len) (hlen : 1 + len ≤ W) :
    values (before ++ (sponge.generate (Poseidon2.state W (domain :: values')) ++ after))
      before.length len = values' := by
  have hW := sponge.width_le
  have hstate : (Poseidon2.state W (domain :: values')).length = W :=
    Poseidon2.state_length (by rw [List.length_cons, hvalues]; omega)
  have hgenlen := sponge.generate_length _ hstate
  rw [values, Nat.add_assoc, columns_middle before _ after (by omega)]
  have hgen := columns_columns (sponge.generate (Poseidon2.state W (domain :: values')))
    0 W 1 (1 + len) (by omega)
  rw [Nat.zero_add, Nat.zero_add, sponge.generate_input _ hstate] at hgen
  have happ := columns_middle [domain] values'
    (List.replicate (W - (domain :: values').length) 0) (a := 0) (b := len) (by omega)
  rw [List.length_singleton, Nat.add_zero, List.singleton_append, columns_all hvalues] at happ
  rw [← hgen, Poseidon2.state, List.cons_append, happ]

end CircuitSponge

end PoolOprf

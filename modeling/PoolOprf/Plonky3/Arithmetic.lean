import PoolOprf.Eval
import PoolOprf.Plonky3.Openings

/-!
# The circuits of the sums and of the response

(A), (R), and (T) of `pool-voprf/src/plonky3/constraints/`. They compute with numbers in bit
columns, and every equation between field elements is between numbers that stay below the field's
prime, so it is an equation between numbers. `Rules.sound` of (A) and of (R) say what a row that
passes the rules says about the numbers it is for, and `rules_row` that the prover's row passes.
(T) is a recurrence down the rows of an evaluation: `sums_eq` follows the sum from row to row, and
`r_sigma_eq` reads off the last one.
-/

namespace PoolOprf

open Row Bits Panic

/-! ## (A) -/

namespace SumAir

/-- Where the mask sum is. -/
abbrev R_SIGMA : ℕ := 0

/-- Where the bits of `ã_Σ` start. -/
abbrev A_SIGMA : ℕ := R_SIGMA + 1

/-- How many bits `ã_Σ` has. -/
abbrev A_SIGMA_BITS : ℕ := LOG_Q

/-- Where the bits of the quotient start. -/
abbrev QUOTIENT : ℕ := A_SIGMA + A_SIGMA_BITS

/-- The quotient is at most `n`. -/
abbrev QUOTIENT_BITS : ℕ := N_BITS

/-- The columns of (A). -/
abbrev NUM_COLS : ℕ := QUOTIENT + QUOTIENT_BITS

/-- The row for a key, a mask sum, and a request. -/
def row (sk : SecretKey) (r_sigma_sum : Zq) (e : Fin N → Zq) : Option (List Val) := do
  let first_sum ← checkedSum ACCUM (List.ofFn fun i => if sk.bits i = 0 then 0 else (e i).toNat)
  let sum ← checkedSum ACCUM [first_sum, r_sigma_sum.toNat]
  some ((r_sigma_sum.toNat : Val) ::
    (bits (reduceQ sum).toNat A_SIGMA_BITS ++ bits (quotientQ sum) QUOTIENT_BITS))

/-- The rules for (A) on the row, for the key bits and the request. -/
structure Rules (row : List Val) (sk e : Fin N → Val) : Prop where
  /-- The bit columns are bits. -/
  bits : ∀ bit ∈ columns row A_SIGMA QUOTIENT ++ columns row QUOTIENT NUM_COLS, AssertBool bit
  /-- `S = ã_Σ + q·quotient`. -/
  sum : ∑ i, sk i * e i + col row R_SIGMA =
    packBitsLe (columns row A_SIGMA QUOTIENT) +
      packBitsLe (columns row QUOTIENT NUM_COLS) * (Q : Val)

/-- `ã_Σ` of a row. -/
def aSigma (row : List Val) : Val := packBitsLe (columns row A_SIGMA QUOTIENT)

/-- A selected sum of reduced numbers is below the field's prime. -/
theorem select_sum_le {e : Fin N → ℕ} (sk : SecretKey) (he : ∀ i, e i < Q) :
    ∑ i, (sk.bit i).toNat * e i ≤ 482 * 4095 := by
  calc ∑ i, (sk.bit i).toNat * e i ≤ ∑ _i : Fin N, 4095 := by
        refine Finset.sum_le_sum fun i _ => ?_
        have hi : e i < 4096 := he i
        cases sk.bit i
        · simp
        · simp only [Bool.toNat_true, one_mul]
          omega
    _ = 482 * 4095 := by rw [Finset.sum_const, Finset.card_univ, Fintype.card_fin, smul_eq_mul]

/-- A row that passes the rules has the sum mod `q`. -/
theorem Rules.sound {row : List Val} {sk : SecretKey} {skCols eCols : Fin N → Val}
    {e : Fin N → ℕ} {r : ℕ} (hrow : row.length = NUM_COLS) (h : Rules row skCols eCols)
    (hsk : ∀ i, skCols i = ((sk.bits i).toNat : Val)) (he : ∀ i, eCols i = (e i : Val))
    (helt : ∀ i, e i < Q) (hr : col row R_SIGMA = (r : Val)) (hrlt : r < Q) :
    aSigma row = (((∑ i, (sk.bit i).toNat * e i + r) % Q : ℕ) : Val) := by
  have hcols : row.length = 22 := hrow
  obtain ⟨a, halt, -, ha⟩ := exists_packBitsLe (columns row A_SIGMA QUOTIENT) 12
    (columns_length (show 13 ≤ row.length by omega))
    (fun bit hbit => h.bits bit (List.mem_append_left _ hbit))
  obtain ⟨quotient, hqlt, -, hq⟩ := exists_packBitsLe (columns row QUOTIENT NUM_COLS) 9
    (columns_length (show 22 ≤ row.length by omega))
    (fun bit hbit => h.bits bit (List.mem_append_right _ hbit))
  have hle := select_sum_le sk helt
  have hrlt' : r < 4096 := hrlt
  have hsum : ((∑ i, (sk.bit i).toNat * e i + r : ℕ) : Val) = a + quotient * (4096 : ℕ) := by
    have hrule := h.sum
    rw [hr, show packBitsLe (columns row A_SIGMA QUOTIENT) = (a : Val) from ha,
      show packBitsLe (columns row QUOTIENT NUM_COLS) = (quotient : Val) from hq] at hrule
    rw [← hrule, Nat.cast_add, Nat.cast_sum]
    refine congrArg (· + (r : Val)) (Finset.sum_congr rfl fun i _ => ?_)
    rw [hsk, he, sk.bits_toNat, Nat.cast_mul]
  have hmod := mod_of_natCast_eq (p := BABY_BEAR) (m := 4096)
    (show _ < 2013265921 by omega) (by omega) (show _ < 2013265921 by omega) hsum
  rw [aSigma, show packBitsLe (columns row A_SIGMA QUOTIENT) = (a : Val) from ha, hmod]

/-- The prover's row. -/
def honestRow (sk : SecretKey) (r_sigma_sum : Zq) (e : Fin N → Zq) : List Val :=
  (r_sigma_sum.toNat : Val) ::
    (bits (aSigmaNat sk r_sigma_sum e % Q) A_SIGMA_BITS ++
      bits (aSigmaNat sk r_sigma_sum e / Q) QUOTIENT_BITS)

theorem row_eq (sk : SecretKey) (r_sigma_sum : Zq) (e : Fin N → Zq) :
    row sk r_sigma_sum e = some (honestRow sk r_sigma_sum e) := by
  obtain ⟨first_sum, sum, hfirst, hsum, hval⟩ := aSigmaSum_accum sk r_sigma_sum e
  simp only [row, hfirst, hsum, Option.bind_eq_bind, Option.bind_some, reduceQ_toNat, hval]
  rfl

theorem honestRow_length (sk : SecretKey) (r_sigma_sum : Zq) (e : Fin N → Zq) :
    (honestRow sk r_sigma_sum e).length = NUM_COLS := by
  rw [honestRow, List.length_cons, List.length_append, bits_length, bits_length]
  rfl

theorem honestRow_a_sigma (sk : SecretKey) (r_sigma_sum : Zq) (e : Fin N → Zq) :
    columns (honestRow sk r_sigma_sum e) A_SIGMA QUOTIENT =
      bits (aSigmaNat sk r_sigma_sum e % Q) A_SIGMA_BITS := by
  have h := columns_middle [(r_sigma_sum.toNat : Val)]
    (bits (aSigmaNat sk r_sigma_sum e % Q) A_SIGMA_BITS)
    (bits (aSigmaNat sk r_sigma_sum e / Q) QUOTIENT_BITS) (a := 0) (b := 12) (by simp)
  rwa [columns_all (by simp)] at h

theorem honestRow_quotient (sk : SecretKey) (r_sigma_sum : Zq) (e : Fin N → Zq) :
    columns (honestRow sk r_sigma_sum e) QUOTIENT NUM_COLS =
      bits (aSigmaNat sk r_sigma_sum e / Q) QUOTIENT_BITS := by
  have h := columns_append_right
    ((r_sigma_sum.toNat : Val) :: bits (aSigmaNat sk r_sigma_sum e % Q) A_SIGMA_BITS)
    (bits (aSigmaNat sk r_sigma_sum e / Q) QUOTIENT_BITS) 0 9
  rwa [List.length_cons, bits_length, columns_all (by simp)] at h

/-- The `ã_Σ` of the prover's row. -/
theorem aSigma_honestRow (sk : SecretKey) (r_sigma_sum : Zq) (e : Fin N → Zq) :
    aSigma (honestRow sk r_sigma_sum e) =
      ((reduceQ (aSigmaNat sk r_sigma_sum e)).toNat : Val) := by
  have hlt : aSigmaNat sk r_sigma_sum e % Q < 2 ^ 12 := Nat.mod_lt _ (by norm_num)
  rw [aSigma, honestRow_a_sigma, packBitsLe_bits hlt, reduceQ_toNat]

/-- The prover's row passes the rules when the operands are reduced. -/
theorem rules_row {sk : SecretKey} {r_sigma_sum : Zq} {e : Fin N → Zq}
    (hr : r_sigma_sum.toNat < Q) (he : ∀ i, (e i).toNat < Q) :
    Rules (honestRow sk r_sigma_sum e) (fun i => ((sk.bits i).toNat : Val))
      (fun i => ((e i).toNat : Val)) where
  bits bit hbit := by
    rw [honestRow_a_sigma, honestRow_quotient, List.mem_append] at hbit
    rcases hbit with h | h
    · exact assertBool_of_mem_bits h
    · exact assertBool_of_mem_bits h
  sum := by
    have hle := select_sum_le sk he
    have hnat : aSigmaNat sk r_sigma_sum e =
        ∑ i, (sk.bit i).toNat * (e i).toNat + r_sigma_sum.toNat := by
      refine congrArg (· + r_sigma_sum.toNat) (Finset.sum_congr rfl fun i _ => ?_)
      rw [sk.bits_toNat, Nat.mul_comm]
    have hr' : r_sigma_sum.toNat < 4096 := hr
    have hmod : aSigmaNat sk r_sigma_sum e % Q < 2 ^ 12 := Nat.mod_lt _ (by norm_num)
    -- 482 products of a bit and an element of `ℤ_q`, and one element more, are below `2^9 q`.
    have hdiv : aSigmaNat sk r_sigma_sum e / Q < 2 ^ 9 := by
      rw [Nat.div_lt_iff_lt_mul (by norm_num), hnat]
      show _ < 2 ^ 9 * 4096
      omega
    rw [honestRow_a_sigma, honestRow_quotient, packBitsLe_bits hmod, packBitsLe_bits hdiv,
      ← Nat.cast_mul, ← Nat.cast_add, Nat.mul_comm, Nat.mod_add_div, hnat, Nat.cast_add,
      Nat.cast_sum]
    refine congrArg (· + (r_sigma_sum.toNat : Val)) (Finset.sum_congr rfl fun i _ => ?_)
    rw [sk.bits_toNat, Nat.cast_mul]

end SumAir

/-! ## (R) -/

namespace ResponseAir

/-- Where `ã_Σ` is. -/
abbrev A_SIGMA : ℕ := 0

/-- Where the bits of `t_j` start. -/
abbrev T : ℕ := A_SIGMA + 1

/-- How many bits `t_j` has. -/
abbrev T_BITS : ℕ := LOG_Q

/-- Where the wrap flag is. -/
abbrev WRAPPED : ℕ := T + T_BITS

/-- Where the pad is. -/
abbrev PAD : ℕ := WRAPPED + 1

/-- Where the carry is. -/
abbrev CARRY : ℕ := PAD + 1

/-- The columns of (R). -/
abbrev NUM_COLS : ℕ := CARRY + 1

/-- A flag as a column. -/
def fromBool (b : Bool) : Val := if b then 1 else 0

/-- Whether rounding goes up, from the bits `m` of the remainder. -/
def up (m : List Val) : Val :=
  m.getLastD 0 * (1 - (m.dropLast.map fun bit => 1 - bit).prod)

/-- One entry of a response. -/
def entry (a_sigma_sum : Zq) (pads : Fin DELTA → Zp) (b_bar_prime : Zdelta) (j : ℕ) :
    Option (List Val) := do
  let t ← subQ a_sigma_sum (UInt16.ofNat j)
  let wrapped := decide (a_sigma_sum.toNat < (UInt16.ofNat j).toNat)
  let rounded ← round t
  let pad ← PoolOprf.pad pads j b_bar_prime
  let carry := decide (P ≤ rounded.toNat + pad.toNat)
  some ((a_sigma_sum.toNat : Val) ::
    (bits t.toNat T_BITS ++ [fromBool wrapped, (pad.toNat : Val), fromBool carry]))

/-- The `Δ` entries, one row each: entry `j` on row `j`. -/
def entries (a_sigma_sum : Zq) (pads : Fin DELTA → Zp) (b_bar_prime : Zdelta) :
    Option (List Val) := do
  let rows ← fromFn fun j : Fin DELTA => entry a_sigma_sum pads b_bar_prime j
  some (List.ofFn rows).flatten

/-- The rules for (R) on the row, for its entry `j` and `y_j`. -/
structure Rules (row : List Val) (j y_j : Val) : Prop where
  /-- The bits of `t_j` are bits. -/
  t_bits : ∀ bit ∈ columns row T WRAPPED, AssertBool bit
  /-- The wrap flag is a bit. -/
  wrapped : AssertBool (col row WRAPPED)
  /-- The carry is a bit. -/
  carry : AssertBool (col row CARRY)
  /-- `t_j = ã_Σ - j + q·wrapped`. -/
  t : packBitsLe (columns row T WRAPPED) = col row A_SIGMA - j + col row WRAPPED * (Q : Val)
  /-- `y_j = ⌈t_j⌋ + pad_j - p·carry`. -/
  y : packBitsLe ((columns row T WRAPPED).drop LOG_DELTA) +
      up ((columns row T WRAPPED).take LOG_DELTA) + col row PAD - col row CARRY * (P : Val) = y_j

/-- Rounding goes up when the remainder is above half of `Δ`. -/
theorem up_bits (value : ℕ) :
    up (bits value LOG_DELTA) = ((if DELTA / 2 < value % DELTA then 1 else 0 : ℕ) : Val) := by
  have hsplit : (bits value LOG_DELTA : List Val) =
      bits value 3 ++ [((value / 8 % 2 : ℕ) : Val)] := by
    rw [← List.take_append_drop 3 (bits value LOG_DELTA : List Val),
      show LOG_DELTA = 3 + 1 from rfl, bits_take, bits_drop, bits_succ _ 0, bits_zero]
    norm_num
  have hlast : (bits value 3 ++ [((value / 8 % 2 : ℕ) : Val)]).getLastD 0 =
      ((value / 8 % 2 : ℕ) : Val) := by
    rw [List.getLastD_eq_getLast?, List.getLast?_concat]
    rfl
  rw [hsplit, up, List.dropLast_concat, prod_one_sub_bits, hlast]
  have h2 : value / 8 % 2 = 0 ∨ value / 8 % 2 = 1 := Nat.mod_two_eq_zero_or_one _
  have hmod : value % 16 = value % 8 + 8 * (value / 8 % 2) := by omega
  have hshow : (DELTA / 2 < value % DELTA) = (8 < value % 16) := rfl
  simp only [hshow]
  by_cases h0 : value % 2 ^ 3 = 0
  · have h8 : value % 8 = 0 := h0
    rw [if_pos h0, if_neg (by omega)]
    simp
  · have h8 : value % 8 ≠ 0 := h0
    rw [if_neg h0]
    rcases h2 with h | h
    · rw [h, if_neg (by omega)]
      simp
    · rw [h, if_pos (by omega)]
      simp

/-- What the bits of `t_j` round to. -/
theorem rounded_bits {t : ℕ} (ht : t < Q) :
    packBitsLe ((bits t T_BITS : List Val).drop LOG_DELTA) + up ((bits t T_BITS).take LOG_DELTA) =
      (Lwr.nearest DELTA t : Val) := by
  have hlt : t / 2 ^ 4 < 2 ^ 8 := by
    have h : t < 4096 := ht
    omega
  rw [show T_BITS = LOG_DELTA + 8 from rfl, bits_drop, bits_take, packBitsLe_bits hlt, up_bits,
    ← Nat.cast_add]
  rfl

/-- A row that passes the rules has the response's entry. -/
theorem Rules.sound {row : List Val} {jCol yCol : Val} {a j y pad : ℕ}
    (hrow : row.length = NUM_COLS) (h : Rules row jCol yCol) (ha : col row A_SIGMA = (a : Val))
    (halt : a < Q) (hj : jCol = (j : Val)) (hjlt : j < DELTA) (hy : yCol = (y : Val))
    (hylt : y < P) (hpad : col row PAD = (pad : Val)) (hpadlt : pad < P) :
    y = (Lwr.nearest DELTA ((a + Q - j) % Q) + pad) % P := by
  have hcols : row.length = 16 := hrow
  obtain ⟨t, htlt, htbits, ht⟩ := exists_packBitsLe (columns row T WRAPPED) 12
    (columns_length (show 13 ≤ row.length by omega)) h.t_bits
  obtain ⟨w, hw, hwcol⟩ := exists_bit h.wrapped
  obtain ⟨c, hc, hccol⟩ := exists_bit h.carry
  have halt' : a < 4096 := halt
  have hjlt' : j < 16 := hjlt
  -- `t_j` does not wrap around the prime, on either side.
  have htnat : t + j = a + w * 4096 := by
    have hrule := h.t
    rw [show packBitsLe (columns row T WRAPPED) = (t : Val) from ht, ha, hj, hwcol] at hrule
    refine natCast_inj (p := BABY_BEAR) (show _ < 2013265921 by omega)
      (show _ < 2013265921 by omega) ?_
    push_cast
    rw [hrule]
    ring
  have htval : t = (a + Q - j) % Q := by
    show t = (a + 4096 - j) % 4096
    have hw' : w = 0 ∨ w = 1 := by omega
    rcases hw' with rfl | rfl <;> omega
  -- Nor does the entry.
  have hround : Lwr.nearest DELTA t ≤ 256 := Lwr.nearest_le (p := 256) (show t < 16 * 256 by omega)
  have hypad : pad < 256 := hpadlt
  have hylt' : y < 256 := hylt
  have hynat : Lwr.nearest DELTA t + pad = y + c * 256 := by
    have hrule := h.y
    have hbits : columns row T WRAPPED = bits t T_BITS := htbits
    rw [hbits, rounded_bits (show t < 4096 by omega), hpad, hccol, hy] at hrule
    refine natCast_inj (p := BABY_BEAR) (show _ < 2013265921 by omega)
      (show _ < 2013265921 by omega) ?_
    push_cast
    rw [← hrule]
    push_cast
    ring
  rw [← htval]
  show y = (Lwr.nearest DELTA t + pad) % 256
  omega

/-- The prover's entry. -/
def honestRow (a_sigma_sum : Zq) (pads : Fin DELTA → Zp) (b_bar_prime : Zdelta)
    (j : Fin DELTA) : List Val :=
  let t := (a_sigma_sum.toNat + Q - j) % Q
  let pad := pads (padPosition j b_bar_prime)
  (a_sigma_sum.toNat : Val) ::
    (bits t T_BITS ++ [fromBool (decide (a_sigma_sum.toNat < j)), (pad.toNat : Val),
      fromBool (decide (P ≤ Lwr.nearest DELTA t + pad.toNat))])

theorem entries_eq {a_sigma_sum : Zq} {pads : Fin DELTA → Zp} {b_bar_prime : Zdelta}
    (ha : a_sigma_sum.toNat < Q) (hb : b_bar_prime.toNat < DELTA) :
    entries a_sigma_sum pads b_bar_prime =
      some (List.ofFn (honestRow a_sigma_sum pads b_bar_prime)).flatten := by
  have hentry : (fromFn fun j : Fin DELTA => entry a_sigma_sum pads b_bar_prime j) =
      some (honestRow a_sigma_sum pads b_bar_prime) := by
    refine fromFn_eq_some_iff.mpr fun j => ?_
    have hjq : (UInt16.ofNat j.val).toNat = j.val := ofNat_toNat_zq_of_lt_delta j.isLt
    have hj : j.val < 16 := j.isLt
    have htlt : (a_sigma_sum.toNat + Q - j.val) % Q < Q := Nat.mod_lt _ (by norm_num)
    have hsub := subQ_of_lt ha (y := UInt16.ofNat j.val) (by rw [hjq]; show j.val < 4096; omega)
    rw [hjq] at hsub
    simp only [entry, hsub, round_of_lt (reduceQ_lt _), pad_of_lt pads j hb, Option.bind_eq_bind,
      Option.bind_some, reduceQ_toNat, hjq, nearest_toNat htlt]
    rfl
  rw [entries, hentry]
  rfl

theorem honestRow_length (a_sigma_sum : Zq) (pads : Fin DELTA → Zp) (b_bar_prime : Zdelta)
    (j : Fin DELTA) : (honestRow a_sigma_sum pads b_bar_prime j).length = NUM_COLS := by
  rw [honestRow, List.length_cons, List.length_append, bits_length]
  rfl

theorem honestRow_t (a_sigma_sum : Zq) (pads : Fin DELTA → Zp) (b_bar_prime : Zdelta)
    (j : Fin DELTA) : columns (honestRow a_sigma_sum pads b_bar_prime j) T WRAPPED =
      bits ((a_sigma_sum.toNat + Q - j) % Q) T_BITS := by
  have h := columns_middle [(a_sigma_sum.toNat : Val)]
    (bits ((a_sigma_sum.toNat + Q - j) % Q) T_BITS)
    [fromBool (decide (a_sigma_sum.toNat < j)),
      ((pads (padPosition j b_bar_prime)).toNat : Val),
      fromBool (decide (P ≤ Lwr.nearest DELTA ((a_sigma_sum.toNat + Q - j) % Q) +
        (pads (padPosition j b_bar_prime)).toNat))] (a := 0) (b := 12) (by simp)
  rwa [columns_all (by simp)] at h

/-- The three columns after the bits of the prover's entry. -/
theorem honestRow_rest (a_sigma_sum : Zq) (pads : Fin DELTA → Zp) (b_bar_prime : Zdelta)
    (j : Fin DELTA) (c : ℕ) :
    col (honestRow a_sigma_sum pads b_bar_prime j) (WRAPPED + c) =
      col [fromBool (decide (a_sigma_sum.toNat < j)),
        ((pads (padPosition j b_bar_prime)).toNat : Val),
        fromBool (decide (P ≤ Lwr.nearest DELTA ((a_sigma_sum.toNat + Q - j) % Q) +
          (pads (padPosition j b_bar_prime)).toNat))] c := by
  have h := col_append_right ((a_sigma_sum.toNat : Val) ::
    bits ((a_sigma_sum.toNat + Q - j) % Q) T_BITS)
    [fromBool (decide (a_sigma_sum.toNat < j)),
      ((pads (padPosition j b_bar_prime)).toNat : Val),
      fromBool (decide (P ≤ Lwr.nearest DELTA ((a_sigma_sum.toNat + Q - j) % Q) +
        (pads (padPosition j b_bar_prime)).toNat))] c
  rwa [List.length_cons, bits_length] at h

theorem assertBool_fromBool (b : Bool) : AssertBool (fromBool b) := by
  cases b
  · exact assertBool_zero
  · exact assertBool_one

/-- The prover's entry passes the rules for the response's entry. -/
theorem rules_row {a_sigma_sum : Zq} (pads : Fin DELTA → Zp) {b_bar_prime : Zdelta}
    (ha : a_sigma_sum.toNat < Q) (j : Fin DELTA) :
    Rules (honestRow a_sigma_sum pads b_bar_prime j) ((j : ℕ) : Val)
      ((responseEntry a_sigma_sum pads b_bar_prime j).toNat : Val) := by
  have hwrapped := honestRow_rest a_sigma_sum pads b_bar_prime j 0
  have hpad := honestRow_rest a_sigma_sum pads b_bar_prime j 1
  have hcarry := honestRow_rest a_sigma_sum pads b_bar_prime j 2
  simp only [col_cons_zero, col_cons_succ] at hwrapped hpad hcarry
  have hj : j.val < 16 := j.isLt
  have ha' : a_sigma_sum.toNat < 4096 := ha
  have hmodlt : (a_sigma_sum.toNat + Q - j) % Q < Q := Nat.mod_lt _ (by norm_num)
  refine ⟨?_, ?_, ?_, ?_, ?_⟩
  · intro bit hbit
    rw [honestRow_t] at hbit
    exact assertBool_of_mem_bits hbit
  · rw [show WRAPPED = WRAPPED + 0 from rfl, hwrapped]
    exact assertBool_fromBool _
  · rw [show CARRY = WRAPPED + 2 from rfl, hcarry]
    exact assertBool_fromBool _
  · -- `t` is the element less `j`, and `wrapped` says whether `q` had to be added.
    rw [honestRow_t, packBitsLe_bits hmodlt, show WRAPPED = WRAPPED + 0 from rfl, hwrapped]
    show (((a_sigma_sum.toNat + 4096 - j) % 4096 : ℕ) : Val) =
      (a_sigma_sum.toNat : Val) - _ + _ * ((4096 : ℕ) : Val)
    by_cases hlt : a_sigma_sum.toNat < j.val
    · have hval : (a_sigma_sum.toNat + 4096 - j) % 4096 + j = a_sigma_sum.toNat + 4096 := by omega
      have hcast := congrArg (fun n : ℕ => (n : Val)) hval
      simp only [Nat.cast_add] at hcast
      rw [fromBool, if_pos (by simpa using hlt), one_mul]
      linear_combination hcast
    · have hval : (a_sigma_sum.toNat + 4096 - j) % 4096 + j = a_sigma_sum.toNat := by omega
      have hcast := congrArg (fun n : ℕ => (n : Val)) hval
      simp only [Nat.cast_add] at hcast
      rw [fromBool, if_neg (by simpa using hlt), zero_mul]
      linear_combination hcast
  · -- The rounded `t` may be `p` itself: `carry` is 1 where it and the pad reach `p`.
    rw [honestRow_t, rounded_bits hmodlt, show PAD = WRAPPED + 1 from rfl, hpad,
      show CARRY = WRAPPED + 2 from rfl, hcarry]
    have hround : Lwr.nearest DELTA ((a_sigma_sum.toNat + Q - j) % Q) ≤ 256 :=
      Lwr.nearest_le hmodlt
    have hpadlt := (pads (padPosition j b_bar_prime)).toNat_lt
    rw [responseEntry, reduceP_toNat, reduceP_toNat]
    generalize Lwr.nearest DELTA ((a_sigma_sum.toNat + Q - j) % Q) = n at hround
    generalize (pads (padPosition j b_bar_prime)).toNat = pad at hpadlt
    show (n : Val) + pad - _ * ((256 : ℕ) : Val) = (((n % 256 + pad) % 256 : ℕ) : Val)
    by_cases hle : 256 ≤ n + pad
    · have hval : (n % 256 + pad) % 256 + 256 = n + pad := by omega
      have hcast := congrArg (fun n : ℕ => (n : Val)) hval
      simp only [Nat.cast_add] at hcast
      rw [fromBool, if_pos (by simpa using hle), one_mul]
      linear_combination -hcast
    · have hval : (n % 256 + pad) % 256 = n + pad := by omega
      rw [fromBool, if_neg (by simpa using hle), hval]
      push_cast
      ring

end ResponseAir

/-! ## (T) -/

namespace SumOfMasksAir

open scoped Numeral

/-- Where the key bit is. -/
abbrev SK_I : ℕ := 0

/-- Where the masks start. -/
abbrev MASKS : ℕ := SK_I + 1

/-- Where the sums start. -/
abbrev SUMS : ℕ := MASKS + RUNS_PER_EVALUATION

/-- Where the bits of the reduced sums start. -/
abbrev R_SIGMA : ℕ := SUMS + RUNS_PER_EVALUATION

/-- How many bits a reduced sum has. -/
abbrev R_SIGMA_BITS : ℕ := LOG_Q

/-- Where the bits of the quotients start. -/
abbrev QUOTIENT : ℕ := R_SIGMA + RUNS_PER_EVALUATION * R_SIGMA_BITS

/-- The quotient is at most `n`. -/
abbrev QUOTIENT_BITS : ℕ := N_BITS

/-- The columns of (T). -/
abbrev NUM_COLS : ℕ := QUOTIENT + RUNS_PER_EVALUATION * QUOTIENT_BITS

/-- What block `i` adds to a sum: `r` where `sk_i = 0`, `q - r` where `sk_i = 1`. -/
def term (sk_i : UInt8) (r : Zq) : Option ℕ :=
  if sk_i = 0 then some r.toNat else if r.toNat ≤ Q then some (Q - r.toNat) else none

/-- One periodic column of (T): ones on the rows `first`, …, `last - 1`. -/
def periodicColumn (first last : ℕ) : List Val :=
  (List.range N_TABLE_ROWS).map fun row => ResponseAir.fromBool (decide (first ≤ row ∧ row < last))

/-- `first_block`, `has_next_block`, and `last_block`. -/
def periodicColumns : List (List Val) :=
  [periodicColumn 0 1, periodicColumn 0 (N - 1), periodicColumn (N - 1) N]

/-- The sums after the first `n` blocks. -/
def sums (sk : SecretKey) (masks : Fin N → Fin RUNS_PER_EVALUATION → Zq) :
    ℕ → Option (Fin RUNS_PER_EVALUATION → ℕ)
  | 0 => some fun _ => 0
  | n + 1 => do
    let sum ← sums sk masks n
    let sk_i ← index sk.bits n
    let masks_i ← index masks n
    fromFn fun k => do
      let t ← term sk_i (masks_i k)
      checkedSum ACCUM [sum k, t]

/-- The rows of the table, one per binary OT, the last repeated. -/
def table (sk : SecretKey) (masks : Fin N → Fin RUNS_PER_EVALUATION → Zq) :
    Option (Fin N_TABLE_ROWS → List Val) := do
  let sum ← sums sk masks N
  fromFn fun row => do
    let i := ServerMasksAir.blockOf row
    let sums_i ← sums sk masks (i + 1)
    some (((sk.bits i).toNat : Val) :: (runColumns (masks i) ++
      (List.ofFn (fun k => ((sums_i k : ℕ) : Val)) ++
      ((List.ofFn fun k => bits (reduceQ (sum k)).toNat R_SIGMA_BITS).flatten ++
      (List.ofFn fun k => bits (quotientQ (sum k)) QUOTIENT_BITS).flatten))))

/-- What a row adds to the sum of run `k`: `r + sk·(q - 2·r)`. -/
def termOf (row : List Val) (k : Fin RUNS_PER_EVALUATION) : Val :=
  let sk := col row SK_I
  let r := col row (MASKS + k)
  r + sk * ((Q : Val) - r * 2)

/-- The bits of the reduced sum of run `k`. -/
def rSigmaBits (row : List Val) (k : Fin RUNS_PER_EVALUATION) : List Val :=
  columns (columns row R_SIGMA QUOTIENT) (k * R_SIGMA_BITS) ((k + 1) * R_SIGMA_BITS)

/-- The bits of the quotient of run `k`. -/
def quotientBits (row : List Val) (k : Fin RUNS_PER_EVALUATION) : List Val :=
  columns (columns row QUOTIENT NUM_COLS) (k * QUOTIENT_BITS) ((k + 1) * QUOTIENT_BITS)

/-- The rules for (T) on a row and the next one. -/
structure Rules (row next : List Val) (first_block has_next_block last_block : Val) : Prop where
  /-- The key bit and the bit columns are bits. -/
  bits : ∀ bit ∈ col row SK_I :: (columns row R_SIGMA QUOTIENT ++ columns row QUOTIENT NUM_COLS),
    AssertBool bit
  /-- The sums start with the first block. -/
  first : ∀ k : Fin RUNS_PER_EVALUATION,
    first_block * (col row (SUMS + k) - termOf row k) = 0
  /-- Each block adds its term. -/
  has_next : ∀ k : Fin RUNS_PER_EVALUATION,
    has_next_block * (col next (SUMS + k) - (col row (SUMS + k) + termOf next k)) = 0
  /-- The last sum is `r̃_Σ + q·quotient`. -/
  last : ∀ k : Fin RUNS_PER_EVALUATION, last_block * (col row (SUMS + k) -
    (packBitsLe (rSigmaBits row k) + packBitsLe (quotientBits row k) * (Q : Val))) = 0

/-- A row's flag, as a number of the field. -/
def flag (p : Prop) [Decidable p] : Val := ResponseAir.fromBool (decide p)

/-- The rules for (T) on row `i` of an evaluation, with the flags of that row. -/
def RulesAt (rows : ℕ → List Val) (i : ℕ) : Prop :=
  Rules (rows i) (rows (i + 1)) (flag (0 ≤ i ∧ i < 1)) (flag (0 ≤ i ∧ i < N - 1))
    (flag (N - 1 ≤ i ∧ i < N))

/-! ### Soundness -/

/-- What a key bit and a mask add to a sum. -/
def termNat (sk_i : Bool) (r : ℕ) : ℕ := if sk_i then Q - r else r

theorem termNat_le {sk_i : Bool} {r : ℕ} (h : r < Q) : termNat sk_i r ≤ Q := by
  unfold termNat
  split_ifs
  · exact Nat.sub_le _ _
  · exact h.le

/-- A term mod `q`. -/
theorem termNat_cast {sk_i : Bool} {r : ℕ} (h : r < Q) :
    (termNat sk_i r : ZMod Q) = (1 - 2 * Lwr.bit sk_i) * (r : ZMod Q) := by
  cases sk_i
  · simp [termNat]
  · rw [termNat, if_pos rfl, Nat.cast_sub h.le, ZMod.natCast_self, Lwr.bit_true]
    ring

/-- The term that a row's columns compute. -/
theorem termOf_eq {row : List Val} {k : Fin RUNS_PER_EVALUATION} {sk_i : Bool} {r : ℕ}
    (hsk : col row SK_I = (sk_i.toNat : Val)) (hr : col row (MASKS + k) = (r : Val)) (hrlt : r < Q) :
    termOf row k = (termNat sk_i r : Val) := by
  rw [termOf, hsk, hr]
  cases sk_i
  · simp [termNat]
  · rw [termNat, if_pos rfl, Nat.cast_sub hrlt.le, Bool.toNat_true, Nat.cast_one]
    ring

theorem flag_pos {p : Prop} [Decidable p] (h : p) : flag p = 1 := by simp [flag, h, ResponseAir.fromBool]

theorem flag_neg {p : Prop} [Decidable p] (h : ¬ p) : flag p = 0 := by simp [flag, h, ResponseAir.fromBool]

section Sound

variable {rows : ℕ → List Val} {k : Fin RUNS_PER_EVALUATION} {sk : ℕ → Bool} {r : ℕ → ℕ}

/-- The sum of a run, row by row. -/
theorem sums_eq
    (h : ∀ i < N, RulesAt rows i)
    (hsk : ∀ i < N, col (rows i) SK_I = ((sk i).toNat : Val))
    (hr : ∀ i < N, col (rows i) (MASKS + k) = (r i : Val)) (hrlt : ∀ i < N, r i < Q) :
    ∀ n < N, col (rows n) (SUMS + k) = ((∑ i ∈ Finset.range (n + 1), termNat (sk i) (r i) : ℕ) : Val)
  | 0, hn => by
    have hfirst := (h 0 hn).first k
    rw [flag_pos (by norm_num), one_mul, sub_eq_zero] at hfirst
    rw [hfirst, termOf_eq (hsk 0 hn) (hr 0 hn) (hrlt 0 hn), zero_add, Finset.sum_range_one]
  | n + 1, hn => by
    have hn' : n < N := by omega
    have hnlt : n < N - 1 := Nat.lt_sub_of_add_lt hn
    have ih := sums_eq h hsk hr hrlt n hn'
    have hnext := (h n hn').has_next k
    rw [flag_pos ⟨Nat.zero_le n, hnlt⟩, one_mul, sub_eq_zero] at hnext
    rw [hnext, ih, termOf_eq (hsk _ hn) (hr _ hn) (hrlt _ hn), Finset.sum_range_succ _ (n + 1),
      Nat.cast_add]

/-- The sum of all terms stays far below the field's prime. -/
theorem sum_termNat_le (hrlt : ∀ i < N, r i < Q) (n : ℕ) (hn : n ≤ N) :
    ∑ i ∈ Finset.range n, termNat (sk i) (r i) ≤ n * Q := by
  calc ∑ i ∈ Finset.range n, termNat (sk i) (r i) ≤ ∑ _i ∈ Finset.range n, Q :=
        Finset.sum_le_sum fun i hi =>
          termNat_le (hrlt i (lt_of_lt_of_le (Finset.mem_range.mp hi) hn))
    _ = n * Q := by rw [Finset.sum_const, Finset.card_range, smul_eq_mul]

theorem rSigmaBits_spec {row : List Val} (hrow : row.length = NUM_COLS)
    (h : ∀ bit ∈ columns row R_SIGMA QUOTIENT, AssertBool bit) (k : Fin RUNS_PER_EVALUATION) :
    ∃ value : ℕ, value < Q ∧ packBitsLe (rSigmaBits row k) = (value : Val) := by
  have hcols : row.length = 369 := hrow
  have hk : k.val < 16 := k.isLt
  have hsub : (columns row R_SIGMA QUOTIENT).length = 192 :=
    columns_length (show 225 ≤ row.length by omega)
  obtain ⟨value, hlt, -, hval⟩ := exists_packBitsLe (rSigmaBits row k) 12
    (by
      rw [rSigmaBits, columns_length (show (k.val + 1) * 12 ≤ _ by omega)]
      show (k.val + 1) * 12 - k.val * 12 = 12
      omega)
    (fun bit hbit => h bit (List.mem_of_mem_drop (List.mem_of_mem_take hbit)))
  exact ⟨value, hlt, hval⟩

theorem quotientBits_spec {row : List Val} (hrow : row.length = NUM_COLS)
    (h : ∀ bit ∈ columns row QUOTIENT NUM_COLS, AssertBool bit) (k : Fin RUNS_PER_EVALUATION) :
    ∃ value : ℕ, value < 512 ∧ packBitsLe (quotientBits row k) = (value : Val) := by
  have hcols : row.length = 369 := hrow
  have hk : k.val < 16 := k.isLt
  have hsub : (columns row QUOTIENT NUM_COLS).length = 144 :=
    columns_length (show 369 ≤ row.length by omega)
  obtain ⟨value, hlt, -, hval⟩ := exists_packBitsLe (quotientBits row k) 9
    (by
      rw [quotientBits, columns_length (show (k.val + 1) * 9 ≤ _ by omega)]
      show (k.val + 1) * 9 - k.val * 9 = 9
      omega)
    (fun bit hbit => h bit (List.mem_of_mem_drop (List.mem_of_mem_take hbit)))
  exact ⟨value, hlt, hval⟩

/-- On the last block's row, the bits of the reduced sum are the sum of all terms mod `q`. -/
theorem r_sigma_eq (hlen : ∀ i < N, (rows i).length = NUM_COLS)
    (h : ∀ i < N, RulesAt rows i)
    (hsk : ∀ i < N, col (rows i) SK_I = ((sk i).toNat : Val))
    (hr : ∀ i < N, col (rows i) (MASKS + k) = (r i : Val)) (hrlt : ∀ i < N, r i < Q) :
    packBitsLe (rSigmaBits (rows (N - 1)) k) =
      (((∑ i ∈ Finset.range N, termNat (sk i) (r i)) % Q : ℕ) : Val) := by
  have hN : N - 1 < N := by norm_num
  have hrules := h (N - 1) hN
  obtain ⟨value, hvlt, hvalue⟩ := rSigmaBits_spec (hlen _ hN)
    (fun bit hbit => hrules.bits bit (List.mem_cons_of_mem _ (List.mem_append_left _ hbit))) k
  obtain ⟨quotient, hqlt, hquotient⟩ := quotientBits_spec (hlen _ hN)
    (fun bit hbit => hrules.bits bit (List.mem_cons_of_mem _ (List.mem_append_right _ hbit))) k
  have hlast := hrules.last k
  rw [flag_pos ⟨le_rfl, hN⟩, one_mul, sub_eq_zero, sums_eq h hsk hr hrlt (N - 1) hN, hvalue,
    hquotient] at hlast
  have hle : ∑ i ∈ Finset.range 482, termNat (sk i) (r i) ≤ 482 * 4096 :=
    sum_termNat_le hrlt 482 le_rfl
  have hvlt' : value < 4096 := hvlt
  have hmod := @mod_of_natCast_eq BABY_BEAR (∑ i ∈ Finset.range 482, termNat (sk i) (r i)) value
    4096 quotient (show _ < 2013265921 by omega) hvlt' (show _ < 2013265921 by omega) hlast
  rw [hvalue, hmod]

end Sound

/-! ### Completeness -/

/-- The term of block `i` for run `k`. -/
def maskTerm (sk : SecretKey) (masks : Fin N → Fin RUNS_PER_EVALUATION → Zq)
    (k : Fin RUNS_PER_EVALUATION) (i : Fin N) : ℕ := termNat (sk.bit i) (masks i k).toNat

/-- The sum of the first `n` terms of run `k`. -/
def prefixSum (sk : SecretKey) (masks : Fin N → Fin RUNS_PER_EVALUATION → Zq)
    (k : Fin RUNS_PER_EVALUATION) (n : ℕ) : ℕ :=
  ∑ i ∈ Finset.range n, if h : i < N then maskTerm sk masks k ⟨i, h⟩ else 0

theorem prefixSum_succ (sk : SecretKey) (masks : Fin N → Fin RUNS_PER_EVALUATION → Zq)
    (k : Fin RUNS_PER_EVALUATION) (i : Fin N) :
    prefixSum sk masks k (i + 1) = prefixSum sk masks k i + maskTerm sk masks k i := by
  rw [prefixSum, Finset.sum_range_succ, dif_pos i.isLt]
  rfl

/-- The sum of all terms of run `k`. -/
theorem prefixSum_all (sk : SecretKey) (masks : Fin N → Fin RUNS_PER_EVALUATION → Zq)
    (k : Fin RUNS_PER_EVALUATION) : prefixSum sk masks k N = ∑ i, maskTerm sk masks k i := by
  rw [prefixSum, Finset.sum_range]
  exact Finset.sum_congr rfl fun i _ => dif_pos i.isLt

section Complete

variable {sk : SecretKey} {masks : Fin N → Fin RUNS_PER_EVALUATION → Zq}

theorem prefixSum_le (hmasks : ∀ i k, (masks i k).toNat < Q) (k : Fin RUNS_PER_EVALUATION) (n : ℕ) :
    prefixSum sk masks k n ≤ n * Q := by
  calc prefixSum sk masks k n ≤ ∑ _i ∈ Finset.range n, Q := by
        refine Finset.sum_le_sum fun i _ => ?_
        split_ifs with h
        · exact termNat_le (hmasks _ k)
        · exact Nat.zero_le _
    _ = n * Q := by rw [Finset.sum_const, Finset.card_range, smul_eq_mul]

/-- The sum of all terms is the sum of the masks mod `q`. -/
theorem reduceQ_prefixSum (hmasks : ∀ i k, (masks i k).toNat < Q) (k : Fin RUNS_PER_EVALUATION) :
    reduceQ (prefixSum sk masks k N) = reduceQ (rSigmaNat sk fun i => masks i k) := by
  refine eq_reduceQ_of_cast (reduceQ_lt _) ?_
  rw [reduceQ_cast, prefixSum_all, rSigmaNat_cast sk fun i => hmasks i k, Nat.cast_sum]
  exact Finset.sum_congr rfl fun i _ => termNat_cast (hmasks i k)

theorem term_eq (hmasks : ∀ i k, (masks i k).toNat < Q) (i : Fin N) (k : Fin RUNS_PER_EVALUATION) :
    term (sk.bits i) (masks i k) = some (maskTerm sk masks k i) := by
  rw [term, maskTerm, termNat]
  simp only [sk.bits_eq_zero_iff]
  rcases sk.bit i with _ | _
  · simp
  · rw [if_neg (by simp), if_pos (hmasks i k).le]
    simp

/-- The sums do not overflow. -/
theorem sums_value (hmasks : ∀ i k, (masks i k).toNat < Q) :
    ∀ n ≤ N, sums sk masks n = some fun k => prefixSum sk masks k n
  | 0, _ => rfl
  | n + 1, hn => by
    have hlt : n < N := hn
    rw [sums, sums_value hmasks n hlt.le, Option.bind_eq_bind, Option.bind_some,
      index_of_lt sk.bits hlt, Option.bind_eq_bind, Option.bind_some, index_of_lt masks hlt,
      Option.bind_eq_bind, Option.bind_some]
    refine fromFn_eq_some_iff.mpr fun k => ?_
    have hsucc : prefixSum sk masks k (n + 1) =
        prefixSum sk masks k n + maskTerm sk masks k ⟨n, hlt⟩ := prefixSum_succ sk masks k ⟨n, hlt⟩
    have hle := @prefixSum_le sk masks hmasks k (n + 1)
    rw [term_eq hmasks, Option.bind_eq_bind, Option.bind_some, checkedSum_of_lt]
    · rw [hsucc]
      simp
    · simp only [List.sum_cons, List.sum_nil, Nat.add_zero]
      have hn' : n + 1 ≤ 482 := hn
      have hle' : prefixSum sk masks k (n + 1) ≤ (n + 1) * 4096 := hle
      show prefixSum sk masks k n + _ < 2 ^ 32
      rw [← hsucc]
      omega

/-- The prover's row of block `i`. -/
def honestRow (sk : SecretKey) (masks : Fin N → Fin RUNS_PER_EVALUATION → Zq) (i : Fin N) :
    List Val :=
  ((sk.bits i).toNat : Val) :: (runColumns (masks i) ++
    (List.ofFn (fun k => ((prefixSum sk masks k (i + 1) : ℕ) : Val)) ++
    ((List.ofFn fun k => bits (prefixSum sk masks k N % Q) R_SIGMA_BITS).flatten ++
    (List.ofFn fun k => bits (prefixSum sk masks k N / Q) QUOTIENT_BITS).flatten)))

theorem table_eq (hmasks : ∀ i k, (masks i k).toNat < Q) :
    table sk masks =
      some fun row : Fin N_TABLE_ROWS => honestRow sk masks (ServerMasksAir.blockOf row) := by
  rw [table, sums_value hmasks N le_rfl, Option.bind_eq_bind, Option.bind_some]
  refine fromFn_eq_some_iff.mpr fun row => ?_
  have hsums := @sums_value sk masks hmasks ((ServerMasksAir.blockOf row).val + 1)
    (ServerMasksAir.blockOf row).isLt
  simp only [hsums, Option.bind_eq_bind, Option.bind_some, reduceQ_toNat]
  rfl

end Complete

section HonestRow

variable (sk : SecretKey) (masks : Fin N → Fin RUNS_PER_EVALUATION → Zq) (i : Fin N)

/-- The bits of the reduced sums, of all runs. -/
def rSigmaPart : List Val :=
  (List.ofFn fun k => bits (prefixSum sk masks k N % Q) R_SIGMA_BITS).flatten

/-- The bits of the quotients, of all runs. -/
def quotientPart : List Val :=
  (List.ofFn fun k => bits (prefixSum sk masks k N / Q) QUOTIENT_BITS).flatten

/-- The sums of the first `i + 1` blocks, of all runs. -/
def sumsPart : List Val := List.ofFn fun k => ((prefixSum sk masks k (i + 1) : ℕ) : Val)

theorem honestRow_eq : honestRow sk masks i =
    (((sk.bits i).toNat : Val) :: runColumns (masks i)) ++ (sumsPart sk masks i ++
      (rSigmaPart sk masks ++ quotientPart sk masks)) := rfl

theorem rSigmaPart_length : (rSigmaPart sk masks).length = 192 := by
  rw [rSigmaPart, List.length_flatten, List.map_ofFn, List.sum_ofFn]
  simp only [Function.comp_apply, bits_length]
  rfl

theorem quotientPart_length : (quotientPart sk masks).length = 144 := by
  rw [quotientPart, List.length_flatten, List.map_ofFn, List.sum_ofFn]
  simp only [Function.comp_apply, bits_length]
  rfl

theorem sumsPart_length : (sumsPart sk masks i).length = 16 := List.length_ofFn

theorem head_length :
    (((sk.bits i).toNat : Val) :: runColumns (masks i)).length = 17 := by
  rw [List.length_cons, runColumns_length]

theorem honestRow_length : (honestRow sk masks i).length = NUM_COLS := by
  rw [honestRow_eq, List.length_append, List.length_append, List.length_append, head_length,
    sumsPart_length, rSigmaPart_length, quotientPart_length]
  rfl

theorem honestRow_sk_i : col (honestRow sk masks i) SK_I = ((sk.bits i).toNat : Val) := rfl

theorem honestRow_mask (k : Fin RUNS_PER_EVALUATION) :
    col (honestRow sk masks i) (MASKS + k) = ((masks i k).toNat : Val) := by
  have hk : k.val < 16 := k.isLt
  rw [honestRow_eq, col_append_left (by rw [head_length]; show 1 + k.val < 17; omega),
    Nat.add_comm, col_cons_succ, runColumns, col_ofFn]

theorem honestRow_sum (k : Fin RUNS_PER_EVALUATION) :
    col (honestRow sk masks i) (SUMS + k) = ((prefixSum sk masks k (i + 1) : ℕ) : Val) := by
  have hk : k.val < 16 := k.isLt
  have h := col_middle (((sk.bits i).toNat : Val) :: runColumns (masks i)) (sumsPart sk masks i)
    (rSigmaPart sk masks ++ quotientPart sk masks) (c := k) (by rw [sumsPart_length]; exact hk)
  rw [head_length] at h
  rw [honestRow_eq]
  refine h.trans ?_
  rw [sumsPart, col_ofFn]

theorem honestRow_r_sigma :
    columns (honestRow sk masks i) R_SIGMA QUOTIENT = rSigmaPart sk masks := by
  have h := columns_middle ((((sk.bits i).toNat : Val) :: runColumns (masks i)) ++
    sumsPart sk masks i) (rSigmaPart sk masks) (quotientPart sk masks) (a := 0) (b := 192)
    (by rw [rSigmaPart_length])
  rw [List.length_append, head_length, sumsPart_length, List.append_assoc,
    columns_all (rSigmaPart_length sk masks)] at h
  exact h

theorem honestRow_quotient :
    columns (honestRow sk masks i) QUOTIENT NUM_COLS = quotientPart sk masks := by
  have h := columns_append_right (((((sk.bits i).toNat : Val) :: runColumns (masks i)) ++
    sumsPart sk masks i) ++ rSigmaPart sk masks) (quotientPart sk masks) 0 144
  rw [List.length_append, List.length_append, head_length, sumsPart_length, rSigmaPart_length,
    List.append_assoc, List.append_assoc, columns_all (quotientPart_length sk masks)] at h
  exact h

theorem honestRow_rSigmaBits (k : Fin RUNS_PER_EVALUATION) :
    rSigmaBits (honestRow sk masks i) k = bits (prefixSum sk masks k N % Q) R_SIGMA_BITS := by
  rw [rSigmaBits, honestRow_r_sigma, rSigmaPart]
  exact columns_flatten_ofFn (by norm_num) (fun _ => bits_length _ _) k

theorem honestRow_quotientBits (k : Fin RUNS_PER_EVALUATION) :
    quotientBits (honestRow sk masks i) k = bits (prefixSum sk masks k N / Q) QUOTIENT_BITS := by
  rw [quotientBits, honestRow_quotient, quotientPart]
  exact columns_flatten_ofFn (by norm_num) (fun _ => bits_length _ _) k

end HonestRow

section RulesRow

variable {sk : SecretKey} {masks : Fin N → Fin RUNS_PER_EVALUATION → Zq}

theorem termOf_honestRow (hmasks : ∀ i k, (masks i k).toNat < Q) (i : Fin N)
    (k : Fin RUNS_PER_EVALUATION) :
    termOf (honestRow sk masks i) k = (maskTerm sk masks k i : Val) :=
  termOf_eq (by rw [honestRow_sk_i, sk.bits_toNat]) (honestRow_mask sk masks i k) (hmasks i k)

/-- The prover's row of a block passes the rules, if the next row is the prover's row of the next
block where there is one. -/
theorem rules_row (hmasks : ∀ i k, (masks i k).toNat < Q) {row : ℕ} {next : List Val}
    (hnext : row < N - 1 → next = honestRow sk masks (ServerMasksAir.blockOf (row + 1))) :
    Rules (honestRow sk masks (ServerMasksAir.blockOf row)) next (flag (0 ≤ row ∧ row < 1))
      (flag (0 ≤ row ∧ row < N - 1)) (flag (N - 1 ≤ row ∧ row < N)) := by
  refine ⟨?_, fun k => ?_, fun k => ?_, fun k => ?_⟩
  · -- The bits are the key's, those of each run's sum and those of its quotient.
    intro bit hbit
    rw [honestRow_r_sigma, honestRow_quotient, honestRow_sk_i, List.mem_cons, List.mem_append] at hbit
    rcases hbit with rfl | h | h
    · rw [sk.bits_toNat]
      cases sk.bit _
      · simpa using assertBool_zero
      · simpa using assertBool_one
    · rw [rSigmaPart, List.mem_flatten] at h
      obtain ⟨part, hpart, hmem⟩ := h
      obtain ⟨k, rfl⟩ := List.mem_ofFn.mp hpart
      exact assertBool_of_mem_bits hmem
    · rw [quotientPart, List.mem_flatten] at h
      obtain ⟨part, hpart, hmem⟩ := h
      obtain ⟨k, rfl⟩ := List.mem_ofFn.mp hpart
      exact assertBool_of_mem_bits hmem
  · by_cases hrow : 0 ≤ row ∧ row < 1
    · obtain rfl : row = 0 := by omega
      -- On the first row nothing comes before the block's own term.
      have hprefix := prefixSum_succ sk masks k (ServerMasksAir.blockOf 0)
      have hzero : prefixSum sk masks k ((ServerMasksAir.blockOf 0 : Fin N) : ℕ) = 0 := rfl
      rw [honestRow_sum, termOf_honestRow hmasks, hprefix, hzero, zero_add, sub_self, mul_zero]
    · rw [flag_neg hrow, zero_mul]
  · by_cases hrow : 0 ≤ row ∧ row < N - 1
    · -- Away from the last row the next one is the next block's, which adds its own term.
      have hlt : row < 481 := hrow.2
      have hblock : (ServerMasksAir.blockOf row).val = row := min_eq_left (by omega)
      have hblock' : (ServerMasksAir.blockOf (row + 1)).val = row + 1 :=
        min_eq_left (show row + 1 ≤ 481 by omega)
      have hprefix := prefixSum_succ sk masks k (ServerMasksAir.blockOf (row + 1))
      rw [hblock'] at hprefix
      rw [hnext hrow.2, honestRow_sum, honestRow_sum, termOf_honestRow hmasks, hblock, hblock',
        hprefix, Nat.cast_add, sub_self, mul_zero]
    · rw [flag_neg hrow, zero_mul]
  · by_cases hrow : N - 1 ≤ row ∧ row < N
    · -- On the last row all blocks are in the sum, which the bits and the quotient are made from.
      have hge : 481 ≤ row := hrow.1
      have hblock : (ServerMasksAir.blockOf row).val + 1 = N := by
        rw [show (ServerMasksAir.blockOf row).val = 481 from min_eq_right hge]
      have hmod : prefixSum sk masks k N % Q < 2 ^ 12 := Nat.mod_lt _ (by norm_num)
      have hle : prefixSum sk masks k N ≤ 482 * 4096 := prefixSum_le hmasks k N
      have hdiv : prefixSum sk masks k N / Q < 2 ^ 9 := by
        rw [Nat.div_lt_iff_lt_mul (by norm_num)]
        show _ < 2 ^ 9 * 4096
        omega
      rw [honestRow_sum, honestRow_rSigmaBits, honestRow_quotientBits, packBitsLe_bits hmod,
        packBitsLe_bits hdiv, hblock, ← Nat.cast_mul, ← Nat.cast_add, Nat.mul_comm (_ / Q),
        Nat.mod_add_div, sub_self, mul_zero]
    · rw [flag_neg hrow, zero_mul]

end RulesRow

end SumOfMasksAir

end PoolOprf

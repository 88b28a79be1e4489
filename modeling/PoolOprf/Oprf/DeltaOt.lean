import PoolOprf.Oprf.State

/-!
# 1-out-of-Δ OTs from binary OTs

`pool-oprf/src/delta_ot.rs`. A 1-out-of-Δ OT is `LOG_DELTA` binary ones: the choice's bits pick one
block of each pair, and the output is a hash of the picked blocks with the choice. The binary OTs
are ideal (`BinaryOts`): for a number of OTs that is asked for, a pair and a choice of each, of
which the sender gets the pairs and the receiver the choices with their blocks.

How many binary OTs that takes is computed in `usize` with no check, so that from counts of about
`2^62` on the product or its rounding overflows. A build panics there or goes on with what is left
of it (`Build`), and `Build.Fits` is where neither happens.

The two sides cut the binary OTs into chunks on their own, so `deltaOtSend_eq` and
`deltaOtReceive_eq` say for each side what its outputs are made of, as many as there are binary OTs
for, and `delta_ot_agree` puts them together.
-/

namespace PoolOprf

open Panic

/-! ## The binary OTs -/

/-- Ideal binary random OTs: the pair and the choice of each, for any number of OTs. -/
def BinaryOts := (count : ℕ) → Fin count → (Fin 2 → Block) × Bool

/-- What the sender gets. -/
def BinaryOts.send (ots : BinaryOts) (count : ℕ) : List (Fin 2 → Block) :=
  List.ofFn fun k => (ots count k).1

/-- What the receiver gets: the blocks of its choices, and the choices. -/
def BinaryOts.receive (ots : BinaryOts) (count : ℕ) : List Block × List Bool :=
  (List.ofFn fun k => (ots count k).1 (side (ots count k).2), List.ofFn fun k => (ots count k).2)

/-! ## The functions -/

/-- What the build decides: the OT library's `BASE_OT_COUNT`, and what an overflow does. -/
structure Build where
  /-- The OT library takes multiples of it. -/
  BASE_OT_COUNT : ℕ
  /-- Whether an overflow panics. It wraps otherwise. -/
  overflow_checks : Bool
  base_pos : 0 < BASE_OT_COUNT
  base_le : BASE_OT_COUNT ≤ 2 ^ 63

theorem baseOtCount_pos : 0 < 128 := by norm_num

theorem baseOtCount_le : 128 ≤ 2 ^ 63 := by norm_num

/-- The builds of the OT library's own 128 base OTs. -/
def Build.cryprot (overflow_checks : Bool) : Build :=
  ⟨128, overflow_checks, baseOtCount_pos, baseOtCount_le⟩

/-- The result of an operation in `usize`. -/
def Build.usize (build : Build) (x : ℕ) : Option ℕ :=
  if x < 2 ^ 64 then some x else if build.overflow_checks then none else some (x % 2 ^ 64)

/-- The next multiple, which stops for a multiple of 0. -/
def nextMultipleOf (x n : ℕ) : Option ℕ := if n = 0 then none else some ((x + n - 1) / n * n)

/-- How many binary OTs `delta_ot_count` 1-out-of-Δ OTs take, in multiples of the OT library's
`BASE_OT_COUNT`. Neither the product nor its rounding is checked. -/
def requiredBinaryOtCount (build : Build) (delta_ot_count : ℕ) : Option ℕ :=
  if 0 < delta_ot_count then do
    let product ← build.usize (LOG_DELTA * delta_ot_count)
    build.usize (← nextMultipleOf product build.BASE_OT_COUNT)
  else none

/-- Bit `i` of a choice. -/
def bit (value : Zdelta) (i : ℕ) : Bool := (value >>> UInt8.ofNat i) &&& 1 != 0

/-- The choice of bits, the lowest first. -/
def choiceFromBits (bits : Fin LOG_DELTA → Bool) : Zdelta :=
  (List.finRange LOG_DELTA).foldl
    (fun index i => index ||| ((bits i).toUInt8 <<< UInt8.ofNat i.val)) 0

/-- What is hashed to an output: one block of each pair, and the choice. -/
def otInput (blocks : Fin LOG_DELTA → Block) (choice : Zdelta) : List UInt8 :=
  (List.ofFn fun i => List.ofFn (blocks i)).flatten ++ [choice]

/-- The first bytes of a hash, as a block. -/
def otOutput (blake3 : Blake3) (input : List UInt8) : Block := fun k => blake3 .hash input k

/-- Derive one output block by hashing one block of each pair together with `choice`. -/
def deriveOtBlock (blake3 : Blake3) (blocks : Fin LOG_DELTA → Block) (choice : Zdelta) :
    Option Block :=
  if choice.toNat < DELTA then some (otOutput blake3 (otInput blocks choice)) else none

/-- The block of each pair that `choice` picks. -/
def selected (pairs : Fin LOG_DELTA → Fin 2 → Block) (choice : Zdelta) : Fin LOG_DELTA → Block :=
  fun i => pairs i (side (bit choice i))

/-- Select one block from each pair, then derive the output block. -/
def selectAndDeriveOtBlock (blake3 : Blake3) (pairs : Fin LOG_DELTA → Fin 2 → Block)
    (choice : Zdelta) : Option Block :=
  deriveOtBlock blake3 (selected pairs choice) choice

/-- The sender side of 1-out-of-Δ OTs: all blocks of each. -/
def deltaOtSend (blake3 : Blake3) (build : Build) (send : ℕ → List (Fin 2 → Block))
    (delta_ot_count : ℕ) : Option (List (Fin DELTA → Block)) := do
  let binary_ot_count ← requiredBinaryOtCount build delta_ot_count
  let pairs := send binary_ot_count
  ((asChunks LOG_DELTA pairs).take delta_ot_count).mapM fun ot_pairs =>
    fromFn fun choice => selectAndDeriveOtBlock blake3 ot_pairs (UInt8.ofNat choice)

/-- The receiver side of 1-out-of-Δ OTs: the block and the choice of each. -/
def deltaOtReceive (blake3 : Blake3) (build : Build) (receive : ℕ → List Block × List Bool)
    (delta_ot_count : ℕ) : Option (List Block × List Zdelta) := do
  let binary_ot_count ← requiredBinaryOtCount build delta_ot_count
  let (ot_blocks, binary_choices) := receive binary_ot_count
  let choices := ((asChunks LOG_DELTA binary_choices).take delta_ot_count).map choiceFromBits
  let blocks ← ((asChunks LOG_DELTA ot_blocks).zip choices).mapM fun (selected, choice) =>
    deriveOtBlock blake3 selected choice
  some (blocks, choices)

/-! ## Choices and their bits -/

theorem choiceFromBits_lt (bits : Fin LOG_DELTA → Bool) :
    (choiceFromBits bits).toNat < DELTA := by
  revert bits
  decide

theorem deriveOtBlock_choiceFromBits (blake3 : Blake3) (blocks : Fin LOG_DELTA → Block)
    (bits : Fin LOG_DELTA → Bool) : deriveOtBlock blake3 blocks (choiceFromBits bits) =
      some (otOutput blake3 (otInput blocks (choiceFromBits bits))) := by
  unfold deriveOtBlock
  rw [if_pos (choiceFromBits_lt bits)]

/-- The bits of a choice are those that it was made of. -/
theorem bit_choiceFromBits (bits : Fin LOG_DELTA → Bool) (i : Fin LOG_DELTA) :
    bit (choiceFromBits bits) i = bits i := by
  revert bits i
  decide

/-- Another choice has another bit. -/
theorem exists_bit_ne {c : Fin DELTA} {bits : Fin LOG_DELTA → Bool}
    (h : c.val ≠ (choiceFromBits bits).toNat) :
    ∃ i : Fin LOG_DELTA, bit (UInt8.ofNat c) i = !bits i := by
  revert c bits
  decide

/-! ## How many binary OTs there are -/

/-- The next multiple is no less, and not a whole multiple more. -/
theorem nextMultipleOf_spec (x : ℕ) {n : ℕ} (hn : 0 < n) :
    ∃ m, nextMultipleOf x n = some m ∧ x ≤ m ∧ m < x + n := by
  unfold nextMultipleOf
  rw [if_neg hn.ne']
  have hdiv := Nat.div_add_mod (x + n - 1) n
  have hmod := Nat.mod_lt (x + n - 1) hn
  rw [Nat.mul_comm] at hdiv
  refine ⟨_, rfl, ?_, ?_⟩ <;> omega

/-- A number that is less than the one it is rounded to has that as its next multiple. -/
theorem nextMultipleOf_self {x n : ℕ} (hx : 0 < x) (hle : x ≤ n) : nextMultipleOf x n = some n := by
  unfold nextMultipleOf
  have hdiv : (x + n - 1) / n = 1 := by
    apply Nat.div_eq_of_lt_le <;> omega
  rw [if_neg (by omega), hdiv, Nat.one_mul]

namespace Build

variable {build : Build} {count n : ℕ}

theorem usize_of_lt (build : Build) {x : ℕ} (h : x < 2 ^ 64) : build.usize x = some x := if_pos h

/-- An operation that does not panic gives what fits of its result, and all of it if overflows
panic. -/
theorem usize_eq_some {x y : ℕ} (h : build.usize x = some y) :
    y = x % 2 ^ 64 ∧ (build.overflow_checks = true → x < 2 ^ 64) := by
  unfold usize at h
  by_cases hx : x < 2 ^ 64
  · rw [if_pos hx] at h
    exact ⟨by rw [Nat.mod_eq_of_lt hx, Option.some.inj h], fun _ => hx⟩
  · rw [if_neg hx] at h
    cases hchecks : build.overflow_checks with
    | true =>
      rw [hchecks] at h
      cases h
    | false =>
      rw [hchecks] at h
      exact ⟨(Option.some.inj h).symm, fun hfalse => (by cases hfalse)⟩

/-- The number of binary OTs of `count` 1-out-of-Δ ones is a `usize`. -/
def Fits (build : Build) (count : ℕ) : Prop :=
  ∀ n ∈ nextMultipleOf (LOG_DELTA * count) build.BASE_OT_COUNT, n < 2 ^ 64

/-- Counts up to `2^61` fit, whatever they are rounded to. -/
theorem fits_of_le (build : Build) (h : count ≤ 2 ^ 61) : build.Fits count := by
  intro n hn
  have hbase := build.base_le
  by_cases hzero : LOG_DELTA * count = 0
  · rw [hzero, nextMultipleOf, if_neg build.base_pos.ne', Nat.zero_add,
      Nat.div_eq_of_lt (Nat.sub_one_lt build.base_pos.ne'), Nat.zero_mul] at hn
    obtain rfl := Option.some.inj hn
    norm_num
  · by_cases hle : LOG_DELTA * count ≤ build.BASE_OT_COUNT
    · rw [nextMultipleOf_self (Nat.pos_of_ne_zero hzero) hle] at hn
      obtain rfl := Option.some.inj hn
      omega
    · obtain ⟨m, hm, -, hlt⟩ := nextMultipleOf_spec (LOG_DELTA * count) build.base_pos
      obtain rfl := Option.some.inj (hn.symm.trans hm)
      have hproduct : LOG_DELTA * count = 4 * count := rfl
      omega

end Build

section Count

variable {build : Build} {n count : ℕ}

/-- Enough OTs are asked for where their number fits. -/
theorem requiredBinaryOtCount_of_fits (hcount : 0 < count) (hfits : build.Fits count) :
    ∃ n, requiredBinaryOtCount build count = some n ∧ count ≤ n / LOG_DELTA := by
  obtain ⟨n, hn, hle, -⟩ := nextMultipleOf_spec (LOG_DELTA * count) build.base_pos
  have hlt : n < 2 ^ 64 := hfits n hn
  refine ⟨n, ?_, (Nat.le_div_iff_mul_le (by norm_num)).mpr (by rw [Nat.mul_comm]; exact hle)⟩
  unfold requiredBinaryOtCount
  rw [if_pos hcount, build.usize_of_lt (hle.trans_lt hlt), Option.bind_eq_bind, Option.bind_some, hn,
    Option.bind_some, build.usize_of_lt hlt]

/-- And only there: an overflow panics, or leaves fewer than are needed by at least `2^63`. -/
theorem requiredBinaryOtCount_of_not_fits (hfits : ¬ build.Fits count)
    (h : requiredBinaryOtCount build count = some n) :
    build.overflow_checks = false ∧ n + 2 ^ 63 ≤ LOG_DELTA * count := by
  unfold requiredBinaryOtCount at h
  split_ifs at h
  rw [Option.bind_eq_bind, Option.bind_eq_some_iff] at h
  obtain ⟨product, hproduct, h⟩ := h
  obtain ⟨rfl, hchecked⟩ := Build.usize_eq_some hproduct
  obtain ⟨m, hm, h⟩ := Option.bind_eq_some_iff.mp h
  obtain ⟨rfl, hchecked'⟩ := Build.usize_eq_some h
  obtain ⟨m', hm', -, hlt⟩ := nextMultipleOf_spec (LOG_DELTA * count % 2 ^ 64) build.base_pos
  obtain rfl := Option.some.inj (hm.symm.trans hm')
  have hbase := build.base_le
  -- What wraps is the product, or its next multiple.
  have hwraps : 2 ^ 64 ≤ LOG_DELTA * count ∨ 2 ^ 64 ≤ m := by
    by_contra hnot
    obtain ⟨hsmall, hsmall'⟩ := not_or.mp hnot
    rw [Nat.mod_eq_of_lt (Nat.lt_of_not_le hsmall)] at hm
    refine hfits fun n hn => ?_
    obtain rfl := Option.some.inj (hm.symm.trans hn)
    exact Nat.lt_of_not_le hsmall'
  constructor
  · refine Bool.eq_false_iff.mpr fun hchecks => ?_
    exact hwraps.elim (Nat.not_le_of_lt (hchecked hchecks)) (Nat.not_le_of_lt (hchecked' hchecks))
  · rcases hwraps with hwraps | hwraps <;> omega

/-- The OTs that are asked for are enough exactly where their number fits, and it does if overflows
panic. -/
theorem requiredBinaryOtCount_eq_some (h : requiredBinaryOtCount build count = some n) :
    0 < count ∧ (count ≤ n / LOG_DELTA ↔ build.Fits count) ∧
      (build.overflow_checks = true → build.Fits count) := by
  have hcount : 0 < count := by
    by_contra hzero
    rw [requiredBinaryOtCount, if_neg hzero] at h
    cases h
  refine ⟨hcount, ⟨fun henough => ?_, fun hfits => ?_⟩, fun hchecks => ?_⟩
  · by_contra hfits
    obtain ⟨-, hfewer⟩ := requiredBinaryOtCount_of_not_fits hfits h
    rw [Nat.le_div_iff_mul_le (by norm_num), Nat.mul_comm] at henough
    omega
  · obtain ⟨n', hn', henough⟩ := requiredBinaryOtCount_of_fits hcount hfits
    obtain rfl := Option.some.inj (h.symm.trans hn')
    exact henough
  · by_contra hfits
    obtain ⟨hfalse, -⟩ := requiredBinaryOtCount_of_not_fits hfits h
    rw [hchecks] at hfalse
    cases hfalse

/-- Without overflow checks nothing panics. -/
theorem requiredBinaryOtCount_wraps (hcount : 0 < count)
    (h : build.overflow_checks = false) : ∃ n, requiredBinaryOtCount build count = some n := by
  have husize : ∀ x, ∃ y, build.usize x = some y := fun x => by
    unfold Build.usize
    rw [h]
    by_cases hx : x < 2 ^ 64
    · exact ⟨x, if_pos hx⟩
    · exact ⟨_, if_neg hx⟩
  obtain ⟨product, hproduct⟩ := husize (LOG_DELTA * count)
  obtain ⟨m, hm, -⟩ := nextMultipleOf_spec product build.base_pos
  obtain ⟨n, hn⟩ := husize m
  refine ⟨n, ?_⟩
  unfold requiredBinaryOtCount
  rw [if_pos hcount, hproduct, Option.bind_eq_bind, Option.bind_some, hm, Option.bind_some, hn]

end Count

/-! ## What an output is made of -/

section Outputs

variable {n count entries : ℕ}

/-- Binary OT `i` of 1-out-of-Δ OT `j`. -/
def otPosition (h : entries * LOG_DELTA ≤ n) (j : Fin entries) (i : Fin LOG_DELTA) : Fin n :=
  ⟨j * LOG_DELTA + i, by
    have hj : j.val < entries := j.isLt
    have hi : i.val < 4 := i.isLt
    have h' : entries * 4 ≤ n := h
    change j.val * 4 + i.val < n
    omega⟩

/-- Different outputs are made of different binary OTs. -/
theorem otPosition_inj (h : entries * LOG_DELTA ≤ n) {j j' : Fin entries} {i i' : Fin LOG_DELTA}
    (heq : otPosition h j i = otPosition h j' i') : j = j' ∧ i = i' := by
  have hval : j.val * 4 + i.val = j'.val * 4 + i'.val := congrArg Fin.val heq
  have hi : i.val < 4 := i.isLt
  have hi' : i'.val < 4 := i'.isLt
  constructor
  · apply Fin.ext
    omega
  · apply Fin.ext
    omega

/-- The pairs of output `j`. -/
def otPairs (ots : BinaryOts) (h : entries * LOG_DELTA ≤ n) (j : Fin entries) :
    Fin LOG_DELTA → Fin 2 → Block :=
  fun i => (ots n (otPosition h j i)).1

/-- The receiver's bits of output `j`. -/
def otBits (ots : BinaryOts) (h : entries * LOG_DELTA ≤ n) (j : Fin entries) :
    Fin LOG_DELTA → Bool :=
  fun i => (ots n (otPosition h j i)).2

/-- There are binary OTs for all outputs. -/
theorem entries_le (hentries : entries = min count (n / LOG_DELTA)) : entries * LOG_DELTA ≤ n :=
  (Nat.le_div_iff_mul_le (by norm_num)).mp (hentries.trans_le (Nat.min_le_right _ _))

/-- The chunks that are taken, where there may be fewer than are asked for. -/
theorem take_asChunks_min {α : Type} (f : Fin n → α) (h : entries * LOG_DELTA ≤ n)
    (hentries : entries = min count (n / LOG_DELTA)) :
    (asChunks LOG_DELTA (List.ofFn f)).take count =
      List.ofFn fun j : Fin entries => fun i => f (otPosition h j i) := by
  rw [List.take_eq_take_min, asChunks_length, List.length_ofFn, ← hentries,
    take_asChunks_ofFn (by norm_num) f h]
  rfl

/-- The sender's outputs. -/
theorem deltaOtSend_eq (blake3 : Blake3) {build : Build} (ots : BinaryOts)
    (hn : requiredBinaryOtCount build count = some n) (h : entries * LOG_DELTA ≤ n)
    (hentries : entries = min count (n / LOG_DELTA)) :
    deltaOtSend blake3 build ots.send count = some (List.ofFn fun j => fun c : Fin DELTA =>
      otOutput blake3 (otInput (selected (otPairs ots h j) (UInt8.ofNat c)) (UInt8.ofNat c))) := by
  have hrow : ∀ pairs : Fin LOG_DELTA → Fin 2 → Block,
      (fromFn fun c : Fin DELTA => selectAndDeriveOtBlock blake3 pairs (UInt8.ofNat c)) =
        some fun c : Fin DELTA =>
          otOutput blake3 (otInput (selected pairs (UInt8.ofNat c)) (UInt8.ofNat c)) := by
    intro pairs
    refine fromFn_eq_some_iff.mpr fun c => ?_
    unfold selectAndDeriveOtBlock deriveOtBlock
    rw [if_pos (by rw [ofNat_toNat_of_lt_delta c.isLt]; exact c.isLt)]
  unfold deltaOtSend BinaryOts.send
  rw [hn]
  simp only [Option.bind_eq_bind, Option.bind_some, hrow]
  rw [take_asChunks_min _ h hentries, mapM_eq_some_map fun pairs _ => rfl, List.map_ofFn]
  rfl

/-- The receiver's outputs. -/
theorem deltaOtReceive_eq (blake3 : Blake3) {build : Build} (ots : BinaryOts)
    (hn : requiredBinaryOtCount build count = some n) (h : entries * LOG_DELTA ≤ n)
    (hentries : entries = min count (n / LOG_DELTA)) :
    deltaOtReceive blake3 build ots.receive count = some
      (List.ofFn fun j => otOutput blake3 (otInput
          (fun i => otPairs ots h j i (side (otBits ots h j i))) (choiceFromBits (otBits ots h j))),
        List.ofFn fun j => choiceFromBits (otBits ots h j)) := by
  unfold deltaOtReceive BinaryOts.receive
  rw [hn]
  simp only [Option.bind_eq_bind, Option.bind_some]
  -- Zipping drops the chunks beyond the choices.
  have hlen : (asChunks LOG_DELTA (List.ofFn fun k => (ots n k).1 (side (ots n k).2))).length =
      n / LOG_DELTA := by
    rw [asChunks_length, List.length_ofFn]
  have hle : entries ≤ n / LOG_DELTA := hentries.trans_le (Nat.min_le_right _ _)
  rw [take_asChunks_min (fun k => (ots n k).2) h hentries, List.map_ofFn,
    List.zip_eq_zip_take_min, hlen, List.length_ofFn, min_eq_right hle,
    take_asChunks_ofFn (by norm_num) _ h, List.take_of_length_le (by rw [List.length_ofFn]),
    List.zip_eq_zipWith, zipWith_ofFn]
  rw [mapM_eq_some_map (g := fun pair => otOutput blake3 (otInput pair.1 pair.2))]
  · rw [Option.bind_some, List.map_ofFn]
    rfl
  · intro pair hpair
    obtain ⟨j, rfl⟩ := List.mem_ofFn.mp hpair
    simp only [Function.comp_apply]
    rw [deriveOtBlock_choiceFromBits]

/-- The pairs' blocks at the receiver's bits are those that its choice picks. -/
theorem selected_choiceFromBits (pairs : Fin LOG_DELTA → Fin 2 → Block)
    (bits : Fin LOG_DELTA → Bool) :
    selected pairs (choiceFromBits bits) = fun i => pairs i (side (bits i)) := by
  funext i
  unfold selected
  rw [bit_choiceFromBits]

/-- The bytes of block `i` in what is hashed. -/
theorem otInput_block (blocks : Fin LOG_DELTA → Block) (choice : Zdelta) (i : Fin LOG_DELTA) :
    ((otInput blocks choice).drop (16 * i)).take 16 = List.ofFn (blocks i) := by
  have hi : i.val < 4 := i.isLt
  have hlen : (List.ofFn fun i => List.ofFn (blocks i)).flatten.length = 64 := by
    simp
  have hpart := Row.columns_flatten_ofFn (by norm_num)
    (fun i => List.length_ofFn (f := blocks i)) i
  unfold otInput
  rw [List.drop_append_of_le_length (by omega),
    List.take_append_of_le_length (by rw [List.length_drop]; omega), ← hpart, Nat.mul_comm]
  unfold Row.columns
  rw [← Nat.sub_mul, Nat.add_sub_cancel_left, Nat.one_mul]

/-- The last byte of what is hashed is the choice. -/
theorem otInput_getLast? (blocks : Fin LOG_DELTA → Block) (choice : Zdelta) :
    (otInput blocks choice).getLast? = some choice := by
  unfold otInput
  rw [List.getLast?_append, List.getLast?_singleton, Option.some_or]

end Outputs

/-! ## One block of each -/

/-- The receiver of `count` 1-out-of-Δ OTs gets exactly one block of each. Both sides have one
output for each OT that is asked for, made of its own binary OTs, and the receiver's block is the
sender's at its choice. What is hashed to any other block of the sender has, in some pair's place,
the block that the receiver did not get of that pair, and ends in another byte. -/
def DeltaOtAgree (blake3 : Blake3) (build : Build) (ots : BinaryOts) (count : ℕ) : Prop :=
  ∃ n blocks received choices, requiredBinaryOtCount build count = some n ∧
    deltaOtSend blake3 build ots.send count = some blocks ∧
    deltaOtReceive blake3 build ots.receive count = some (received, choices) ∧
    blocks.length = count ∧ received.length = count ∧ choices.length = count ∧
    ∃ position : Fin count → Fin LOG_DELTA → Fin n,
      (∀ j j' i i', position j i = position j' i' → j = j' ∧ i = i') ∧
      ∀ j : Fin count, ∃ row block choice,
        blocks[j.val]? = some row ∧ received[j.val]? = some block ∧
        choices[j.val]? = some choice ∧ choice.toNat < DELTA ∧
        index row choice.toNat = some block ∧
        ∃ (inputs : Fin DELTA → List UInt8) (own : List UInt8),
          (∀ c, row c = otOutput blake3 (inputs c)) ∧ block = otOutput blake3 own ∧
          ∀ c : Fin DELTA, c.val ≠ choice.toNat →
            (∃ i : Fin LOG_DELTA, ((inputs c).drop (16 * i)).take 16 = List.ofFn
              ((ots n (position j i)).1 (side !(ots n (position j i)).2))) ∧
            (inputs c).getLast? ≠ own.getLast?

/-- Counts that fit agree. -/
theorem deltaOtAgree_of_fits (blake3 : Blake3) {build : Build} (ots : BinaryOts) {count : ℕ}
    (hcount : 0 < count) (hfits : build.Fits count) : DeltaOtAgree blake3 build ots count := by
  obtain ⟨n, hn, henough⟩ := requiredBinaryOtCount_of_fits hcount hfits
  have hentries : count = min count (n / LOG_DELTA) := (Nat.min_eq_left henough).symm
  have hle : count * LOG_DELTA ≤ n := entries_le hentries
  refine ⟨n, _, _, _, hn, deltaOtSend_eq blake3 ots hn hle hentries,
    deltaOtReceive_eq blake3 ots hn hle hentries, List.length_ofFn, List.length_ofFn,
    List.length_ofFn, otPosition hle, fun j j' i i' => otPosition_inj hle, fun j => ?_⟩
  have hget : ∀ {α : Type} (f : Fin count → α), (List.ofFn f)[j.val]? = some (f j) := fun f => by
    rw [List.getElem?_ofFn, dif_pos j.isLt]
  refine ⟨_, _, _, hget _, hget _, hget _, choiceFromBits_lt _, ?_, fun c =>
    otInput (selected (otPairs ots hle j) (UInt8.ofNat c)) (UInt8.ofNat c), _, fun c => rfl, rfl,
    fun c hc => ⟨?_, ?_⟩⟩
  · -- The receiver has the block of its choice.
    rw [index_of_lt _ (choiceFromBits_lt _)]
    simp only [UInt8.ofNat_toNat, selected_choiceFromBits]
  · -- The bit where `c` differs picks the other block of its pair.
    obtain ⟨i, hi⟩ := exists_bit_ne hc
    refine ⟨i, ?_⟩
    rw [otInput_block]
    unfold selected
    rw [hi]
    rfl
  · -- The choice is hashed last, so that the other hashes are of other inputs.
    rw [otInput_getLast?, otInput_getLast?]
    intro h
    apply hc
    rw [← Option.some.inj h, ofNat_toNat_of_lt_delta c.isLt]

/-- The receiver gets exactly one block of each OT if and only if the number of binary OTs fits.
Where it does not, the code panics, or both sides have fewer outputs than are asked for. -/
theorem delta_ot_agree (blake3 : Blake3) (build : Build) (ots : BinaryOts) {count : ℕ}
    (hcount : 0 < count) : DeltaOtAgree blake3 build ots count ↔ build.Fits count := by
  refine ⟨?_, deltaOtAgree_of_fits blake3 ots hcount⟩
  rintro ⟨n, blocks, received, choices, hn, hsend, -, hlength, -⟩
  -- The sender's outputs are as many as there are binary OTs for.
  have hall := deltaOtSend_eq blake3 ots hn (entries_le rfl) rfl
  obtain rfl := Option.some.inj (hsend.symm.trans hall)
  rw [List.length_ofFn] at hlength
  exact (requiredBinaryOtCount_eq_some hn).2.1.mp (min_eq_left_iff.mp hlength)

theorem delta_ot_agree_three : DeltaOtAgree (fun _ input k => input.getD k 0)
    (Build.cryprot false) (fun _ k => (fun b i => UInt8.ofNat (2 * k + b + i), k.val % 3 == 0)) 3 :=
  (delta_ot_agree _ _ _ (by norm_num)).mpr
    (Build.fits_of_le _ (by norm_num))

/-- Where overflows wrap, both sides take 128 binary OTs for `2^62 + 1` OTs and have 32 outputs. -/
theorem delta_ot_wraps : ∃ blocks received choices,
    deltaOtSend (fun _ _ _ => 0) (Build.cryprot false)
      (BinaryOts.send fun _ _ => (fun _ _ => 0, true)) (2 ^ 62 + 1) = some blocks ∧
    deltaOtReceive (fun _ _ _ => 0) (Build.cryprot false)
      (BinaryOts.receive fun _ _ => (fun _ _ => 0, true)) (2 ^ 62 + 1) = some (received, choices) ∧
    blocks.length = 32 ∧ received.length = 32 ∧ choices.length = 32 ∧
    ¬ DeltaOtAgree (fun _ _ _ => 0) (Build.cryprot false)
      (fun _ _ => (fun _ _ => 0, true)) (2 ^ 62 + 1) := by
  have hn : requiredBinaryOtCount (Build.cryprot false) (2 ^ 62 + 1) = some 128 := by
    decide
  have hentries : 32 = min (2 ^ 62 + 1) (128 / LOG_DELTA) := by decide
  have hsend := deltaOtSend_eq (fun _ _ _ => 0) (fun _ _ => (fun _ _ => 0, true)) hn
    (entries_le hentries) hentries
  have hreceive := deltaOtReceive_eq (fun _ _ _ => 0) (fun _ _ => (fun _ _ => 0, true)) hn
    (entries_le hentries) hentries
  refine ⟨_, _, _, hsend, hreceive, List.length_ofFn, List.length_ofFn, List.length_ofFn, ?_⟩
  rintro ⟨n, blocks, received, choices, -, hsend', -, hlength, -⟩
  obtain rfl := Option.some.inj (hsend'.symm.trans hsend)
  rw [List.length_ofFn] at hlength
  omega

end PoolOprf

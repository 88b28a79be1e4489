import PoolOprf.Eval
import PoolOprf.Voprf.Commitments

/-!
# Statements

The statements that the server proves, as plain functions: the constraints of
`pool-voprf/src/constraints/` and the statements of `pool-voprf/src/statements/`. Both are generic
in the commitments, as in the source. A constraint's `holds` stops where the source's would;
`holds_eq_some_true` says what a true one means, and `holds_isSome` that it does not stop.
`OnlineStatement.Holds` and `PreprocessingStatement.Holds` are the relations that the two
statements' `holdsFor` decide.
-/

namespace PoolOprf

open Panic

/-! ## Constraints -/

/-- (K): `pk` is the commitment to the key. -/
structure Key (PK : Type) where
  /-- The commitment. -/
  pk : PK
  /-- The key. -/
  sk : SecretKey

/-- (M): `m^v` is the commitment to the mask sums. -/
structure MaskSum (M : Type) where
  /-- The commitment. -/
  m : M
  /-- `r̃^{v, k}_Σ` of each run `k`. -/
  r_sigma_sum : Fin RUNS_PER_EVALUATION → Zq
  /-- Hashed into `m^v` with the sums. -/
  randomness : CommitmentRandomness

/-- (P): `d^{v, k}_j` are the commitments to the pads. -/
structure Pads (D : Type) where
  /-- `d^{v, k}_0 .. d^{v, k}_{Δ-1}`. -/
  d : Fin DELTA → D
  /-- `r′^{v, k}_0 .. r′^{v, k}_{Δ-1}`. -/
  pads : Fin DELTA → Zp
  /-- Hashed into `d^{v, k}_j` with `r′^{v, k}_j`. -/
  randomness : Fin DELTA → CommitmentRandomness

/-- (A): the sum of the request and the mask sum. -/
structure Sum where
  /-- The request. -/
  e : Fin N → Zq
  /-- The key. -/
  sk : SecretKey
  /-- `r̃^{v, k}_Σ`. -/
  r_sigma_sum : Zq

/-- (R): the response. -/
structure Response where
  /-- `y^{v, k}_0 .. y^{v, k}_{Δ-1}`. -/
  y : Fin DELTA → Zp
  /-- `b̄′^{v, k}`. -/
  b_bar_prime : Zdelta
  /-- `ã^{v, k}_Σ`. -/
  a_sigma_sum : Zq
  /-- `r′^{v, k}_0 .. r′^{v, k}_{Δ-1}`. -/
  pads : Fin DELTA → Zp

/-- (S): the client's commitments open to the server's masks. -/
structure ServerMasks (C : Type) where
  /-- `c^v_{0, i}` and `c^v_{1, i}` of each `i`. -/
  c : Fin N → Fin 2 → C
  /-- `b̄_i` of each `i`. -/
  b_bar : Fin N → UInt8
  /-- The key. -/
  sk : SecretKey
  /-- `r^{v, k}_{b_i, i}` of each `i` and run `k`. -/
  masks : Fin N → Fin RUNS_PER_EVALUATION → Zq
  /-- `ot_block_{b_i, i}` of each `i`. -/
  ot_blocks : Fin N → CommitmentRandomness

/-- (T): the sums of the masks. -/
structure SumOfMasks where
  /-- The key. -/
  sk : SecretKey
  /-- `r^{v, k}_{b_i, i}` of each `i` and run `k`. -/
  masks : Fin N → Fin RUNS_PER_EVALUATION → Zq
  /-- `r̃^{v, k}_Σ` of each run `k`. -/
  r_sigma_sums : Fin RUNS_PER_EVALUATION → Zq

section Holds

variable {PK M D C : Type}

/-- (K). -/
def Key.holds [CommitmentTo PK SecretKey] (self : Key PK) : Option Bool :=
  some (CommitmentTo.commit self.sk == self.pk)

/-- (M). -/
def MaskSum.holds [CommitmentTo M MaskSumsInput] (self : MaskSum M) : Option Bool :=
  some (CommitmentTo.commit ⟨self.r_sigma_sum, self.randomness⟩ == self.m)

/-- (P). -/
def Pads.holds [CommitmentTo D PadInput] (self : Pads D) : Option Bool :=
  (List.finRange DELTA).allM fun j =>
    some (CommitmentTo.commit ⟨self.pads j, self.randomness j⟩ == self.d j)

/-- `ã^{v, k}_Σ` of (A). -/
def Sum.a_sigma_sum (self : Sum) : Option Zq := aSigmaSum self.sk self.r_sigma_sum self.e

/-- (A): every key and mask sum have a sum, so it holds for any operands in range. -/
def Sum.holds (self : Sum) : Option Bool :=
  Panic.and (some (self.r_sigma_sum.toNat < Q))
    ((List.finRange N).allM fun i => some ((self.e i).toNat < Q))

/-- (R). -/
def Response.holds (self : Response) : Option Bool :=
  Panic.and (some (self.b_bar_prime.toNat < DELTA)) <|
    Panic.and (some (self.a_sigma_sum.toNat < Q)) do
      let y ← respond self.a_sigma_sum self.pads self.b_bar_prime
      some (y == self.y)

/-- (S). -/
def ServerMasks.holds [CommitmentTo C MasksInput] (self : ServerMasks C) : Option Bool :=
  (List.finRange N).allM fun i =>
    let b_bar_i := self.b_bar i
    let b_i := (b_bar_i ^^^ self.sk.bits i).toNat
    Panic.and (some (b_bar_i.toNat ≤ 1)) do
      let c_b_i ← index (self.c i) b_i
      some (c_b_i == CommitmentTo.commit ⟨self.masks i, self.ot_blocks i⟩)

/-- (T). -/
def SumOfMasks.holds (self : SumOfMasks) : Option Bool :=
  Panic.and
    ((List.finRange N).allM fun i =>
      (List.finRange RUNS_PER_EVALUATION).allM fun k => some ((self.masks i k).toNat < Q))
    ((List.finRange RUNS_PER_EVALUATION).allM fun k => do
      let sum ← rSigmaSum self.sk fun i => self.masks i k
      some (sum == self.r_sigma_sums k))

/-! ### What a constraint says -/

theorem Key.holds_eq_some_true [CommitmentTo PK SecretKey] {self : Key PK} :
    self.holds = some true ↔ CommitmentTo.commit self.sk = self.pk := by simp [Key.holds]

theorem MaskSum.holds_eq_some_true [CommitmentTo M MaskSumsInput] {self : MaskSum M} :
    self.holds = some true ↔
      CommitmentTo.commit ⟨self.r_sigma_sum, self.randomness⟩ = self.m := by simp [MaskSum.holds]

theorem Pads.holds_eq_some_true [CommitmentTo D PadInput] {self : Pads D} :
    self.holds = some true ↔
      ∀ j, CommitmentTo.commit ⟨self.pads j, self.randomness j⟩ = self.d j := by
  rw [Pads.holds, allM_finRange_eq_some_true]
  simp only [Option.some.injEq, beq_iff_eq]

theorem Pads.holds_isSome [CommitmentTo D PadInput] (self : Pads D) : self.holds.isSome :=
  allM_isSome fun _ _ => rfl

theorem Sum.holds_eq_some_true {self : Sum} :
    self.holds = some true ↔ self.r_sigma_sum.toNat < Q ∧ ∀ i, (self.e i).toNat < Q := by
  rw [Sum.holds, and_eq_some_true, allM_finRange_eq_some_true]
  simp only [some_decide_eq_some_true]

theorem Sum.holds_isSome (self : Sum) : self.holds.isSome :=
  and_isSome rfl fun _ => allM_isSome fun _ _ => rfl

theorem Response.holds_eq_some_true {self : Response} :
    self.holds = some true ↔ self.b_bar_prime.toNat < DELTA ∧ self.a_sigma_sum.toNat < Q ∧
      self.y = responseEntry self.a_sigma_sum self.pads self.b_bar_prime := by
  rw [Response.holds, and_eq_some_true, and_eq_some_true]
  simp only [some_decide_eq_some_true]
  refine and_congr_right fun hb => and_congr_right fun ha => ?_
  rw [respond_of_lt self.pads ha hb]
  simp only [Option.bind_eq_bind, Option.bind_some, Option.some.injEq, beq_iff_eq]
  exact eq_comm

/-- The response is computed on a sum and a `b̄′` that were checked. -/
theorem Response.holds_isSome (self : Response) : self.holds.isSome := by
  refine and_isSome rfl fun hb => and_isSome rfl fun ha => ?_
  simp only [some_decide_eq_some_true] at hb ha
  rw [respond_of_lt self.pads ha hb]
  rfl

theorem ServerMasks.holds_eq_some_true [CommitmentTo C MasksInput] {self : ServerMasks C} :
    self.holds = some true ↔ ∀ i, (self.b_bar i).toNat ≤ 1 ∧
      index (self.c i) (self.b_bar i ^^^ self.sk.bits i).toNat =
        some (CommitmentTo.commit ⟨self.masks i, self.ot_blocks i⟩) := by
  rw [ServerMasks.holds, allM_finRange_eq_some_true]
  simp only [and_eq_some_true, some_decide_eq_some_true]
  refine forall_congr' fun i => and_congr_right fun hb => ?_
  rw [index_of_lt (self.c i) (xor_toNat_lt_two hb (self.sk.binary i))]
  simp

/-- A commitment is looked up at a bit. -/
theorem ServerMasks.holds_isSome [CommitmentTo C MasksInput] (self : ServerMasks C) :
    self.holds.isSome := by
  refine allM_isSome fun i _ => and_isSome rfl fun hb => ?_
  simp only [some_decide_eq_some_true] at hb
  rw [index_of_lt (self.c i) (xor_toNat_lt_two hb (self.sk.binary i))]
  rfl

theorem SumOfMasks.holds_eq_some_true {self : SumOfMasks} :
    self.holds = some true ↔ (∀ i k, (self.masks i k).toNat < Q) ∧
      ∀ k, self.r_sigma_sums k = reduceQ (rSigmaNat self.sk fun i => self.masks i k) := by
  rw [SumOfMasks.holds, and_eq_some_true, allM_finRange_eq_some_true, allM_finRange_eq_some_true]
  simp only [allM_finRange_eq_some_true, some_decide_eq_some_true]
  refine and_congr_right fun hm => forall_congr' fun k => ?_
  rw [rSigmaSum_of_lt self.sk fun i => hm i k]
  simp only [Option.bind_eq_bind, Option.bind_some, Option.some.injEq, beq_iff_eq]
  exact eq_comm

/-- The masks are summed after they were checked. -/
theorem SumOfMasks.holds_isSome (self : SumOfMasks) : self.holds.isSome := by
  refine and_isSome (allM_isSome fun i _ => allM_isSome fun k _ => rfl) fun hm => ?_
  simp only [allM_finRange_eq_some_true, some_decide_eq_some_true] at hm
  refine allM_isSome fun k _ => ?_
  rw [rSigmaSum_of_lt self.sk fun i => hm i k]
  rfl

end Holds

/-! ## The online statement -/

/-- What the online statement says of one run. -/
structure RunStatement (D : Type) where
  /-- `d^{v, k}_0 .. d^{v, k}_{Δ-1}`, the server's commitments to its pads. -/
  d : Fin DELTA → D
  /-- `e^{v, k}_1 .. e^{v, k}_n`, from the client's request. -/
  e : Fin N → Zq
  /-- `b̄′^{v, k}`, from the client's request. -/
  b_bar_prime : Zdelta
  /-- `y^{v, k}_0 .. y^{v, k}_{Δ-1}`. -/
  y : Fin DELTA → Zp

/-- The online statement: one evaluation. -/
structure OnlineStatement (PK M D : Type) where
  /-- The server's public key. -/
  pk : PK
  /-- `m^v`. -/
  m : M
  /-- One statement per run. -/
  runs : Fin RUNS_PER_EVALUATION → RunStatement D

/-- The witness of one run. -/
structure RunWitness where
  /-- `r̃^{v, k}_Σ`. -/
  r_sigma_sum : Zq
  /-- `r′^{v, k}_0 .. r′^{v, k}_{Δ-1}`. -/
  pads : Fin DELTA → Zp
  /-- The random values of `d`. -/
  d_randomness : Fin DELTA → CommitmentRandomness

/-- The witness of the online statement. -/
structure OnlineWitness where
  /-- The key. -/
  sk : SecretKey
  /-- The random value of `m^v`. -/
  m_randomness : CommitmentRandomness
  /-- One witness per run. -/
  runs : Fin RUNS_PER_EVALUATION → RunWitness

/-- The mask sums of all runs. -/
def OnlineWitness.r_sigma_sums (self : OnlineWitness) : Fin RUNS_PER_EVALUATION → Zq :=
  fun k => (self.runs k).r_sigma_sum

section Online

variable {PK M D : Type}

/-- The statement of one run with a given sum and response. -/
def RunStatement.honest [CommitmentTo D PadInput] (sk : SecretKey) (witness : RunWitness)
    (e : Fin N → Zq) (b_bar_prime : Zdelta) : Option (RunStatement D) := do
  let a_sigma_sum ← aSigmaSum sk witness.r_sigma_sum e
  let y ← respond a_sigma_sum witness.pads b_bar_prime
  some
    { d := fun j => CommitmentTo.commit ⟨witness.pads j, witness.d_randomness j⟩
      e := e
      b_bar_prime := b_bar_prime
      y := y }

/-- Whether a run's witness satisfies its statement. -/
def RunStatement.holdsFor [CommitmentTo D PadInput] (self : RunStatement D) (sk : SecretKey)
    (witness : RunWitness) : Option Bool := do
  let pads : Pads D := ⟨self.d, witness.pads, witness.d_randomness⟩
  let sum : Sum := ⟨self.e, sk, witness.r_sigma_sum⟩
  let a_sigma_sum ← sum.a_sigma_sum
  let response : Response := ⟨self.y, self.b_bar_prime, a_sigma_sum, witness.pads⟩
  Panic.and pads.holds (Panic.and sum.holds response.holds)

variable [CommitmentTo PK SecretKey] [CommitmentTo M MaskSumsInput] [CommitmentTo D PadInput]

/-- The honest online statement for a witness and a request. -/
def OnlineStatement.honest (witness : OnlineWitness) (e : Fin RUNS_PER_EVALUATION → Fin N → Zq)
    (b_bar_prime : Fin RUNS_PER_EVALUATION → Zdelta) : Option (OnlineStatement PK M D) := do
  let runs ← fromFn fun k =>
    RunStatement.honest witness.sk (witness.runs k) (e k) (b_bar_prime k)
  some
    { pk := CommitmentTo.commit witness.sk
      m := CommitmentTo.commit ⟨witness.r_sigma_sums, witness.m_randomness⟩
      runs := runs }

/-- Whether a witness satisfies the online statement. -/
def OnlineStatement.holdsFor (self : OnlineStatement PK M D) (witness : OnlineWitness) :
    Option Bool :=
  let key : Key PK := ⟨self.pk, witness.sk⟩
  let mask_sum : MaskSum M := ⟨self.m, witness.r_sigma_sums, witness.m_randomness⟩
  Panic.and key.holds <| Panic.and mask_sum.holds <|
    (List.finRange RUNS_PER_EVALUATION).allM fun k =>
      (self.runs k).holdsFor witness.sk (witness.runs k)

/-- The relation of one run. -/
structure RunStatement.Holds (statement : RunStatement D) (sk : SecretKey) (witness : RunWitness) :
    Prop where
  /-- (P). -/
  d : ∀ j, CommitmentTo.commit ⟨witness.pads j, witness.d_randomness j⟩ = statement.d j
  /-- The mask sum is in `ℤ_q`. -/
  r_sigma_sum : witness.r_sigma_sum.toNat < Q
  /-- The request is in `ℤ_q`. -/
  e : ∀ i, (statement.e i).toNat < Q
  /-- `b̄′` is in `ℤ_Δ`. -/
  b_bar_prime : statement.b_bar_prime.toNat < DELTA
  /-- (A) and (R). -/
  y : statement.y = responseEntry (reduceQ (aSigmaNat sk witness.r_sigma_sum statement.e)) witness.pads
    statement.b_bar_prime

/-- The relation of the online statement. -/
structure OnlineStatement.Holds (statement : OnlineStatement PK M D) (witness : OnlineWitness) :
    Prop where
  /-- (K). -/
  pk : CommitmentTo.commit witness.sk = statement.pk
  /-- (M). -/
  m : CommitmentTo.commit ⟨witness.r_sigma_sums, witness.m_randomness⟩ = statement.m
  /-- (P), (A), and (R) of each run. -/
  runs : ∀ k, (statement.runs k).Holds witness.sk (witness.runs k)

omit [CommitmentTo PK SecretKey] [CommitmentTo M MaskSumsInput] in
/-- A run's check decides the run's relation. -/
theorem RunStatement.holdsFor_eq_some_true {self : RunStatement D} {sk : SecretKey}
    {witness : RunWitness} : self.holdsFor sk witness = some true ↔ self.Holds sk witness := by
  rw [RunStatement.holdsFor, Sum.a_sigma_sum, aSigmaSum_eq, Option.bind_eq_bind,
    Option.bind_some, and_eq_some_true, and_eq_some_true, Pads.holds_eq_some_true,
    Sum.holds_eq_some_true, Response.holds_eq_some_true]
  constructor
  · rintro ⟨hd, ⟨hr, he⟩, hb, -, hy⟩
    exact ⟨hd, hr, he, hb, hy⟩
  · rintro ⟨hd, hr, he, hb, hy⟩
    exact ⟨hd, ⟨hr, he⟩, hb, reduceQ_lt _, hy⟩

omit [CommitmentTo PK SecretKey] [CommitmentTo M MaskSumsInput] in
theorem RunStatement.holdsFor_isSome (self : RunStatement D) (sk : SecretKey)
    (witness : RunWitness) : (self.holdsFor sk witness).isSome := by
  rw [RunStatement.holdsFor, Sum.a_sigma_sum, aSigmaSum_eq, Option.bind_eq_bind, Option.bind_some]
  exact and_isSome (Pads.holds_isSome _) fun _ =>
    and_isSome (Sum.holds_isSome _) fun _ => Response.holds_isSome _

/-- The check decides the relation. -/
theorem OnlineStatement.holdsFor_eq_some_true {self : OnlineStatement PK M D}
    {witness : OnlineWitness} : self.holdsFor witness = some true ↔ self.Holds witness := by
  simp only [OnlineStatement.holdsFor, and_eq_some_true, allM_finRange_eq_some_true,
    Key.holds_eq_some_true, MaskSum.holds_eq_some_true, RunStatement.holdsFor_eq_some_true]
  constructor
  · rintro ⟨hpk, hm, hruns⟩
    exact ⟨hpk, hm, hruns⟩
  · rintro ⟨hpk, hm, hruns⟩
    exact ⟨hpk, hm, hruns⟩

/-- The check does not stop, whatever the statement and the witness. -/
theorem OnlineStatement.holdsFor_isSome (self : OnlineStatement PK M D) (witness : OnlineWitness) :
    (self.holdsFor witness).isSome :=
  and_isSome rfl fun _ => and_isSome rfl fun _ => allM_isSome fun _ _ =>
    RunStatement.holdsFor_isSome _ _ _

/-- The statement that `honest` builds when the request's `b̄′` are in `ℤ_Δ`. -/
def OnlineStatement.ofWitness (witness : OnlineWitness)
    (e : Fin RUNS_PER_EVALUATION → Fin N → Zq) (b_bar_prime : Fin RUNS_PER_EVALUATION → Zdelta) :
    OnlineStatement PK M D where
  pk := CommitmentTo.commit witness.sk
  m := CommitmentTo.commit ⟨witness.r_sigma_sums, witness.m_randomness⟩
  runs k :=
    { d := fun j =>
        CommitmentTo.commit ⟨(witness.runs k).pads j, (witness.runs k).d_randomness j⟩
      e := e k
      b_bar_prime := b_bar_prime k
      y := responseEntry (reduceQ (aSigmaNat witness.sk (witness.runs k).r_sigma_sum (e k)))
        (witness.runs k).pads (b_bar_prime k) }

theorem OnlineStatement.honest_eq {witness : OnlineWitness}
    {e : Fin RUNS_PER_EVALUATION → Fin N → Zq} {b_bar_prime : Fin RUNS_PER_EVALUATION → Zdelta}
    (hb : ∀ k, (b_bar_prime k).toNat < DELTA) :
    (OnlineStatement.honest witness e b_bar_prime : Option (OnlineStatement PK M D)) =
      some (ofWitness witness e b_bar_prime) := by
  have hruns : (fromFn fun k => RunStatement.honest witness.sk (witness.runs k) (e k)
      (b_bar_prime k)) =
        some (ofWitness witness e b_bar_prime : OnlineStatement PK M D).runs := by
    refine fromFn_eq_some_iff.mpr fun k => ?_
    rw [RunStatement.honest, aSigmaSum_eq, Option.bind_eq_bind, Option.bind_some,
      respond_of_lt _ (reduceQ_lt _) (hb k)]
    rfl
  rw [OnlineStatement.honest, hruns]
  rfl

/-- An honest statement holds for its witness when the operands are in range. -/
theorem OnlineStatement.ofWitness_holds {witness : OnlineWitness}
    {e : Fin RUNS_PER_EVALUATION → Fin N → Zq} {b_bar_prime : Fin RUNS_PER_EVALUATION → Zdelta}
    (hr : ∀ k, (witness.runs k).r_sigma_sum.toNat < Q) (he : ∀ k i, (e k i).toNat < Q)
    (hb : ∀ k, (b_bar_prime k).toNat < DELTA) :
    (ofWitness witness e b_bar_prime : OnlineStatement PK M D).Holds witness where
  pk := rfl
  m := rfl
  runs k := ⟨fun _ => rfl, hr k, he k, hb k, rfl⟩

end Online

/-! ## The preprocessing statement -/

/-- What the preprocessing statement says of one evaluation. -/
structure EvaluationStatement (C M : Type) where
  /-- `c^v_{0, i}` and `c^v_{1, i}` of each `i`, from the client. -/
  c : Fin N → Fin 2 → C
  /-- `m^v`. -/
  m : M

/-- The preprocessing statement. -/
structure PreprocessingStatement (PK C M : Type) where
  /-- The server's public key. -/
  pk : PK
  /-- `b̄_0 .. b̄_{n-1}`, from the server. -/
  b_bar : Fin N → UInt8
  /-- One statement per evaluation. -/
  evaluations : List (EvaluationStatement C M)

/-- The witness of one evaluation. -/
structure EvaluationWitness where
  /-- `r^{v, k}_{b_i, i}` of each `i` and run `k`. -/
  masks : Fin N → Fin RUNS_PER_EVALUATION → Zq
  /-- `r̃^{v, k}_Σ` of each run `k`. -/
  r_sigma_sums : Fin RUNS_PER_EVALUATION → Zq
  /-- The random value of `m^v`. -/
  m_randomness : CommitmentRandomness

/-- The witness of the preprocessing statement. -/
structure PreprocessingWitness where
  /-- The key. -/
  sk : SecretKey
  /-- `ot_block_{b_i, i}` of each `i`: the server's binary OT blocks. -/
  ot_blocks : Fin N → CommitmentRandomness
  /-- One witness per evaluation. -/
  evaluations : List EvaluationWitness

section Preprocessing

variable {PK C M : Type}

section Evaluation

variable [CommitmentTo C MasksInput] [CommitmentTo M MaskSumsInput]

/-- Whether an evaluation's witness satisfies its statement. -/
def EvaluationStatement.holdsFor (self : EvaluationStatement C M) (b_bar : Fin N → UInt8)
    (sk : SecretKey) (ot_blocks : Fin N → CommitmentRandomness) (witness : EvaluationWitness) :
    Option Bool :=
  let masks : ServerMasks C := ⟨self.c, b_bar, sk, witness.masks, ot_blocks⟩
  let sum_of_masks : SumOfMasks := ⟨sk, witness.masks, witness.r_sigma_sums⟩
  let mask_sum : MaskSum M := ⟨self.m, witness.r_sigma_sums, witness.m_randomness⟩
  Panic.and masks.holds (Panic.and sum_of_masks.holds mask_sum.holds)

/-- The relation of one evaluation. -/
structure EvaluationStatement.Holds (statement : EvaluationStatement C M) (b_bar : Fin N → UInt8)
    (sk : SecretKey) (ot_blocks : Fin N → CommitmentRandomness) (witness : EvaluationWitness) :
    Prop where
  /-- `b̄` is bits. -/
  b_bar_le : ∀ i, (b_bar i).toNat ≤ 1
  /-- (S). -/
  c : ∀ i, index (statement.c i) (b_bar i ^^^ sk.bits i).toNat =
    some (CommitmentTo.commit ⟨witness.masks i, ot_blocks i⟩)
  /-- The masks are in `ℤ_q`. -/
  masks : ∀ i k, (witness.masks i k).toNat < Q
  /-- (T). -/
  r_sigma_sums : ∀ k, witness.r_sigma_sums k = reduceQ (rSigmaNat sk fun i => witness.masks i k)
  /-- (M). -/
  m : CommitmentTo.commit ⟨witness.r_sigma_sums, witness.m_randomness⟩ = statement.m

theorem EvaluationStatement.holdsFor_eq_some_true {self : EvaluationStatement C M}
    {b_bar : Fin N → UInt8} {sk : SecretKey} {ot_blocks : Fin N → CommitmentRandomness}
    {witness : EvaluationWitness} : self.holdsFor b_bar sk ot_blocks witness = some true ↔
      self.Holds b_bar sk ot_blocks witness := by
  simp only [EvaluationStatement.holdsFor, and_eq_some_true, ServerMasks.holds_eq_some_true,
    SumOfMasks.holds_eq_some_true, MaskSum.holds_eq_some_true]
  constructor
  · rintro ⟨hc, ⟨hmasks, hsums⟩, hm⟩
    exact ⟨fun i => (hc i).1, fun i => (hc i).2, hmasks, hsums, hm⟩
  · rintro ⟨hb, hc, hmasks, hsums, hm⟩
    exact ⟨fun i => ⟨hb i, hc i⟩, ⟨hmasks, hsums⟩, hm⟩

theorem EvaluationStatement.holdsFor_isSome (self : EvaluationStatement C M)
    (b_bar : Fin N → UInt8) (sk : SecretKey) (ot_blocks : Fin N → CommitmentRandomness)
    (witness : EvaluationWitness) : (self.holdsFor b_bar sk ot_blocks witness).isSome :=
  and_isSome (ServerMasks.holds_isSome _) fun _ =>
    and_isSome (SumOfMasks.holds_isSome _) fun _ => rfl

end Evaluation

variable [CommitmentTo PK SecretKey] [CommitmentTo C MasksInput] [CommitmentTo M MaskSumsInput]

omit [CommitmentTo C MasksInput] in
/-- The honest preprocessing statement for a witness and the client's commitments. -/
def PreprocessingStatement.honest (witness : PreprocessingWitness) (b_bar : Fin N → UInt8)
    (c : List (Fin N → Fin 2 → C)) : PreprocessingStatement PK C M where
  pk := CommitmentTo.commit witness.sk
  b_bar := b_bar
  evaluations := c.zipWith
    (fun c evaluation =>
      ⟨c, CommitmentTo.commit ⟨evaluation.r_sigma_sums, evaluation.m_randomness⟩⟩)
    witness.evaluations

/-- Whether a witness satisfies the preprocessing statement. -/
def PreprocessingStatement.holdsFor (self : PreprocessingStatement PK C M)
    (witness : PreprocessingWitness) : Option Bool :=
  let key : Key PK := ⟨self.pk, witness.sk⟩
  Panic.and key.holds <| Panic.and (some !self.evaluations.isEmpty) <|
    Panic.and (some (self.evaluations.length == witness.evaluations.length)) <|
      (self.evaluations.zip witness.evaluations).allM fun pair =>
        pair.1.holdsFor self.b_bar witness.sk witness.ot_blocks pair.2

/-- The relation of the preprocessing statement. -/
structure PreprocessingStatement.Holds (statement : PreprocessingStatement PK C M)
    (witness : PreprocessingWitness) : Prop where
  /-- (K). -/
  pk : CommitmentTo.commit witness.sk = statement.pk
  /-- There is an evaluation. -/
  nonempty : statement.evaluations ≠ []
  /-- As many statements as witnesses. -/
  length : statement.evaluations.length = witness.evaluations.length
  /-- (S), (T), and (M) of each evaluation. -/
  evaluations : ∀ pair ∈ statement.evaluations.zip witness.evaluations,
    pair.1.Holds statement.b_bar witness.sk witness.ot_blocks pair.2

/-- The check decides the relation. -/
theorem PreprocessingStatement.holdsFor_eq_some_true {self : PreprocessingStatement PK C M}
    {witness : PreprocessingWitness} : self.holdsFor witness = some true ↔ self.Holds witness := by
  simp only [PreprocessingStatement.holdsFor, and_eq_some_true, allM_eq_some_true,
    Key.holds_eq_some_true, EvaluationStatement.holdsFor_eq_some_true, Option.some.injEq,
    Bool.not_eq_true', List.isEmpty_eq_false_iff, beq_iff_eq]
  constructor
  · rintro ⟨hpk, hne, hlen, h⟩
    exact ⟨hpk, hne, hlen, h⟩
  · rintro ⟨hpk, hne, hlen, h⟩
    exact ⟨hpk, hne, hlen, h⟩

/-- The check does not stop, whatever the statement and the witness. -/
theorem PreprocessingStatement.holdsFor_isSome (self : PreprocessingStatement PK C M)
    (witness : PreprocessingWitness) : (self.holdsFor witness).isSome :=
  and_isSome rfl fun _ => and_isSome rfl fun _ => and_isSome rfl fun _ => allM_isSome fun _ _ =>
    EvaluationStatement.holdsFor_isSome _ _ _ _ _

end Preprocessing

/-! ## The setup statement -/

/-- The setup statement: `pk` commits to a key. -/
structure SetupStatement (PK : Type) where
  /-- The server's public key. -/
  pk : PK

/-- Whether a key satisfies the setup statement. -/
def SetupStatement.holdsFor {PK : Type} [CommitmentTo PK SecretKey] (self : SetupStatement PK)
    (sk : SecretKey) : Option Bool :=
  let key : Key PK := ⟨self.pk, sk⟩
  key.holds

end PoolOprf

import PoolOprf.Lib.Masking
import PoolOprf.Oprf.PreprocessingSpec

/-!
# What the preprocessing of a VOPRF shows of the key

`clientView` is what a client sees of the server's preprocessing before the proof, for OT choices
`b`: that the check of `c` failed, or `d` and `b̄`. With `Passes` for the check of one side of a
binary OT, that is what is seen of the key masked by `b` under a test of each bit (`clientView_eq`),
so `Masking.ncard_eq_iff` says when two keys are seen equally often. They are not when a client
makes one side of a pair bad: the check passes on the other side only, and `b̄` then shows the key
bit.
-/

namespace PoolOprf

open Panic

variable {S : Permutations} (stark : Stark Val) (blake3 : Blake3)

/-- The server's entry of a binary OT at its choice. -/
def rsEntry (pair : Fin 2 → Block) (b : Bool) : RsEntry where
  b := b.toUInt8
  ot_block := pair (side b)
  b_le := by cases b <;> decide

/-- The server's part of the OTs, at choices `b`. -/
def serverOts (ot_blocks : Fin N → Fin 2 → Block) (delta_ot_blocks : List (Fin DELTA → Block))
    (b : Fin N → Bool) : ServerOts where
  r_s i := rsEntry (ot_blocks i) (b i)
  delta_ot_blocks := delta_ot_blocks

/-- What the client sees of the server's preprocessing before the proof. -/
def clientView (tau : ℕ) (ot_blocks : Fin N → Fin 2 → Block)
    (delta_ot_blocks : List (Fin DELTA → Block)) (c : List (MasksMessage S)) (sk : SecretKey)
    (b : Fin N → Bool) :
    Option (Except (PreprocError stark) (List (PadsMessage S) × (Fin N → UInt8))) := do
  match ← preprocServerMessages stark blake3 sk tau (serverOts ot_blocks delta_ot_blocks b) c with
  | .error error => some (.error error)
  | .ok (_, d, b_bar) => some (.ok (d, b_bar))

/-- Side `b` of the pair of binary OT `i` passes the server's check: its commitment is right in
every evaluation. -/
def Passes (ot_blocks : Fin N → Fin 2 → Block) (cs : List (MasksCommitments S)) (i : Fin N)
    (b : Bool) : Prop :=
  ∀ (v : ℕ) c_v, cs[v]? = some c_v →
    c_v i (side b) = masksCommitment blake3 (ot_blocks i (side b)) v

/-- The server's check at choice `b` is that of side `b`. -/
theorem masksChecked_rsEntry (ot_blocks : Fin N → Fin 2 → Block) (cs : List (MasksCommitments S))
    (i : Fin N) (b : Bool) :
    MasksChecked blake3 (rsEntry (ot_blocks i) b) i 0 cs ↔ Passes blake3 ot_blocks cs i b := by
  unfold MasksChecked Passes
  refine forall_congr' fun v => forall_congr' fun c_v => forall_congr' fun _ => ?_
  rw [Nat.zero_add]
  have hindex : index (c_v i) (rsEntry (ot_blocks i) b).b.toNat =
      some (c_v i (side b)) := by
    cases b
    · exact index_val (c_v i) 0
    · exact index_val (c_v i) 1
  rw [hindex, Option.some_inj]
  rfl

/-- `b̄` is the choices xor the key. -/
theorem maskedKeyBits_rsEntry (ot_blocks : Fin N → Fin 2 → Block)
    (delta_ot_blocks : List (Fin DELTA → Block)) (sk : SecretKey) (b : Fin N → Bool) :
    maskedKeyBits sk (serverOts ot_blocks delta_ot_blocks b).r_s =
      fun i => (b i ^^ sk.bit i).toUInt8 := by
  funext i
  change (b i).toUInt8 ^^^ sk.bits i = _
  rw [sk.bits_eq]
  cases b i <;> cases sk.bit i <;> rfl

/-- What is seen of a masked key: the abort, or `d` and `b̄`. -/
def shown (d : List (PadsMessage S)) :
    Option (Fin N → Bool) →
      Option (Except (PreprocError stark) (List (PadsMessage S) × (Fin N → UInt8)))
  | none => some (.error .MasksMismatch)
  | some b_bar => some (.ok (d, fun i => (b_bar i).toUInt8))

theorem shown_injective (d : List (PadsMessage S)) : Function.Injective (shown stark d) := by
  rintro (_ | y) (_ | y') h
  · rfl
  · simp [shown] at h
  · simp [shown] at h
  · simp only [shown, Option.some_inj, Except.ok.injEq, Prod.mk.injEq, true_and] at h
    congr 1
    funext i
    have hi := congrFun h i
    revert hi
    cases y i <;> cases y' i <;> decide

variable {ot_blocks : Fin N → Fin 2 → Block} {delta_ot_blocks : List (Fin DELTA → Block)}

/-- What is seen, when the server reads `c`: the key masked by the choices, tested bit by bit. -/
theorem clientView_eq {tau : ℕ} (hdelta : delta_ot_blocks.length = tau)
    {messages : List (MasksMessage S)} {c : List (MasksCommitments S)}
    (hread : readMasksCommitments stark (evaluationsFor tau) messages = some (.ok c))
    (sk : SecretKey) (b : Fin N → Bool) :
    clientView stark blake3 tau ot_blocks delta_ot_blocks messages sk b =
      shown stark ((List.range (evaluationsFor tau)).map (padsMessage delta_ot_blocks))
        (Masking.observe (Passes blake3 ot_blocks c) sk.bit b) := by
  have hpads := padsCommitments_of_le (S := S)
    (hdelta ▸ tauFor_evaluationsFor_le tau :
      tauFor (evaluationsFor tau) ≤ delta_ot_blocks.length)
  unfold clientView preprocServerMessages
  simp only [Option.bind_eq_bind]
  -- `b̄` is sent when all checks pass, and else the error.
  by_cases hpass : ∀ i, Passes blake3 ot_blocks c i (b i)
  · have hreceived := receiveMasksCommitments_eq_ok.mpr
      ⟨hread, fun i => (masksChecked_rsEntry blake3 ot_blocks c i (b i)).mpr (hpass i)⟩
    change receiveMasksCommitments stark blake3 (serverOts ot_blocks delta_ot_blocks b).r_s
      (evaluationsFor tau) messages = some (.ok c) at hreceived
    have hb_bar := maskedKeyBits_rsEntry ot_blocks delta_ot_blocks sk b
    rw [hreceived, Masking.observe, if_pos hpass]
    simp only [Option.bind_some]
    change (((padsCommitments delta_ot_blocks _).bind _).bind _) = _
    rw [hpads]
    simp only [Option.bind_some, hb_bar]
    rfl
  · have hrefused := receiveMasksCommitments_mismatch blake3
      (serverOts ot_blocks delta_ot_blocks b).r_s hread
      fun h => hpass fun i => (masksChecked_rsEntry blake3 ot_blocks c i (b i)).mp (h i)
    change receiveMasksCommitments stark blake3 (serverOts ot_blocks delta_ot_blocks b).r_s
      (evaluationsFor tau) messages = _ at hrefused
    rw [hrefused, Masking.observe, if_neg hpass]
    rfl

/-- When two keys are seen equally often, for `c` that the server reads. -/
theorem clientView_ncard_iff {tau : ℕ} (hdelta : delta_ot_blocks.length = tau)
    {messages : List (MasksMessage S)} {c : List (MasksCommitments S)}
    (hread : readMasksCommitments stark (evaluationsFor tau) messages = some (.ok c))
    (sk sk' : SecretKey) :
    (∀ o, {b | clientView stark blake3 tau ot_blocks delta_ot_blocks messages sk b = o}.ncard =
        {b | clientView stark blake3 tau ot_blocks delta_ot_blocks messages sk' b = o}.ncard) ↔
      (∃ i, ∀ b, ¬ Passes blake3 ot_blocks c i b) ∨
        ∀ i, sk.bit i ≠ sk'.bit i → ∀ b, Passes blake3 ot_blocks c i b := by
  simp only [clientView_eq stark blake3 hdelta hread]
  rw [Masking.ncard_map_iff (shown_injective stark _), Masking.ncard_eq_iff]

/-- Two keys are seen equally often exactly when the server cannot read `c`, or some binary OT's
check fails on both sides, or the check passes on both sides of every binary OT where the keys
differ. -/
theorem preprocessing_hides_key_iff {tau : ℕ} (hdelta : delta_ot_blocks.length = tau)
    (messages : List (MasksMessage S)) (sk sk' : SecretKey) :
    (∀ o, {b | clientView stark blake3 tau ot_blocks delta_ot_blocks messages sk b = o}.ncard =
        {b | clientView stark blake3 tau ot_blocks delta_ot_blocks messages sk' b = o}.ncard) ↔
      ∀ c, readMasksCommitments stark (evaluationsFor tau) messages = some (.ok c) →
        (∃ i, ∀ b, ¬ Passes blake3 ot_blocks c i b) ∨
          ∀ i, sk.bit i ≠ sk'.bit i → ∀ b, Passes blake3 ot_blocks c i b := by
  have hreads : (readMasksCommitments stark (evaluationsFor tau) messages).isSome :=
    readMasksCommitments_isSome _ messages
  obtain ⟨result, hread⟩ := Option.isSome_iff_exists.mp hreads
  cases result with
  | error error =>
    -- Commitments that do not read are refused before anything of the key is used.
    have hview : ∀ sk b,
        clientView stark blake3 tau ot_blocks delta_ot_blocks messages sk b =
          some (.error error) := fun sk b => by
      have hunread := receiveMasksCommitments_unread blake3
        (serverOts ot_blocks delta_ot_blocks b).r_s hread
      change receiveMasksCommitments stark blake3 (serverOts ot_blocks delta_ot_blocks b).r_s
        (evaluationsFor tau) messages = _ at hunread
      unfold clientView preprocServerMessages
      simp only [Option.bind_eq_bind]
      rw [hunread]
      rfl
    simp [hview, hread]
  | ok c =>
    rw [clientView_ncard_iff stark blake3 hdelta hread sk sk', hread]
    simp

/-- A commitment to nothing that `honest` commits to. -/
def spoiled {DOMAIN LEN : ℕ} (honest : Commitment S DOMAIN LEN) : Commitment S DOMAIN LEN where
  digest k := honest.digest k + 1

theorem spoiled_ne {DOMAIN LEN : ℕ} (honest : Commitment S DOMAIN LEN) :
    spoiled honest ≠ honest := fun h => by
  have hzero := congrFun (congrArg Commitment.digest h) 0
  simp [spoiled] at hzero

/-- `c` of one evaluation, right but for side 1 of the first binary OT. -/
def oneSided (blake3 : Blake3) (ot_blocks : Fin N → Fin 2 → Block) : MasksCommitments S :=
  fun i b =>
    if i = 0 ∧ b = side true then spoiled (masksCommitment blake3 (ot_blocks i b) 0)
    else masksCommitment blake3 (ot_blocks i b) 0

/-- Only side 1 of the first binary OT fails. -/
theorem passes_oneSided (i : Fin N) (b : Bool) :
    Passes (S := S) blake3 ot_blocks [oneSided blake3 ot_blocks] i b ↔ ¬ (i = 0 ∧ b = true) := by
  constructor
  · rintro h ⟨rfl, rfl⟩
    have hzero := h 0 _ rfl
    rw [oneSided, if_pos ⟨rfl, rfl⟩] at hzero
    exact spoiled_ne _ hzero
  · rintro h (_ | v) c_v hc_v
    · obtain rfl := Option.some.inj hc_v
      rw [oneSided, if_neg]
      rintro ⟨rfl, hb⟩
      cases b
      · cases hb
      · exact h ⟨rfl, rfl⟩
    · cases hc_v

/-- A client that spoils one side of one pair sees the key's first bit: a `b̄` that it is shown is
that bit there. -/
theorem oneSided_shows_key (hdelta : delta_ot_blocks.length = 16) {sk sk' : SecretKey}
    (h : sk.bit 0 ≠ sk'.bit 0) : ¬ ∀ o,
    {b | clientView (S := S) stark blake3 16 ot_blocks delta_ot_blocks
        ([oneSided blake3 ot_blocks].map List.ofFn) sk b = o}.ncard =
      {b | clientView (S := S) stark blake3 16 ot_blocks delta_ot_blocks
        ([oneSided blake3 ot_blocks].map List.ofFn) sk' b = o}.ncard := by
  have hread : readMasksCommitments (S := S) stark (evaluationsFor 16)
      ([oneSided blake3 ot_blocks].map List.ofFn) = some (.ok [oneSided blake3 ot_blocks]) :=
    readMasksCommitments_map [oneSided blake3 ot_blocks]
  rw [clientView_ncard_iff stark blake3 hdelta hread]
  simp only [passes_oneSided]
  rintro (⟨i, hi⟩ | hsides)
  · exact hi false fun h => Bool.false_ne_true h.2
  · exact hsides 0 h true ⟨rfl, rfl⟩

/-- Right commitments pass on both sides. -/
theorem passes_masksCommitments (evaluations : ℕ) (i : Fin N) (b : Bool) :
    Passes (S := S) blake3 ot_blocks (masksCommitments blake3 ot_blocks evaluations) i b := by
  intro v c_v hc_v
  rw [masksCommitments_getElem? hc_v]

theorem preprocessing_shows_key : ¬ ∀ o,
    {b | clientView (S := Permutations.identity) (Stark.transparent Val) (fun _ _ _ => 0) 16
        (fun _ _ _ => 0) (List.replicate 16 fun _ _ => 0)
        ([oneSided (fun _ _ _ => 0) fun _ _ _ => 0].map List.ofFn)
        (SecretKey.ofBool fun _ => false) b = o}.ncard =
      {b | clientView (S := Permutations.identity) (Stark.transparent Val) (fun _ _ _ => 0) 16
        (fun _ _ _ => 0) (List.replicate 16 fun _ _ => 0)
        ([oneSided (fun _ _ _ => 0) fun _ _ _ => 0].map List.ofFn)
        (SecretKey.ofBool fun i => decide (i = 0)) b = o}.ncard :=
  oneSided_shows_key (Stark.transparent Val) (fun _ _ _ => 0) List.length_replicate <| by
    rw [SecretKey.bit_ofBool, SecretKey.bit_ofBool, decide_eq_true rfl]
    exact Bool.false_ne_true

/-- Right commitments of one evaluation, over 16 runs, show `d` and the masked key. -/
theorem clientView_masksCommitments (hdelta : delta_ot_blocks.length = 16) (sk : SecretKey)
    (b : Fin N → Bool) :
    clientView (S := S) stark blake3 16 ot_blocks delta_ot_blocks
      ((masksCommitments blake3 ot_blocks 1).map List.ofFn) sk b =
        some (.ok (((List.range 1).map (padsMessage delta_ot_blocks) : List (PadsMessage S)),
          fun i => (b i ^^ sk.bit i).toUInt8)) := by
  have hread : readMasksCommitments (S := S) stark (evaluationsFor 16)
      ((masksCommitments blake3 ot_blocks 1).map List.ofFn) =
        some (.ok (masksCommitments blake3 ot_blocks 1)) :=
    readMasksCommitments_map (masksCommitments blake3 ot_blocks 1)
  rw [clientView_eq stark blake3 hdelta hread, Masking.observe,
    if_pos fun i => passes_masksCommitments blake3 1 i (b i)]
  rfl

theorem preprocessing_hides_key_iff_sent : ∃ d : List (PadsMessage Permutations.identity),
    clientView (Stark.transparent Val) lastByteHash 16 sideBlocks (List.replicate 16 positionBlocks)
        ((masksCommitments lastByteHash sideBlocks 1).map List.ofFn) oneBitKey
        (fun i => !oneBitKey.bit i) = some (.ok (d, fun _ => 1)) ∧
    {b | clientView (Stark.transparent Val) lastByteHash 16 sideBlocks (List.replicate 16 positionBlocks)
        ((masksCommitments lastByteHash sideBlocks 1).map List.ofFn) oneBitKey b =
          some (.ok (d, fun _ => 1))}.ncard =
      {b | clientView (Stark.transparent Val) lastByteHash 16 sideBlocks (List.replicate 16 positionBlocks)
        ((masksCommitments lastByteHash sideBlocks 1).map List.ofFn) (SecretKey.ofBool fun _ => false) b =
          some (.ok (d, fun _ => 1))}.ncard := by
  refine ⟨(List.range 1).map (padsMessage (List.replicate 16 positionBlocks)),
    (clientView_masksCommitments (Stark.transparent Val) lastByteHash List.length_replicate oneBitKey
      fun i => !oneBitKey.bit i).trans ?_, ?_⟩
  · simp only [Bool.not_bne_self]
    rfl
  · refine (preprocessing_hides_key_iff (Stark.transparent Val) lastByteHash List.length_replicate
      _ _ _).mpr (fun c hread => Or.inr fun i _ b => ?_) _
    have hc := hread.symm.trans (readMasksCommitments_map (masksCommitments lastByteHash sideBlocks 1))
    obtain rfl := Except.ok.inj (Option.some.inj hc)
    exact passes_masksCommitments _ 1 i b

end PoolOprf

import PoolOprf.Oprf.RequestPrivacy
import PoolOprf.Oprf.Correctness

/-!
# What a session with a client shows

The server has one block of each pair, and all pads. What it does not have of a run are two bytes of
the output stream of each other block, and the client's choice `b′` (`HiddenRun`). `withStreams` is
BLAKE3 with these bytes at the blocks that the server lacks, and `withHidden` a client with these
choices. A run is in one row only, so `Pads.shear` moves what is hidden of each run by the
difference of two inputs' rows, and every row stays as it is (`rowRequest_shear`).
`requests_hide_inputs` follows for all requests of a session: they show how many inputs there are,
and nothing else of them. It is about the requests only: what a VOPRF's preprocessing sends of the
same masks, the commitments `c^v`, is not in what is compared.
-/

namespace PoolOprf

open Panic
open scoped UInt16.CommRing

variable {S : Permutations}

/-! ## Streams that are free -/

/-- What the server does not have of a run: two bytes of each stream, and the client's choice. -/
abbrev HiddenRun := (Fin N → UInt16) × ZMod DELTA

/-- The byte of a little-endian pair. -/
def pairByte (pair : UInt16) (position : ℕ) : UInt8 :=
  if position = 0 then pair.toUInt8 else (pair >>> 8).toUInt8

/-- BLAKE3, with the bytes of `τ` masks of some blocks given. -/
def withStreams (blake3 : Blake3) (blocks : Fin N → Block) {tau : ℕ} (hidden : Fin tau → HiddenRun) :
    Blake3 := fun mode input position =>
  if mode = .deriveKey R_DOMAIN_SEPARATOR then
    match (List.finRange N).find? fun i => input = List.ofFn (blocks i) with
    | some i => if h : position / 2 < tau then
        pairByte ((hidden ⟨position / 2, h⟩).1 i) (position % 2)
      else blake3 mode input position
    | none => blake3 mode input position
  else blake3 mode input position

/-- Two bytes are a pair. -/
theorem u16FromLeBytes_pairByte (pair : UInt16) :
    u16FromLeBytes (pairByte pair 0) (pairByte pair 1) = pair := by
  have hlt := pair.toNat_lt
  have hor := Nat.shiftLeft_add_eq_or_of_lt (b := pair.toNat % 2 ^ 8) (i := 8)
    (Nat.mod_lt _ (by norm_num)) (pair.toNat / 2 ^ 8)
  have hhigh : pair.toNat / 2 ^ 8 % 2 ^ 8 = pair.toNat / 2 ^ 8 := Nat.mod_eq_of_lt (by omega)
  have hshift : (pair.toNat / 2 ^ 8) <<< 8 % 2 ^ 16 = (pair.toNat / 2 ^ 8) <<< 8 := by
    rw [Nat.shiftLeft_eq]
    omega
  unfold u16FromLeBytes pairByte
  rw [if_pos rfl, if_neg one_ne_zero, ← UInt16.toNat_inj, UInt16.toNat_or, UInt16.toNat_shiftLeft,
    UInt8.toNat_toUInt16, UInt8.toNat_toUInt16, UInt16.toNat_toUInt8, UInt16.toNat_toUInt8,
    UInt16.toNat_shiftRight]
  change pair.toNat % 2 ^ 8 ||| (pair.toNat >>> 8 % 2 ^ 8) <<< 8 % 2 ^ 16 = pair.toNat
  rw [Nat.shiftRight_eq_div_pow, hhigh, hshift, Nat.or_comm, ← hor, Nat.shiftLeft_eq]
  omega

section Streams

variable (blake3 : Blake3) {blocks : Fin N → Block} {tau : ℕ} (hidden : Fin tau → HiddenRun)

/-- Inputs are hashed as before. -/
theorem hashToZqMatrix_withStreams (tag input : List UInt8) :
    hashToZqMatrix (withStreams blake3 blocks hidden) tag input = hashToZqMatrix blake3 tag input := by
  have hmode : Blake3Mode.deriveKey RO_DOMAIN_SEPARATOR ≠ .deriveKey R_DOMAIN_SEPARATOR := by decide
  unfold hashToZqMatrix withStreams
  simp only [if_neg hmode]

/-- So are other blocks. -/
theorem maskOf_withStreams_of_ne {block : Block} (h : ∀ i, block ≠ blocks i) (run : ℕ) :
    maskOf (withStreams blake3 blocks hidden) block run = maskOf blake3 block run := by
  have hfind : ((List.finRange N).find? fun i => List.ofFn block = List.ofFn (blocks i)) = none := by
    refine List.find?_eq_none.mpr fun i _ hi => h i ?_
    exact List.ofFn_injective (of_decide_eq_true hi)
  unfold maskOf maskStream withStreams
  simp only [if_true, hfind]

/-- The mask of a block whose bytes are given. -/
theorem maskOf_withStreams (hblocks : Function.Injective blocks) (i : Fin N) {run : ℕ}
    (hrun : run < tau) :
    maskOf (withStreams blake3 blocks hidden) (blocks i) run =
      reduceQ ((hidden ⟨run, hrun⟩).1 i).toNat := by
  have hfind : ((List.finRange N).find? fun i' => List.ofFn (blocks i) = List.ofFn (blocks i')) =
      some i := by
    cases hfind : (List.finRange N).find? fun i' => List.ofFn (blocks i) = List.ofFn (blocks i') with
    | none =>
      have hnot := List.find?_eq_none.mp hfind i (List.mem_finRange i)
      exact absurd (decide_eq_true rfl) hnot
    | some i' =>
      have heq := List.find?_some hfind
      rw [hblocks (List.ofFn_injective (of_decide_eq_true heq))]
  have hlo : 2 * run / 2 = run := by omega
  have hhi : (2 * run + 1) / 2 = run := by omega
  have hlo' : 2 * run % 2 = 0 := by omega
  have hhi' : (2 * run + 1) % 2 = 1 := by omega
  unfold maskOf maskStream withStreams
  simp only [if_true, hfind, hlo, hhi, hlo', hhi', hrun, dite_true, u16FromLeBytes_pairByte]

end Streams

/-! ## Rows of a client whose choices are free -/

namespace ClientState

/-- The blocks that the server does not have, if it chose `b`. -/
def otherBlocks (state : ClientState S) (b : Fin N → Bool) : Fin N → Block :=
  fun i => state.blockAt i (!b i)

/-- No block that the server lacks is another of the client's, as for the random blocks of an OT but
for a negligible chance. -/
structure OthersFresh (state : ClientState S) (b : Fin N → Bool) : Prop where
  /-- They are different from each other. -/
  injective : Function.Injective (state.otherBlocks b)
  /-- They are different from those that the server has. -/
  known : ∀ i i', state.blockAt i (b i) ≠ state.otherBlocks b i'

/-- A client with other choices. The pads of each run are the server's. -/
def withHidden (state : ClientState S) (s_s : Fin state.runs.tau → Fin DELTA → Zp)
    (hidden : Fin state.runs.tau → HiddenRun) : ClientState S where
  ot_blocks := state.ot_blocks
  bhat := state.bhat
  r_c := List.ofFn fun run =>
    { b_prime := zdeltaOf (hidden run).2
      r_prime := s_s run ⟨(hidden run).2.val, ZMod.val_lt _⟩
      b_prime_lt := zdeltaOf_lt _ }
  uid := state.uid
  runs := state.runs
  voprf := state.voprf
  bhat_le := state.bhat_le
  r_c_length := List.length_ofFn
  m_length := state.m_length
  d_length := state.d_length

/-- `r_Σ mod Δ` of a run, as the hidden bytes decide it. -/
def rSigmaHidden (state : ClientState S) (blake3 : Blake3) (b : Fin N → Bool) (run : ℕ)
    (pairs : Fin N → UInt16) : ZMod DELTA :=
  ((reduceQ (∑ i, (if state.bhatBit i = b i then maskOf blake3 (state.blockAt i (b i)) run
    else reduceQ (pairs i).toNat).toNat)).toNat : ZMod DELTA)

/-- The classes of a request's row. -/
theorem rowRequest_eq (state : ClientState S) (blake3 : Blake3) (b : Fin N → Bool) (a : Fin N → Zq)
    (run : ℕ) : state.rowRequest blake3 a run =
      { e := fun i => zqOf (((a i).toNat : ZMod Q) + (state.maskAt blake3 run i (b i)).toNat +
          (state.maskAt blake3 run i (!b i)).toNat)
        b_bar_prime := zdeltaOf (((state.rSigma blake3 run).toNat : ZMod DELTA) -
          (state.rcAt run).b_prime.toNat) } := by
  refine congrArg₂ RowRequest.mk (funext fun i => ?_) (zdeltaOf_sub _ (state.rcAt run).b_prime_lt)
  rw [← zqOf_natCast, Nat.cast_add, Nat.cast_add, add_assoc, add_assoc]
  refine congrArg (fun masks => zqOf (((a i).toNat : ZMod Q) + masks)) ?_
  -- Both masks of the pair are in the sum, in either order.
  by_cases hside : state.bhatBit i = b i
  · rw [hside]
  · rw [Bool.eq_not.mpr hside, Bool.not_not, add_comm]

variable {state : ClientState S} {b : Fin N → Bool}

/-- A row as what is hidden decides it: the input with the hidden masks, `r_Σ` with the choice. -/
theorem rowRequest_withHidden (blake3 : Blake3) (hfresh : state.OthersFresh b)
    (s_s : Fin state.runs.tau → Fin DELTA → Zp) (hidden : Fin state.runs.tau → HiddenRun)
    (a : Fin N → Zq) {run : ℕ} (hrun : run < state.runs.tau) :
    (state.withHidden s_s hidden).rowRequest (withStreams blake3 (state.otherBlocks b) hidden) a run =
      { e := fun i => zqOf (((a i).toNat : ZMod Q) + (maskOf blake3 (state.blockAt i (b i)) run).toNat +
          ((hidden ⟨run, hrun⟩).1 i).toNat)
        b_bar_prime := zdeltaOf (state.rSigmaHidden blake3 b run (hidden ⟨run, hrun⟩).1 -
          (hidden ⟨run, hrun⟩).2) } := by
  have hknown : ∀ i, (state.withHidden s_s hidden).maskAt
      (withStreams blake3 (state.otherBlocks b) hidden) run i (b i) =
        maskOf blake3 (state.blockAt i (b i)) run :=
    fun i => maskOf_withStreams_of_ne blake3 hidden (hfresh.known i) run
  have hother : ∀ i, (state.withHidden s_s hidden).maskAt
      (withStreams blake3 (state.otherBlocks b) hidden) run i (!b i) =
        reduceQ ((hidden ⟨run, hrun⟩).1 i).toNat :=
    fun i => maskOf_withStreams blake3 hidden hfresh.injective i hrun
  have hrc : (state.withHidden s_s hidden).rcAt run =
      { b_prime := zdeltaOf (hidden ⟨run, hrun⟩).2
        r_prime := s_s ⟨run, hrun⟩ ⟨(hidden ⟨run, hrun⟩).2.val, ZMod.val_lt _⟩
        b_prime_lt := zdeltaOf_lt _ } := by
    rw [rcAt, withHidden, List.getD_eq_getElem?_getD, List.getElem?_ofFn, dif_pos hrun,
      Option.getD_some]
  -- `b̄` picks the server's mask of a pair where it is the server's choice, and the hidden one
  -- elsewhere.
  have hpicked : ∀ i, (state.withHidden s_s hidden).maskAt
      (withStreams blake3 (state.otherBlocks b) hidden) run i (state.bhatBit i) =
        if state.bhatBit i = b i then maskOf blake3 (state.blockAt i (b i)) run
          else reduceQ ((hidden ⟨run, hrun⟩).1 i).toNat := by
    intro i
    by_cases hside : state.bhatBit i = b i
    · rw [if_pos hside, hside, hknown]
    · rw [if_neg hside, Bool.eq_not.mpr hside, hother]
  have hsum : ((state.withHidden s_s hidden).rSigma
      (withStreams blake3 (state.otherBlocks b) hidden) run).toNat =
        (reduceQ (∑ i, (if state.bhatBit i = b i then maskOf blake3 (state.blockAt i (b i)) run
          else reduceQ ((hidden ⟨run, hrun⟩).1 i).toNat).toNat)).toNat := by
    simp only [← hpicked]
    rfl
  -- Entry by entry the two masks of a pair add up, whichever of them the client knows.
  rw [rowRequest_eq _ _ b]
  refine congrArg₂ RowRequest.mk (funext fun i => ?_) ?_
  · rw [hknown, hother, reduceQ_cast]
  · rw [hrc, hsum, zdeltaOf_cast]
    rfl

end ClientState

/-- Sums of byte pairs are sums mod `q`, which divides `2 ^ 16`. -/
theorem cast_pair_add (x y : UInt16) : ((x + y).toNat : ZMod Q) = x.toNat + y.toNat := by
  have hmod : (x.toNat + y.toNat) % 2 ^ 16 ≡ x.toNat + y.toNat [MOD Q] :=
    Nat.mod_mod_of_dvd _ (by norm_num)
  rw [UInt16.toNat_add, ← Nat.cast_add]
  exact (ZMod.natCast_eq_natCast_iff _ _ _).mpr hmod

/-- What moves the hidden part of a run from one row of an input to another. -/
noncomputable def moveRun (state : ClientState S) (blake3 : Blake3) (b : Fin N → Bool) (a a' : ℕ → Fin N → Zq)
    (run : ℕ) : Equiv.Perm HiddenRun :=
  Pads.shear (fun i => a run i - a' run i) (state.rSigmaHidden blake3 b run)

/-- With what is hidden of its run moved, a row stays as it is. -/
theorem rowRequest_shear (blake3 : Blake3) {state : ClientState S} {b : Fin N → Bool}
    (hfresh : state.OthersFresh b) (s_s : Fin state.runs.tau → Fin DELTA → Zp)
    (hidden : Fin state.runs.tau → HiddenRun) (a a' : ℕ → Fin N → Zq) {run : ℕ}
    (hrun : run < state.runs.tau) :
    let moved := fun k : Fin state.runs.tau => moveRun state blake3 b a a' k (hidden k)
    (state.withHidden s_s moved).rowRequest (withStreams blake3 (state.otherBlocks b) moved)
        (a' run) run =
      (state.withHidden s_s hidden).rowRequest (withStreams blake3 (state.otherBlocks b) hidden)
        (a run) run := by
  intro moved
  rw [ClientState.rowRequest_withHidden blake3 hfresh s_s moved (a' run) hrun,
    ClientState.rowRequest_withHidden blake3 hfresh s_s hidden (a run) hrun]
  refine congrArg₂ RowRequest.mk (funext fun i => congrArg zqOf ?_) (congrArg zdeltaOf ?_)
  · -- The masks are moved by what the input's row differs by.
    have hmoved : (moved ⟨run, hrun⟩).1 i = (hidden ⟨run, hrun⟩).1 i + (a run i - a' run i) := rfl
    have ha : ((a run i).toNat : ZMod Q) = (a run i - a' run i).toNat + (a' run i).toNat := by
      rw [← cast_pair_add, sub_add_cancel]
    rw [hmoved, cast_pair_add, ha]
    ring
  · exact Pads.shear_snd _ (state.rSigmaHidden blake3 b run) (hidden ⟨run, hrun⟩)

/-! ## Clients whose rows are the same -/

/-- The rows of the matrices of some inputs, from a run on. -/
def RowsFor (blake3 : Blake3) (tag : List UInt8) (inputs : List (List UInt8)) (ctr : ℕ)
    (a : ℕ → Fin N → Zq) : Prop :=
  ∀ (v : ℕ) (input : List UInt8) (k : Fin H_ROWS), inputs[v]? = some input →
    a (ctr + (tauFor v + k)) = hashToZqMatrix blake3 tag input k

theorem RowsFor.tail {blake3 : Blake3} {tag input : List UInt8} {inputs : List (List UInt8)} {ctr : ℕ}
    {a : ℕ → Fin N → Zq} (h : RowsFor blake3 tag (input :: inputs) ctr a) :
    RowsFor blake3 tag inputs (ctr + H_ROWS) a := by
  intro v input' k hinput
  have hrun : ctr + H_ROWS + (tauFor v + k.val) = ctr + (tauFor (v + 1) + k.val) := by
    rw [tauFor_succ]
    ring
  rw [hrun]
  exact h (v + 1) input' k hinput

/-- They do not depend on the streams of blocks. -/
theorem RowsFor.withStreams {blake3 : Blake3} {tag : List UInt8} {inputs : List (List UInt8)} {ctr : ℕ}
    {a : ℕ → Fin N → Zq} (h : RowsFor blake3 tag inputs ctr a) (blocks : Fin N → Block) {tau : ℕ}
    (hidden : Fin tau → HiddenRun) :
    RowsFor (withStreams blake3 blocks hidden) tag inputs ctr a := by
  intro v input k hinput
  rw [hashToZqMatrix_withStreams]
  exact h v input k hinput

/-- There are such rows, and they can be anything from the next run on. -/
theorem exists_rowsFor (blake3 : Blake3) (tag : List UInt8) :
    ∀ (inputs : List (List UInt8)) (ctr : ℕ) (rest : ℕ → Fin N → Zq), ∃ a,
      RowsFor blake3 tag inputs ctr a ∧ ∀ run, ctr + tauFor inputs.length ≤ run → a run = rest run
  | [], ctr, rest => ⟨rest, fun _ _ _ h => by simp at h, fun _ _ => rfl⟩
  | input :: inputs, ctr, rest => by
    obtain ⟨a, ha, hrest⟩ := exists_rowsFor blake3 tag inputs (ctr + H_ROWS) rest
    -- The first evaluation on its own runs, and the others from the next ones on.
    refine ⟨fun run => if h : run - ctr < H_ROWS then hashToZqMatrix blake3 tag input ⟨run - ctr, h⟩
      else a run, ?_, ?_⟩
    · intro v input' k hinput
      have hk : k.val < 16 := k.isLt
      cases v with
      | zero =>
        obtain rfl : input = input' := Option.some.inj hinput
        have hrun : ctr + (tauFor 0 + k.val) - ctr = k.val := by
          rw [tauFor_zero, Nat.zero_add, Nat.add_sub_cancel_left]
        simp only [hrun, k.isLt, dite_true]
      | succ v =>
        have hlt : ¬ ctr + (tauFor (v + 1) + k.val) - ctr < H_ROWS := by
          rw [tauFor_succ]
          omega
        have hrun : ctr + (tauFor (v + 1) + k.val) = ctr + H_ROWS + (tauFor v + k.val) := by
          rw [tauFor_succ]
          ring
        simp only [hlt, dite_false]
        rw [hrun]
        exact ha v input' k hinput
    · intro run hle
      rw [List.length_cons, tauFor_succ] at hle
      have hlt : ¬ run - ctr < H_ROWS := by omega
      simp only [hlt, dite_false]
      exact hrest run (by omega)

/-- Two clients of one session whose rows are the same from the next run on, the one's of `a` and
the other's of `a'`. -/
structure Alike (blake3 blake3' : Blake3) (client client' : ClientState S) (a a' : ℕ → Fin N → Zq) :
    Prop where
  uid : client'.uid = client.uid
  voprf : client'.voprf = client.voprf
  tau : client'.runs.tau = client.runs.tau
  ctr : client'.runs.ctr = client.runs.ctr
  row : ∀ run, client.runs.ctr ≤ run → run < client.runs.tau →
    client'.rowRequest blake3' (a' run) run = client.rowRequest blake3 (a run) run

section Alike

variable {blake3 blake3' : Blake3} {client client' : ClientState S} {a a' : ℕ → Fin N → Zq}
  {tag : List UInt8}

/-- Their evaluations are the same. -/
theorem Alike.evaluationRows (h : Alike blake3 blake3' client client' a a') {ctr : ℕ}
    (m m' : ZqMatrix) (hctr : client.runs.ctr ≤ ctr) (hle : ctr + H_ROWS ≤ client.runs.tau)
    (hm : ∀ k : Fin H_ROWS, a (ctr + k) = m k) (hm' : ∀ k : Fin H_ROWS, a' (ctr + k) = m' k) :
    client'.evaluationRows blake3' m' ctr = client.evaluationRows blake3 m ctr := by
  unfold ClientState.evaluationRows
  refine congrArg List.ofFn (funext fun k => ?_)
  have hk : k.val < 16 := k.isLt
  rw [← hm, ← hm']
  exact h.row _ (by omega) (by omega)

/-- So are their requests and the statements. -/
theorem Alike.requestRows (h : Alike blake3 blake3' client client' a a') :
    ∀ {inputs inputs' : List (List UInt8)} {ctr : ℕ}, inputs'.length = inputs.length →
      client.runs.ctr ≤ ctr → ctr + tauFor inputs.length ≤ client.runs.tau →
      RowsFor blake3 tag inputs ctr a → RowsFor blake3' tag inputs' ctr a' →
      client'.requestRows blake3' tag ctr inputs' = client.requestRows blake3 tag ctr inputs ∧
      client'.requestStatements blake3' tag ctr inputs' =
        client.requestStatements blake3 tag ctr inputs
  | [], [], _, _, _, _, _, _ => ⟨rfl, rfl⟩
  | input :: inputs, input' :: inputs', ctr, hlen, hctr, hle, ha, ha' => by
    rw [List.length_cons, tauFor_succ] at hle
    have hfirst : ∀ k : Fin H_ROWS, ctr + (tauFor 0 + k.val) = ctr + k.val := fun k => by
      rw [tauFor_zero, Nat.zero_add]
    have heval := h.evaluationRows (hashToZqMatrix blake3 tag input)
      (hashToZqMatrix blake3' tag input') hctr (by omega)
      (fun k => by rw [← hfirst]; exact ha 0 input k rfl)
      (fun k => by rw [← hfirst]; exact ha' 0 input' k rfl)
    obtain ⟨hrows, hstatements⟩ := h.requestRows (Nat.succ.inj hlen)
      (show client.runs.ctr ≤ ctr + H_ROWS by omega) (by omega) ha.tail ha'.tail
    constructor
    · rw [ClientState.requestRows, ClientState.requestRows, heval, hrows]
    · rw [ClientState.requestStatements, ClientState.requestStatements, heval, hstatements, h.voprf]

/-- A request is refused for its tag, its size, the client's mode, and its runs, not for its
inputs. -/
theorem requestBatch_refused {client : ClientState S} {inputs : List (List UInt8)}
    (h : ¬ RequestAccepted client tag inputs) :
    ∃ error, ∀ (blake3 : Blake3) (client' : ClientState S) (inputs' : List (List UInt8)),
      client'.voprf = client.voprf → client'.runs.remaining = client.runs.remaining →
      inputs'.length = inputs.length →
      requestBatch blake3 client' tag inputs' = some (client', .error error) := by
  rcases requestBatch_cases (fun _ _ _ => 0) client tag inputs with ⟨-, error, hcall⟩ | ⟨haccepted, -⟩
  · refine ⟨error, fun blake3 client' inputs' hvoprf hruns hlen => ?_⟩
    have hempty : inputs'.isEmpty = inputs.isEmpty := by
      rw [Bool.eq_iff_iff, List.isEmpty_iff_length_eq_zero, List.isEmpty_iff_length_eq_zero, hlen]
    unfold requestBatch at hcall ⊢
    rw [hvoprf, hruns, hlen, hempty]
    simp only [] at hcall ⊢
    split_ifs at hcall ⊢ with htag hnone hbatch hmode
    · cases hcall
      rfl
    · cases hcall
      rfl
    · cases hcall
      rfl
    · cases hcall
      rfl
    -- The last check is of the number of runs, which does not overflow for a batch that is not too
    -- large.
    rw [checkedTauFor_eq_some ((not_lt.mp hbatch).trans_lt (by norm_num)), Option.bind_eq_bind,
      Option.bind_some] at hcall ⊢
    split_ifs at hcall ⊢ with hleft
    · cases hcall
      rfl
    · exact absurd ⟨by omega, fun h => hnone (List.isEmpty_iff.mpr h), by omega,
        fun h => by by_contra hlt; exact hmode ⟨h, by omega⟩, by omega⟩ h
  · exact absurd haccepted h

/-- What two finalize states of alike requests have in common: all that Finalize checks. -/
structure FinAlike (fin fin' : FinalizeState S) : Prop where
  uid : fin'.uid = fin.uid
  ctr : fin'.rows.map RowFinalizeState.ctr = fin.rows.map RowFinalizeState.ctr
  voprf : fin'.voprf = fin.voprf

/-- Requests of as many inputs: both are refused for the same, or both are the same message, and the
clients stay alike. -/
theorem Alike.requestBatch (h : Alike blake3 blake3' client client' a a')
    {inputs inputs' : List (List UInt8)} (hlen : inputs'.length = inputs.length)
    (ha : RowsFor blake3 tag inputs client.runs.ctr a)
    (ha' : RowsFor blake3' tag inputs' client.runs.ctr a') :
    (¬ RequestAccepted client tag inputs ∧ ∃ error,
      PoolOprf.requestBatch blake3 client tag inputs = some (client, .error error) ∧
      PoolOprf.requestBatch blake3' client' tag inputs' = some (client', .error error)) ∨
    RequestAccepted client tag inputs ∧
      ((PoolOprf.requestBatch blake3 client tag inputs = none ∧
        PoolOprf.requestBatch blake3' client' tag inputs' = none) ∨
      ∃ client₁ client₁' req fin fin',
        PoolOprf.requestBatch blake3 client tag inputs = some (client₁, .ok (req, fin)) ∧
        PoolOprf.requestBatch blake3' client' tag inputs' = some (client₁', .ok (req, fin')) ∧
        FinAlike fin fin' ∧ ClientState.Spent client client₁ (tauFor inputs.length) ∧
        Alike blake3 blake3' client₁ client₁' a a') := by
  have hremaining : client'.runs.remaining = client.runs.remaining := by
    rw [Runs.remaining, Runs.remaining, h.tau, h.ctr]
  rcases requestBatch_cases blake3 client tag inputs with
    ⟨hrefused, -⟩ | ⟨haccepted, client₁, hspent, hcall⟩
  · obtain ⟨error, herror⟩ := requestBatch_refused hrefused
    exact .inl ⟨hrefused, error, herror blake3 client inputs rfl rfl rfl,
      herror blake3' client' inputs' h.voprf hremaining hlen⟩
  · refine .inr ⟨haccepted, ?_⟩
    have hbudget := client.runs.ctr_add_remaining
    have hruns := haccepted.runs_le
    obtain ⟨hrows, hstatements⟩ := h.requestRows hlen le_rfl (by omega) ha ha'
    rcases requestBatch_cases blake3' client' tag inputs' with
      ⟨hrefused', -⟩ | ⟨-, client₁', hspent', hcall'⟩
    -- The checks read nothing in which the two clients differ.
    · refine absurd ⟨haccepted.tag_le, fun hnil => haccepted.nonempty ?_, ?_, ?_, ?_⟩ hrefused'
      · rw [hnil, List.length_nil] at hlen
        exact List.length_eq_zero_iff.mp hlen.symm
      · rw [hlen]
        exact haccepted.batch_le
      · rw [hlen, h.voprf]
        exact haccepted.voprf_batch_le
      · rw [hlen, hremaining]
        exact haccepted.runs_le
    · rw [h.ctr, hstatements, hrows, hlen, h.uid, h.voprf] at hcall'
      rw [hlen] at hspent'
      -- The rows are the same, and so are the statements made of them, if there are any.
      cases hst : client.requestStatements blake3 tag client.runs.ctr inputs with
      | none =>
        rw [hst] at hcall hcall'
        exact .inl ⟨hcall, hcall'⟩
      | some statements =>
        rw [hst] at hcall hcall'
        refine .inr ⟨client₁, client₁', _, _, _, hcall, hcall', ⟨rfl, ?_, rfl⟩, hspent, ?_⟩
        · rw [client'.finalizeRows_ctr, client.finalizeRows_ctr]
        · refine ⟨?_, ?_, ?_, ?_, fun run hle hlt => ?_⟩
          · rw [hspent'.uid, hspent.uid, h.uid]
          · rw [hspent'.voprf, hspent.voprf, h.voprf]
          · rw [hspent'.tau, hspent.tau, h.tau]
          · rw [hspent'.ctr, hspent.ctr, h.ctr]
          · rw [hspent.ctr] at hle
            rw [hspent.tau] at hlt
            rw [hspent'.rowRequest, hspent.rowRequest]
            exact h.row run (by omega) hlt

end Alike

/-! ## All requests of a session -/

/-- What the server sees of a Request. -/
def sentOf (record : RequestRecord S) : Except RequestError RequestMessage := record.map Prod.fst

/-- What the server sees of requests, one after the other. -/
def sentAll (blake3 : Blake3) (calls : List RequestCall) (state : ClientState S) :
    Option (List (Except RequestError RequestMessage)) :=
  (requestAll blake3 calls state).map fun out => out.2.map sentOf

/-- The first Request, then the others. -/
theorem sentAll_cons {blake3 : Blake3} {tag : List UInt8} {inputs : List (List UInt8)}
    {state state₁ : ClientState S} {record : RequestRecord S}
    (h : requestBatch blake3 state tag inputs = some (state₁, record)) (calls : List RequestCall) :
    sentAll blake3 ((tag, inputs) :: calls) state =
      (sentAll blake3 calls state₁).map fun sent => sentOf record :: sent := by
  rw [sentAll, requestAll, h, sentAll]
  simp only [Option.bind_eq_bind, Option.bind_some]
  cases requestAll blake3 calls state₁ <;> rfl

/-- A Request that stops stops them all. -/
theorem sentAll_none {blake3 : Blake3} {tag : List UInt8} {inputs : List (List UInt8)}
    {state : ClientState S} (h : requestBatch blake3 state tag inputs = none)
    (calls : List RequestCall) : sentAll blake3 ((tag, inputs) :: calls) state = none := by
  rw [sentAll, requestAll, h]
  rfl

/-- The tag of a Request and the number of its inputs. -/
def shapeOf (call : RequestCall) : List UInt8 × ℕ := (call.1, call.2.length)

/-- For requests of the same shape, there are rows such that clients with these rows send the
same. -/
theorem exists_rows_sentAll (blake3 : Blake3) :
    ∀ {calls calls' : List RequestCall} (reference : ClientState S),
      calls'.map shapeOf = calls.map shapeOf →
      ∃ a a' : ℕ → Fin N → Zq, ∀ (blake3₁ blake3₁' : Blake3) (client client' : ClientState S),
        (∀ tag input, hashToZqMatrix blake3₁ tag input = hashToZqMatrix blake3 tag input) →
        (∀ tag input, hashToZqMatrix blake3₁' tag input = hashToZqMatrix blake3 tag input) →
        client.voprf = reference.voprf → client.runs.tau = reference.runs.tau →
        client.runs.ctr = reference.runs.ctr →
        Alike blake3₁ blake3₁' client client' a a' →
        sentAll blake3₁ calls client = sentAll blake3₁' calls' client'
  | [], [], _, _ => ⟨fun _ _ => 0, fun _ _ => 0, fun _ _ _ _ _ _ _ _ _ _ => rfl⟩
  | (tag, inputs) :: calls, (tag', inputs') :: calls', reference, hshape => by
    obtain ⟨hpair, hrest⟩ := List.cons.inj hshape
    obtain ⟨rfl, hlen'⟩ := Prod.mk.inj hpair
    have hlen : inputs'.length = inputs.length := hlen'
    by_cases haccepted : RequestAccepted reference tag' inputs
    · -- The rows of this call's inputs come first, and those of the later calls after them.
      obtain ⟨next, -, hspent⟩ := ClientState.nextRuns_of_le haccepted.runs_le
      obtain ⟨rest, rest', ih⟩ := exists_rows_sentAll blake3 next hrest
      obtain ⟨a, ha, harest⟩ := exists_rowsFor blake3 tag' inputs reference.runs.ctr rest
      obtain ⟨a', ha', harest'⟩ := exists_rowsFor blake3 tag' inputs' reference.runs.ctr rest'
      refine ⟨a, a', fun blake3₁ blake3₁' client client' hhash hhash' hvoprf htau hctr h => ?_⟩
      have ha₁ : RowsFor blake3₁ tag' inputs client.runs.ctr a := by
        intro v input k hinput
        rw [hctr, hhash]
        exact ha v input k hinput
      have ha₁' : RowsFor blake3₁' tag' inputs' client.runs.ctr a' := by
        intro v input k hinput
        rw [hctr, hhash']
        exact ha' v input k hinput
      -- The calls of the reference are accepted by every client in the same state, whatever its
      -- inputs are.
      rcases h.requestBatch hlen ha₁ ha₁' with
        ⟨hrefused, -⟩ | ⟨-, ⟨hnone, hnone'⟩ | ⟨client₁, client₁', req, fin, fin', hcall, hcall', -,
          hspent₁, h₁⟩⟩
      · refine absurd ⟨haccepted.tag_le, haccepted.nonempty, haccepted.batch_le, ?_, ?_⟩ hrefused
        · rw [hvoprf]
          exact haccepted.voprf_batch_le
        · rw [Runs.remaining, htau, hctr]
          exact haccepted.runs_le
      · rw [sentAll_none hnone, sentAll_none hnone']
      · have hctr₁ : client₁.runs.ctr = reference.runs.ctr + tauFor inputs.length := by
          rw [hspent₁.ctr, hctr]
        rw [sentAll_cons hcall, sentAll_cons hcall', ih blake3₁ blake3₁' client₁ client₁' hhash hhash'
          (by rw [hspent₁.voprf, hspent.voprf, hvoprf]) (by rw [hspent₁.tau, hspent.tau, htau])
          (by rw [hctr₁, hspent.ctr])]
        · rfl
        · refine { h₁ with row := fun run hle hlt => ?_ }
          rw [← harest run (by omega), ← harest' run (by rw [hlen]; omega)]
          exact h₁.row run hle hlt
    · obtain ⟨a, a', ih⟩ := exists_rows_sentAll blake3 reference hrest
      refine ⟨a, a', fun blake3₁ blake3₁' client client' hhash hhash' hvoprf htau hctr h => ?_⟩
      obtain ⟨error, herror⟩ := requestBatch_refused haccepted
      have hremaining : client.runs.remaining = reference.runs.remaining := by
        rw [Runs.remaining, Runs.remaining, htau, hctr]
      have hremaining' : client'.runs.remaining = reference.runs.remaining := by
        rw [← hremaining, Runs.remaining, Runs.remaining, h.tau, h.ctr]
      have hcall := herror blake3₁ client inputs hvoprf hremaining rfl
      have hcall' := herror blake3₁' client' inputs' (h.voprf.trans hvoprf) hremaining' hlen
      rw [sentAll_cons hcall, sentAll_cons hcall',
        ih blake3₁ blake3₁' client client' hhash hhash' hvoprf htau hctr h]

/-- All requests of a session hide their inputs. The server has one block of each pair and all pads,
and no block that it lacks is another of the client's (`OthersFresh`). For every two lists of calls
with the same tags and as many inputs in each, a bijection of what it does not have makes all their
messages the same, and the calls that are refused. A VOPRF's `c^v`, which the server has from the
preprocessing, is not in what is compared. -/
theorem requests_hide_inputs (blake3 : Blake3) {state : ClientState S} {b : Fin N → Bool}
    (hfresh : state.OthersFresh b) (s_s : Fin state.runs.tau → Fin DELTA → Zp)
    {calls calls' : List RequestCall} (hshape : calls'.map shapeOf = calls.map shapeOf) :
    ∃ move : Equiv.Perm (Fin state.runs.tau → HiddenRun), ∀ hidden,
      sentAll (withStreams blake3 (state.otherBlocks b) hidden) calls (state.withHidden s_s hidden) =
        sentAll (withStreams blake3 (state.otherBlocks b) (move hidden)) calls'
          (state.withHidden s_s (move hidden)) := by
  obtain ⟨a, a', hsame⟩ := exists_rows_sentAll blake3 state hshape
  refine ⟨Equiv.piCongrRight fun run => moveRun state blake3 b a a' run, fun hidden => ?_⟩
  exact hsame _ _ _ _ (fun tag input => hashToZqMatrix_withStreams blake3 _ tag input)
    (fun tag input => hashToZqMatrix_withStreams blake3 _ tag input) rfl rfl rfl
    { uid := rfl
      voprf := rfl
      tau := rfl
      ctr := rfl
      row := fun run _ hlt => rowRequest_shear blake3 hfresh s_s hidden a a' hlt }

/-! ### A client with different blocks -/

/-- A block with the index of its pair in the first two bytes, and its side in the third. -/
def numberedBlock (i : Fin N) (side : Fin 2) : Block := fun k =>
  if k.val = 0 then UInt8.ofNat i else if k.val = 1 then UInt8.ofNat (i / 256) else
    if k.val = 2 then UInt8.ofNat side else 0

theorem numberedBlock_inj {i i' : Fin N} {side side' : Fin 2}
    (h : numberedBlock i side = numberedBlock i' side') : i = i' ∧ side = side' := by
  have hi : i.val < 482 := i.isLt
  have hi' : i'.val < 482 := i'.isLt
  have hside : side.val < 2 := side.isLt
  have hside' : side'.val < 2 := side'.isLt
  have hbyte : ∀ k, (numberedBlock i side k).toNat = (numberedBlock i' side' k).toNat :=
    fun k => congrArg UInt8.toNat (congrFun h k)
  have h₀ : i.val % 256 = i'.val % 256 := hbyte 0
  have h₁ : i.val / 256 % 256 = i'.val / 256 % 256 := hbyte 1
  have h₂ : side.val % 256 = side'.val % 256 := hbyte 2
  exact ⟨Fin.ext (by omega), Fin.ext (by omega)⟩

/-- The masked key bits, all zero. -/
def numberedBhat : Fin N → UInt8 := fun _ => 0

theorem numberedClient_bhat_le (i : Fin N) : (numberedBhat i).toNat ≤ 1 := Nat.zero_le 1

/-- The entries of `tau` runs, all zero. -/
def numberedRc (tau : ℕ) : List RcEntry := List.replicate tau ⟨0, 0, zero_lt_delta⟩

theorem numberedClient_r_c_length (tau : ℕ) : (numberedRc tau).length = tau := List.length_replicate

/-- What a VOPRF client keeps, all commitments zero. -/
def numberedVoprf (S : Permutations) (tau : ℕ) : ClientVoprf S where
  pk := ⟨⟨fun _ => 0⟩⟩
  m := List.replicate (evaluationsFor tau) ⟨fun _ => 0⟩
  d := List.replicate (tauFor (evaluationsFor tau)) fun _ => ⟨fun _ => 0⟩

theorem numberedClient_m_length (S : Permutations) (tau : ℕ) (voprf : Bool) (v : ClientVoprf S)
    (h : v ∈ if voprf then some (numberedVoprf S tau) else none) : v.m.length = evaluationsFor tau := by
  split_ifs at h
  · obtain rfl := Option.some.inj h
    exact List.length_replicate
  · cases h

theorem numberedClient_d_length (S : Permutations) (tau : ℕ) (voprf : Bool) (v : ClientVoprf S)
    (h : v ∈ if voprf then some (numberedVoprf S tau) else none) :
    v.d.length = tauFor (evaluationsFor tau) := by
  split_ifs at h
  · obtain rfl := Option.some.inj h
    exact List.length_replicate
  · cases h

/-- A client's state of `tau` runs with different blocks. -/
def numberedClient (S : Permutations) (tau : ℕ) (voprf : Bool) : ClientState S where
  ot_blocks := numberedBlock
  bhat := numberedBhat
  r_c := numberedRc tau
  uid _ := 0
  runs := Runs.new tau
  voprf := if voprf then some (numberedVoprf S tau) else none
  bhat_le := numberedClient_bhat_le
  r_c_length := numberedClient_r_c_length tau
  m_length := numberedClient_m_length S tau voprf
  d_length := numberedClient_d_length S tau voprf

theorem numberedClient_fresh (tau : ℕ) (voprf : Bool) :
    (numberedClient S tau voprf).OthersFresh fun _ => false where
  injective _ _ h := (numberedBlock_inj h).1
  known _ _ h := absurd (show (0 : Fin 2) = 1 from (numberedBlock_inj h).2) (by decide)

/-- Inputs with other last bytes have other matrices. -/
theorem hashToZqMatrix_lastByteHash_ne (tag : List UInt8) {input input' : List UInt8} (h : input ≠ [])
    (h' : input' ≠ []) (hne : input.getLastD 0 ≠ input'.getLastD 0) :
    hashToZqMatrix lastByteHash tag input ≠ hashToZqMatrix lastByteHash tag input' := by
  intro hmatrix
  have heval : evaluate lastByteHash oneBitKey tag input = evaluate lastByteHash oneBitKey tag input' :=
    congrArg (evaluateWithMatrix oneBitKey) hmatrix
  rw [evaluate_lastByteHash tag h, evaluate_lastByteHash tag h'] at heval
  exact hne (congrFun (Option.some.inj heval) 0)

theorem requests_hide_inputs_numbered :
    hashToZqMatrix lastByteHash [7] [1] ≠ hashToZqMatrix lastByteHash [7] [3] ∧
    ∃ move : Equiv.Perm (Fin 48 → HiddenRun), ∀ hidden,
      sentAll (withStreams lastByteHash
          ((numberedClient Permutations.identity 48 true).otherBlocks fun _ => false) hidden)
          [([7], [[1], [2]]), ([8], [[5]])]
          ((numberedClient Permutations.identity 48 true).withHidden (fun _ => fun j => UInt8.ofNat j)
            hidden) =
        sentAll (withStreams lastByteHash
          ((numberedClient Permutations.identity 48 true).otherBlocks fun _ => false) (move hidden))
          [([7], [[3], [4]]), ([8], [[6]])]
          ((numberedClient Permutations.identity 48 true).withHidden (fun _ => fun j => UInt8.ofNat j)
            (move hidden)) :=
  ⟨hashToZqMatrix_lastByteHash_ne [7] (List.cons_ne_nil _ _) (List.cons_ne_nil _ _) (by decide),
    requests_hide_inputs _ (numberedClient_fresh 48 true) _ rfl⟩

end PoolOprf

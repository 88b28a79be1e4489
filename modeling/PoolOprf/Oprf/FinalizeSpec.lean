import PoolOprf.Oprf.BlindEvalSpec
import PoolOprf.Oprf.RequestSpec

/-!
# What finalizing returns

`finalizeOutputs_eq_ok` says when Finalize returns outputs, and that each is the rows' own results
in order. `finalizeRow_of_entry` takes the blinding off an entry of a response, whoever computed it:
what is left is the row's rounded inner product. Which of the run's pads an entry is padded with is
`ClientState.padPosition_eq`, and `ClientState.blinded_sum` compares the sums on both sides mod `q`.
-/

namespace PoolOprf

open Panic

variable {S : Permutations} {stark : Stark Val}

/-! ## The loops -/

/-- One evaluation is finalized exactly when each row is for its run. -/
theorem finalizeRows_eq_ok :
    ∀ {n row : ℕ} {fins : Fin n → RowFinalizeState} {resps : Fin n → RowResponse} {outs : List Zp},
      finalizeRows stark row (List.ofFn fins) (List.ofFn resps) = some (.ok outs) ↔
        ∃ out : Fin n → Zp, outs = List.ofFn out ∧
          ∀ k, (resps k).ctr = (fins k).ctr ∧ finalizeRow (fins k) (resps k) = some (out k)
  | 0, row, fins, resps, outs => by
    rw [List.ofFn_zero, List.ofFn_zero, finalizeRows]
    · constructor
      · intro h
        exact ⟨Fin.elim0, by rw [List.ofFn_zero, ← Except.ok.inj (Option.some.inj h)],
          fun k => k.elim0⟩
      · rintro ⟨out, rfl, -⟩
        rw [List.ofFn_zero]
    · simp
  | n + 1, row, fins, resps, outs => by
    -- The first row on its own, and the rest by induction with the next row number.
    have ih := fun outs' => @finalizeRows_eq_ok n (row + 1) (fun k => fins k.succ)
      (fun k => resps k.succ) outs'
    rw [List.ofFn_succ, List.ofFn_succ, finalizeRows]
    constructor
    · intro h
      split_ifs at h with hctr
      · simp at h
      simp only [Option.bind_eq_bind, Option.bind_eq_some_iff] at h
      obtain ⟨out, hout, result, hresult, h⟩ := h
      cases result with
      | error error => simp at h
      | ok outs' =>
        obtain rfl : out :: outs' = outs := by simpa using h
        obtain ⟨out', rfl, hrows⟩ := (ih outs').mp hresult
        refine ⟨Fin.cons out out', ?_, Fin.cases ⟨not_not.mp hctr, hout⟩ hrows⟩
        rw [List.ofFn_cons]
    · rintro ⟨out, rfl, hrows⟩
      have hresult := (ih _).mpr ⟨fun k => out k.succ, rfl, fun k => hrows k.succ⟩
      rw [if_neg (not_not.mpr (hrows 0).1), (hrows 0).2]
      simp only [Option.bind_eq_bind, Option.bind_some, hresult]
      rw [List.ofFn_succ]

theorem outputFrom_ofFn (out : Fin H_ROWS → Zp) : outputFrom (List.ofFn out) = out := by
  funext k
  rw [outputFrom, List.getD_eq_getElem?_getD, List.getElem?_ofFn, dif_pos k.isLt, Option.getD_some]

/-- Evaluations are finalized exactly when each row of each is for its run. -/
theorem finalizeLoop_eq_ok :
    ∀ {fins : List (Fin H_ROWS → RowFinalizeState)} {resps : List (Fin H_ROWS → RowResponse)}
      {eval : ℕ} {outputs : List PrfOutput}, fins.length = resps.length →
      (finalizeLoop stark eval (fins.map List.ofFn) (resps.map List.ofFn) = some (.ok outputs) ↔
        outputs.length = fins.length ∧ ∀ (v : ℕ) fin resp output, fins[v]? = some fin →
          resps[v]? = some resp → outputs[v]? = some output → ∀ k,
            (resp k).ctr = (fin k).ctr ∧ finalizeRow (fin k) (resp k) = some (output k))
  | [], [], eval, outputs, _ => by
    rw [List.map_nil, List.map_nil, finalizeLoop]
    · constructor
      · intro h
        obtain rfl := Except.ok.inj (Option.some.inj h)
        exact ⟨rfl, fun v fin resp output h => by simp at h⟩
      · rintro ⟨h, -⟩
        rw [List.length_eq_zero_iff.mp h]
    · simp
  | fin :: fins, resp :: resps, eval, outputs, hlen => by
    have hlen' : fins.length = resps.length := Nat.succ.inj hlen
    rw [List.map_cons, List.map_cons, finalizeLoop]
    constructor
    · intro h
      simp only [Option.bind_eq_bind, Option.bind_eq_some_iff] at h
      obtain ⟨result, hresult, h⟩ := h
      cases result with
      | error error => simp at h
      | ok outs =>
        -- The rows of the first evaluation, and then those of the others.
        obtain ⟨out, rfl, hrows⟩ := finalizeRows_eq_ok.mp hresult
        simp only [Option.bind_eq_some_iff] at h
        obtain ⟨result', hresult', h⟩ := h
        cases result' with
        | error error => simp at h
        | ok outputs' =>
          rw [outputFrom_ofFn] at h
          obtain rfl : out :: outputs' = outputs := by simpa using h
          obtain ⟨hout, hrest⟩ := (finalizeLoop_eq_ok hlen').mp hresult'
          refine ⟨by rw [List.length_cons, List.length_cons, hout], ?_⟩
          rintro (_ | v) fin' resp' output hfin hresp houtput
          · obtain rfl := Option.some.inj hfin
            obtain rfl := Option.some.inj hresp
            obtain rfl := Option.some.inj houtput
            exact hrows
          · exact hrest v fin' resp' output hfin hresp houtput
    · rintro ⟨hout, hrows⟩
      -- Conversely, no row of the first evaluation stops the loop, nor does any of the others.
      cases outputs with
      | nil => simp at hout
      | cons out outputs' =>
        have hresult : finalizeRows stark (eval * H_ROWS) (List.ofFn fin) (List.ofFn resp) =
            some (.ok (List.ofFn out)) :=
          finalizeRows_eq_ok.mpr ⟨out, rfl, hrows 0 fin resp out rfl rfl rfl⟩
        have hresult' : finalizeLoop stark (eval + 1) (fins.map List.ofFn) (resps.map List.ofFn) =
            some (.ok outputs') := (finalizeLoop_eq_ok hlen').mpr
          ⟨Nat.succ.inj hout, fun v fin' resp' output hfin hresp houtput =>
            hrows (v + 1) fin' resp' output hfin hresp houtput⟩
        simp only [Option.bind_eq_bind, hresult, Option.bind_some, hresult', outputFrom_ofFn]

/-- The outputs of Finalize, row by row. -/
theorem finalizeOutputs_eq_ok {fin : FinalizeState S} {resp : ResponseMessage stark}
    (hlen : resp.rows.length = fin.rows.length) {outputs : List PrfOutput} :
    finalizeOutputs stark fin resp = some (.ok outputs) ↔
      outputs.length = fin.evaluations ∧ ∀ (v : ℕ) output, outputs[v]? = some output →
        ∀ k : Fin H_ROWS, ∃ row row', fin.rows[tauFor v + k]? = some row ∧
          resp.rows[tauFor v + k]? = some row' ∧ row'.ctr = row.ctr ∧
          finalizeRow row row' = some (output k) := by
  obtain ⟨fins, hfins, hfinslen, hfin⟩ := chunksExact_arrays H_ROWS fin.rows
  obtain ⟨resps, hresps, hrespslen, hresp⟩ := chunksExact_arrays H_ROWS resp.rows
  have hlen' : fins.length = resps.length := by rw [hfinslen, hrespslen, hlen]
  rw [finalizeOutputs, hfins, hresps, finalizeLoop_eq_ok hlen', hfinslen]
  refine and_congr_right fun houtputs => ?_
  constructor
  · intro h v output houtput k
    have hv : v < fins.length := by
      rw [hfinslen, ← houtputs]
      exact (List.getElem?_eq_some_iff.mp houtput).1
    have hv' : v < resps.length := hlen' ▸ hv
    have hrow := h v _ _ output (List.getElem?_eq_getElem hv) (List.getElem?_eq_getElem hv')
      houtput k
    exact ⟨_, _, hfin v _ (List.getElem?_eq_getElem hv) k,
      hresp v _ (List.getElem?_eq_getElem hv') k, hrow⟩
  · intro h v fin' resp' output hfin' hresp' houtput k
    obtain ⟨row, row', hrow, hrow', hok⟩ := h v output houtput k
    obtain rfl : row = fin' k := Option.some.inj (hrow.symm.trans (hfin v fin' hfin' k))
    obtain rfl : row' = resp' k := Option.some.inj (hrow'.symm.trans (hresp v resp' hresp' k))
    exact hok

/-- The proofs of a response pass only when each passes for its evaluation. -/
theorem verifyOnline_of_verifyLoop {statements : List (Online S)} {evals : List (List RowResponse)}
    {proofs : List stark.Proof} (h : verifyLoop stark statements evals proofs = .ok ()) {v : ℕ}
    {statement : Online S} {rows : List RowResponse} {proof : stark.Proof}
    (hstatement : statements[v]? = some statement) (hrows : evals[v]? = some rows)
    (hproof : proofs[v]? = some proof) : verifyOnline stark statement rows proof = .ok () := by
  induction statements generalizing evals proofs v with
  | nil => simp at hstatement
  | cons first statements ih =>
    cases evals with
    | nil => simp at hrows
    | cons firstRows evals =>
      cases proofs with
      | nil => simp at hproof
      | cons firstProof proofs =>
        rw [verifyLoop] at h
        generalize hverify : verifyOnline stark first firstRows firstProof = result at h
        cases result with
        | error error => cases h
        | ok =>
          cases v with
          | zero =>
            rw [List.getElem?_cons_zero, Option.some.injEq] at hstatement hrows hproof
            rw [← hstatement, ← hrows, ← hproof]
            exact hverify
          | succ v =>
            rw [List.getElem?_cons_succ] at hstatement hrows hproof
            exact ih h hstatement hrows hproof

/-- And they pass when each does. -/
theorem verifyLoop_of_verifyOnline {statements : List (Online S)} {evals : List (List RowResponse)}
    {proofs : List stark.Proof}
    (h : ∀ (v : ℕ) statement rows proof, statements[v]? = some statement → evals[v]? = some rows →
      proofs[v]? = some proof → verifyOnline stark statement rows proof = .ok ()) :
    verifyLoop stark statements evals proofs = .ok () := by
  induction statements generalizing evals proofs with
  | nil => rw [verifyLoop]; simp
  | cons statement statements ih =>
    cases evals with
    | nil => rw [verifyLoop]; simp
    | cons rows evals =>
      cases proofs with
      | nil => rw [verifyLoop]; simp
      | cons proof proofs =>
        have hrest := @ih evals proofs fun v statement' rows' proof' => h (v + 1) statement' rows' proof'
        rw [verifyLoop, h 0 statement rows proof rfl rfl rfl]
        exact hrest

/-- Finalize returns outputs exactly when its checks pass and every row is for its run. -/
theorem finalizeBatch_eq_ok {fin : FinalizeState S} {resp : ResponseMessage stark}
    {outputs : List PrfOutput} :
    finalizeBatch stark fin resp = some (.ok outputs) ↔
      resp.uid = fin.uid ∧ resp.rows.length = fin.rows.length ∧ fin.rows.length % H_ROWS = 0 ∧
        (∀ statements, fin.voprf = some statements → resp.proofs.length = statements.length ∧
          verifyLoop stark statements (chunksExact H_ROWS resp.rows) resp.proofs = .ok ()) ∧
        finalizeOutputs stark fin resp = some (.ok outputs) := by
  unfold finalizeBatch
  constructor
  · intro h
    split_ifs at h with huid hlen hwhole
    · simp at h
    · simp at h
    -- Each check before the outputs ends the call if it fails.
    refine ⟨not_not.mp huid, not_not.mp hlen, not_not.mp hwhole, ?_⟩
    cases hvoprf : fin.voprf with
    | none =>
      rw [hvoprf] at h
      exact ⟨(fun _ h => nomatch h), h⟩
    | some statements =>
      rw [hvoprf] at h
      simp only [] at h
      split_ifs at h with hproofs
      · simp at h
      cases hverify : verifyLoop stark statements (chunksExact H_ROWS resp.rows) resp.proofs with
      | error error => simp [hverify] at h
      | ok =>
        rw [hverify] at h
        refine ⟨fun statements' hst => ?_, h⟩
        obtain rfl := Option.some.inj hst
        exact ⟨not_not.mp hproofs, hverify⟩
  · rintro ⟨huid, hlen, hwhole, hvoprf, houtputs⟩
    -- With all of these no check ends the call.
    rw [if_neg (not_not.mpr huid), if_neg (not_not.mpr hlen), if_neg (not_not.mpr hwhole)]
    cases hst : fin.voprf with
    | none => exact houtputs
    | some statements =>
      obtain ⟨hproofs, hverify⟩ := hvoprf statements hst
      simp only [hverify, hproofs, ne_eq, not_true_eq_false, if_false, houtputs]

/-- A plain response that is not for the request's first run is refused at its first row. -/
theorem finalizeBatch_mismatch {fin : FinalizeState S} {resp : ResponseMessage stark}
    (huid : resp.uid = fin.uid) (hlen : resp.rows.length = fin.rows.length)
    (hwhole : fin.rows.length % H_ROWS = 0) (hvoprf : fin.voprf = none)
    {row : RowFinalizeState} {row' : RowResponse} (hrow : fin.rows[0]? = some row)
    (hrow' : resp.rows[0]? = some row') (hctr : row'.ctr ≠ row.ctr) :
    finalizeBatch stark fin resp = some (.error (.CounterMismatch 0 row.ctr row'.ctr)) := by
  obtain ⟨fins, hfins, hfinslen, hfin⟩ := chunksExact_arrays H_ROWS fin.rows
  obtain ⟨resps, hresps, hrespslen, hresp⟩ := chunksExact_arrays H_ROWS resp.rows
  have hpos : 0 < fin.rows.length := (List.getElem?_eq_some_iff.mp hrow).1
  -- The first evaluation exists, and its first row is the first row of all.
  have hpos' : 0 < fin.rows.length / 16 := by
    have hwhole' : fin.rows.length % 16 = 0 := hwhole
    omega
  rw [hlen] at hrespslen
  cases fins with
  | nil => exact absurd hfinslen.symm hpos'.ne'
  | cons fin' fins =>
    cases resps with
    | nil => exact absurd hrespslen.symm hpos'.ne'
    | cons resp' resps =>
      have hrow₀ : row = fin' 0 := Option.some.inj (hrow.symm.trans (hfin 0 fin' rfl 0))
      have hrow₀' : row' = resp' 0 := Option.some.inj (hrow'.symm.trans (hresp 0 resp' rfl 0))
      -- Its counter is compared before anything else of the evaluation.
      have hrows : finalizeRows stark (0 * H_ROWS) (List.ofFn fin') (List.ofFn resp') =
          some (.error (.CounterMismatch 0 row.ctr row'.ctr)) := by
        have hfins : List.ofFn fin' = row :: List.ofFn fun k : Fin 15 => fin' k.succ := by
          rw [hrow₀]
          exact List.ofFn_succ
        have hresps : List.ofFn resp' = row' :: List.ofFn fun k : Fin 15 => resp' k.succ := by
          rw [hrow₀']
          exact List.ofFn_succ
        rw [hfins, hresps, finalizeRows, if_pos hctr, Nat.zero_mul]
      unfold finalizeBatch finalizeOutputs
      rw [if_neg (not_not.mpr huid), if_neg (not_not.mpr hlen), if_neg (not_not.mpr hwhole), hvoprf,
        hfins, hresps, List.map_cons, List.map_cons, finalizeLoop, hrows]
      rfl

/-! ## One row -/

/-- The blinding of a response's entry comes off: with `a` behind the sum that was rounded, and the
client's pad on the entry that it reads, the rounded `a` is left. -/
theorem finalizeRow_of_entry {fin : RowFinalizeState} {resp : RowResponse} (a : ℕ)
    (hr : fin.r_sigma.toNat < Q) {j : Fin DELTA} (hj : j.val = fin.r_sigma.toNat % DELTA)
    (hy : (resp.y j).toNat = (Lwr.nearest DELTA (((a + fin.r_sigma.toNat) % Q + Q - j) % Q) +
      fin.r_prime.toNat) % P) :
    finalizeRow fin resp = some (reduceP (Lwr.nearest DELTA (a % Q))) := by
  -- Rounding takes the low part of the blinding off, up to its quotient by `Δ`.
  have hunblind : Lwr.nearest DELTA (((a + fin.r_sigma.toNat) % Q + Q - j) % Q) % P =
      (Lwr.nearest DELTA a + fin.r_sigma.toNat / DELTA) % P := by
    rw [hj]
    exact Lwr.unblind (Δ := DELTA) (p := P) (by norm_num)
  have hreduce : Lwr.nearest DELTA (a % Q) % P = Lwr.nearest DELTA a % P :=
    Lwr.nearest_mod (by norm_num) P a
  have hquotient : (fin.r_sigma.toNat - fin.r_sigma.toNat % DELTA) / DELTA =
      fin.r_sigma.toNat / DELTA := by
    have hdiv := Nat.div_add_mod fin.r_sigma.toNat 16
    show (fin.r_sigma.toNat - fin.r_sigma.toNat % 16) / 16 = fin.r_sigma.toNat / 16
    omega
  -- The quotient is a byte, so that it is subtracted whole.
  have hbyte : (UInt8.ofNat (fin.r_sigma.toNat / DELTA)).toNat = fin.r_sigma.toNat / DELTA := by
    rw [UInt8.toNat_ofNat', Nat.mod_eq_of_lt]
    exact Nat.div_lt_of_lt_mul hr
  have hindex : index resp.y (fin.r_sigma.toNat % DELTA) = some (resp.y j) := by
    rw [← hj, index_val]
  unfold finalizeRow
  simp only [Option.bind_eq_bind, reduceDelta_toNat, hindex, Option.bind_some, subP_eq, hquotient,
    hbyte, reduceP_toNat, hy]
  refine congrArg some (reduceP_congr ?_)
  have hr' := fin.r_prime.toNat_lt
  have hs : fin.r_sigma.toNat / 16 < 256 := Nat.div_lt_of_lt_mul hr
  generalize Lwr.nearest DELTA (((a + fin.r_sigma.toNat) % Q + Q - j) % Q) = x at hunblind ⊢
  rw [hreduce]
  -- What remains is the pad and that quotient, each added and subtracted mod `p`.
  show ((((x + fin.r_prime.toNat) % 256 + 256 - fin.r_prime.toNat) % 256 + 256 -
    fin.r_sigma.toNat / 16) % 256) = Lwr.nearest DELTA a % 256
  have hunblind' : x % 256 = (Lwr.nearest DELTA a + fin.r_sigma.toNat / 16) % 256 := hunblind
  omega

namespace ClientState

variable (client : ClientState S) (blake3 : Blake3) (a : Fin N → Zq) {ctr : ℕ}

/-- The entry of a response that the client reads is the one with the pad of its choice. -/
theorem padPosition_eq {j : Fin DELTA} (hj : j.val = (client.rSigma blake3 ctr).toNat % DELTA) :
    padPosition j (client.rowRequest blake3 a ctr).b_bar_prime =
      ⟨(client.rcAt ctr).b_prime.toNat, (client.rcAt ctr).b_prime_lt⟩ := by
  refine Fin.ext ?_
  -- `(s - (s - b′)) mod Δ` is `b′`.
  have hb : (client.rcAt ctr).b_prime.toNat < 16 := (client.rcAt ctr).b_prime_lt
  change (j.val + DELTA - (client.rowRequest blake3 a ctr).b_bar_prime.toNat) % DELTA = _
  rw [hj, rowRequest_b_bar_prime_toNat]
  show ((client.rSigma blake3 ctr).toNat % 16 + 16 - ((client.rSigma blake3 ctr).toNat % 16 + 16 -
    (client.rcAt ctr).b_prime.toNat) % 16) % 16 = (client.rcAt ctr).b_prime.toNat
  omega

/-- The sum behind a response, with the mask sum of the sides that the key and `b̄` select: the
row's inner product, blinded by `r_Σ`. -/
theorem blinded_sum (sk : SecretKey) {r_sigma_sum : ZMod Q}
    (hsum : r_sigma_sum = ∑ i, (1 - 2 * Lwr.bit (sk.bit i)) *
      ((client.maskAt blake3 ctr i (client.bhatBit i ^^ sk.bit i)).toNat : ZMod Q)) :
    ∑ i, Lwr.bit (sk.bit i) * (((client.rowRequest blake3 a ctr).e i).toNat : ZMod Q) + r_sigma_sum =
      ((innerSum a sk + (client.rSigma blake3 ctr).toNat : ℕ) : ZMod Q) := by
  -- The side that blinds is the key's bit away from the one whose mask is summed.
  have hside : ∀ i, ((client.bhatBit i ^^ sk.bit i) ^^ sk.bit i) = client.bhatBit i := fun i => by
    rw [Bool.xor_assoc, Bool.xor_self, Bool.xor_false]
  have hrequest : ∀ i, (((client.rowRequest blake3 a ctr).e i).toNat : ZMod Q) =
      (a i).toNat + (client.maskAt blake3 ctr i (client.bhatBit i)).toNat +
        (client.maskAt blake3 ctr i (!client.bhatBit i)).toNat := by
    intro i
    rw [rowRequest, reduceQ_cast]
    push_cast
    rfl
  have hclient : ((client.rSigma blake3 ctr).toNat : ZMod Q) =
      ∑ i, ((client.maskAt blake3 ctr i (client.bhatBit i)).toNat : ZMod Q) := by
    rw [rSigma, reduceQ_cast, rSigmaNat, Nat.cast_sum]
  have hblinded := Lwr.blinded_sum Finset.univ (fun i => ((a i).toNat : ZMod Q))
    (fun i b => ((client.maskAt blake3 ctr i b).toNat : ZMod Q)) sk.bit
    fun i => client.bhatBit i ^^ sk.bit i
  simp only [hside] at hblinded
  calc ∑ i, Lwr.bit (sk.bit i) * (((client.rowRequest blake3 a ctr).e i).toNat : ZMod Q) + r_sigma_sum
      = ∑ i, (Lwr.bit (sk.bit i) : ZMod Q) *
            ((a i).toNat + (client.maskAt blake3 ctr i (client.bhatBit i)).toNat +
              (client.maskAt blake3 ctr i (!client.bhatBit i)).toNat) +
          ∑ i, (1 - 2 * Lwr.bit (sk.bit i)) *
            ((client.maskAt blake3 ctr i (client.bhatBit i ^^ sk.bit i)).toNat : ZMod Q) := by
        rw [hsum]
        exact congrArg₂ (· + ·) (Finset.sum_congr rfl fun i _ => by rw [hrequest]) rfl
    _ = ∑ i, Lwr.bit (sk.bit i) * ((a i).toNat : ZMod Q) +
          ∑ i, ((client.maskAt blake3 ctr i (client.bhatBit i)).toNat : ZMod Q) := hblinded
    _ = ((innerSum a sk + (client.rSigma blake3 ctr).toNat : ℕ) : ZMod Q) := by
        rw [Nat.cast_add, innerSum_cast, hclient]

end ClientState

end PoolOprf

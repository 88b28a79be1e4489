import PoolOprf.Lib.Air
import PoolOprf.Voprf.Commitments

/-!
# The Plonky3 backend

`pool-voprf/src/plonky3.rs`: what the backend makes of the prover's and the verifier's results. The
prover and the verifier themselves are Plonky3's, a `Stark` over the commitments' field.
-/

namespace PoolOprf

/-- Why proving fails. -/
inductive ProveError (stark : Stark Val) where
  /-- The witness does not satisfy the statement. -/
  | WrongWitness
  /-- Proving failed. -/
  | Prover (error : stark.ProvingError)

/-- Why a proof is refused. -/
inductive VerifyError (stark : Stark Val) where
  /-- The proof does not verify. -/
  | Invalid (error : stark.VerificationError)
  /-- The verifier panicked, which Plonky3 documents can happen on a malformed proof. -/
  | Malformed
  /-- The statement has no evaluation. -/
  | NoEvaluation

namespace Plonky3

variable {stark : Stark Val}

/-- What Plonky3's prover returned. -/
def proved (prove : Except stark.ProvingError stark.Proof) :
    Except (ProveError stark) stark.Proof :=
  prove.mapError ProveError.Prover

/-- What Plonky3's verifier returned. A panic is caught. -/
def verified (check : Option (Except stark.VerificationError Unit)) :
    Except (VerifyError stark) Unit :=
  match check with
  | none => .error .Malformed
  | some result => result.mapError VerifyError.Invalid

/-- A proof is accepted only when Plonky3's verifier ran to its end and accepted it. -/
theorem verified_eq_ok {check : Option (Except stark.VerificationError Unit)} :
    verified check = .ok () ↔ check = some (.ok ()) := by
  rcases check with _ | _ | _
  · simp [verified]
  · simp [verified, Except.mapError]
  · simp [verified, Except.mapError]

end Plonky3

end PoolOprf

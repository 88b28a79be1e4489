import PoolOprf.Lib.Panic
import PoolOprf.Lib.Bits
import PoolOprf.Lib.Air
import PoolOprf.Lib.Lwr
import PoolOprf.Prf.Modular
import PoolOprf.Prf.Evaluate
import PoolOprf.Eval
import PoolOprf.Lib.Binding
import PoolOprf.Lib.Network
import PoolOprf.Lib.Masking
import PoolOprf.Voprf.Commitments
import PoolOprf.Voprf.Statements
import PoolOprf.Plonky3.Sponge
import PoolOprf.Plonky3.Openings
import PoolOprf.Plonky3.Arithmetic
import PoolOprf.Plonky3.Online
import PoolOprf.Plonky3.System
import PoolOprf.Plonky3.OnlineCompleteness
import PoolOprf.Plonky3.OnlineSoundness
import PoolOprf.Plonky3.Setup
import PoolOprf.Plonky3.Preprocessing
import PoolOprf.Plonky3.PreprocessingCompleteness
import PoolOprf.Plonky3.PreprocessingSoundness
import PoolOprf.Lib.BitStream
import PoolOprf.Oprf.Packing
import PoolOprf.Oprf.Blocks
import PoolOprf.Oprf.State
import PoolOprf.Oprf.DeltaOt
import PoolOprf.Oprf.HashInputs
import PoolOprf.Oprf.Online
import PoolOprf.Oprf.RequestSpec
import PoolOprf.Oprf.BlindEvalSpec
import PoolOprf.Oprf.Validation
import PoolOprf.Oprf.Budget
import PoolOprf.Oprf.FinalizeSpec
import PoolOprf.Oprf.Correctness
import PoolOprf.Oprf.Preprocessing
import PoolOprf.Oprf.PreprocessingSpec
import PoolOprf.Oprf.SelectiveFailure
import PoolOprf.Oprf.Privacy
import PoolOprf.Oprf.ServerProofs
import PoolOprf.Oprf.PreprocessingPanicFree
import PoolOprf.Oprf.ResponseEquation
import PoolOprf.Oprf.ResponsePrivacy
import PoolOprf.Oprf.ServerPrivacy
import PoolOprf.Oprf.Handshake
import PoolOprf.Oprf.Matching
import PoolOprf.Oprf.PanicFree
import PoolOprf.Oprf.RequestPrivacy
import PoolOprf.Oprf.ClientPrivacy
import PoolOprf.Oprf.Honest
import PoolOprf.Oprf.Exchange
import PoolOprf.Oprf.Processes
import PoolOprf.Oprf.Asynchronous
import PoolOprf.Oprf.Session
import PoolOprf.Oprf.Ordered
import PoolOprf.Oprf.Soundness
import PoolOprf.Oprf.PublishedKey
import PoolOprf.Psi.Protocol
import PoolOprf.Psi.Run
import PoolOprf.Psi.Exact
import PoolOprf.Psi.UpFront
import PoolOprf.Psi.CheatingServer
import PoolOprf.Psi.CheatingClient
import PoolOprf.Psi.ClientPrivacy

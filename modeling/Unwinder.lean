import Unwinder.Lib.OrderedMap
import Unwinder.Lib.Interaction
import Unwinder.Proofs.Confinement
import Unwinder.ModuleSet
import Unwinder.Proofs.Registry
import Unwinder.Proofs.Transparency
import Unwinder.Proofs.RoundTrip
import Unwinder.Proofs.Resume
import Unwinder.Proofs.ReturnAddress
import Unwinder.Proofs.FramePointer
import Unwinder.Proofs.Loops
import Unwinder.Proofs.SignalFrames
import Unwinder.Proofs.CfiBytes
import Unwinder.Proofs.Relocation
import Unwinder.Proofs.CieInfo
import Unwinder.Proofs.Cloning
import Unwinder.Proofs.ValidRegisters
import Unwinder.Proofs.Lenient
import Unwinder.Proofs.Modules
import Unwinder.Proofs.HeaderTable
import Unwinder.Proofs.PtrAuth
import Unwinder.Proofs.Fallbacks
import Unwinder.Proofs.LinkRegister
import Unwinder.Proofs.Encodings
import Unwinder.Proofs.AugLength
import Unwinder.Proofs.CursorRuns
import Unwinder.Proofs.Construction
import Unwinder.OverflowChecks
import Unwinder.Proofs.NotAnFde
import Unwinder.Native.X8664
import Unwinder.Lib.CallFrame
import Unwinder.Proofs.Fetch
import Unwinder.Proofs.CfiProgram
import Unwinder.Proofs.CfiTable
import Unwinder.Proofs.ExprEval
import Unwinder.Proofs.CallerFrame
import Unwinder.Proofs.TableUnwind
import Unwinder.Proofs.ProcInfoAsked
import Unwinder.Proofs.ReadOnly
import Unwinder.Proofs.StepOutcomes
import Unwinder.Proofs.Backtrace
import Unwinder.Proofs.FrameChain

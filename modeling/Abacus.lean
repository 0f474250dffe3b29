import Abacus.Agreement
import Abacus.Backend
import Abacus.Command.Run
import Abacus.Expr.Printer
import Abacus.Expr.Value
import Abacus.Expr.Walk
import Abacus.Failure
import Abacus.Fuzz
import Abacus.Generator
import Abacus.Listing
import Abacus.Main
import Abacus.Proofs.Execution
import Abacus.Proofs.Postorder
import Abacus.Source.Parse
import Abacus.Timing
import Abacus.Proofs.Simulation
import Abacus.Proofs.Machines
import Abacus.Proofs.Encoding
import Abacus.Proofs.CompiledRuns
import Abacus.Proofs.StorageSize
import Abacus.Proofs.Grammar
import Abacus.Proofs.Parsing
import Abacus.Proofs.Guards
import Abacus.Proofs.Lockstep
import Abacus.Proofs.Refusal
import Abacus.Proofs.Agreement
import Abacus.Proofs.Scanning
import Abacus.Proofs.RoundTrip
import Abacus.Proofs.Acceptance
import Abacus.Proofs.Limits
import Abacus.Proofs.Nesting
import Abacus.Proofs.Reprinting
import Abacus.Proofs.Generation
import Abacus.Proofs.History
import Abacus.Proofs.Observation
import Abacus.Proofs.Contents
import Abacus.Proofs.MemoryTrace
import Abacus.Proofs.Placement
import Abacus.Proofs.Recovery
import Abacus.Proofs.ExactArithmetic
import Abacus.Proofs.ExactValue
import Abacus.Proofs.Residues
import Abacus.Proofs.InitialStorage
import Abacus.Proofs.Requests
import Abacus.Proofs.Capacity
import Abacus.Proofs.Positions
import Abacus.Proofs.InOrder
import Abacus.Proofs.Complaints
import Abacus.Proofs.Reading
import Abacus.Proofs.Outline
import Abacus.Proofs.ViablePrefix
import Abacus.Proofs.Underlining
import Abacus.Proofs.LiteralPlacement
import Abacus.Proofs.ListedDepths
import Abacus.Proofs.TableLayout
import Abacus.Proofs.Walks
import Abacus.Proofs.Distribution
import Abacus.Proofs.Framing

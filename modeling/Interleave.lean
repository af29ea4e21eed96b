import Interleave.Main
import Interleave.Proofs.Attempts
import Interleave.Proofs.Positions
import Interleave.Proofs.Sweep
import Interleave.Proofs.Validity
import Interleave.Proofs.Tables
import Interleave.Proofs.Cycles
import Interleave.Proofs.SweepStates
import Interleave.Proofs.SearchRun
import Interleave.Proofs.Traces
import Interleave.Proofs.Linearization
import Interleave.Proofs.Completion
import Interleave.Proofs.Counting
import Interleave.Proofs.Unordered
import Interleave.Proofs.SearchStates
import Interleave.Proofs.Execution
import Interleave.Proofs.Refinement
import Interleave.Proofs.Translation
import Interleave.Proofs.Slots
import Interleave.Proofs.FileNames
import Interleave.Proofs.Extremes
import Interleave.Proofs.Dashes
import Interleave.Proofs.Frames
import Interleave.Proofs.Output
import Interleave.Proofs.Splitting
import Interleave.Proofs.Reading
import Interleave.Proofs.Unframing
import Interleave.Proofs.RunEnds
import Interleave.Proofs.Policies
import Interleave.Proofs.Concatenation
import Interleave.Proofs.Annotation
import Interleave.Proofs.Choices
import Interleave.Proofs.Numbering
import Interleave.Proofs.Enumerated
import Interleave.Proofs.Refusals
import Interleave.Proofs.Overloads
import Interleave.Proofs.Wire
import Interleave.Proofs.Registers
import Interleave.Proofs.Rendering
import Interleave.Proofs.Literals
import Interleave.Proofs.WrittenStream
import Interleave.Proofs.Accepted
import Interleave.Proofs.EnumeratedRun

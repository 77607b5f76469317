import LS8.Main
import LS8.FileSystem
import LS8.Proofs.Instruction.Encoding
import LS8.Proofs.Session.Steps
import LS8.Proofs.Session.Stack
import LS8.Proofs.Session.Conformance
import LS8.Proofs.Session.Atomicity
import LS8.Proofs.Image.Grammar
import LS8.Proofs.Instruction.Faults
import LS8.Proofs.Listing.Rows
import LS8.Proofs.Listing.Assembly
import LS8.Proofs.Listing.Execution
import LS8.Proofs.Session.Limit
import LS8.Proofs.Session.Events
import LS8.Proofs.Session.Runs
import LS8.Proofs.Session.Tracing
import LS8.Proofs.Trace.Start
import LS8.Proofs.Session.Operations
import LS8.Proofs.Trace.Reading
import LS8.Proofs.CommandLine.Arguments
import LS8.Proofs.CommandLine.Grammar
import LS8.Proofs.CommandLine.Output
import LS8.Proofs.CommandLine.ExitCodes
import LS8.Proofs.CommandLine.Tracing
import LS8.Proofs.Session.Addresses
import LS8.Proofs.Session.Progress
import LS8.Proofs.Session.Restart
import LS8.Proofs.Session.Comparisons
import LS8.Proofs.Session.Equality
import LS8.Proofs.Machine.Reading
import LS8.Proofs.Session.Footprint
import LS8.Proofs.Session.Causes
import LS8.Proofs.Listing.Partition
import LS8.Proofs.Listing.StraightLine
import LS8.Proofs.Image.Errors
import LS8.Proofs.Trace.Writing
import LS8.Proofs.Alu.Sequences

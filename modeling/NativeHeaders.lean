import NativeHeaders.Text.Units
import NativeHeaders.Text.Hex
import NativeHeaders.Text.ModifiedUtf8
import NativeHeaders.Symbol.Link
import NativeHeaders.Descriptor.Signature
import NativeHeaders.ClassModel.Literal
import NativeHeaders.ClassFile.Basic
import NativeHeaders.Header.Analysis
import NativeHeaders.ClassFile.Builder
import NativeHeaders.Settings.Toml
import NativeHeaders.Batch
import NativeHeaders.Files.Tree
import NativeHeaders.ClassPath.Basic
import NativeHeaders.Header.Target
import NativeHeaders.CommandLine.Run
import NativeHeaders.CommandLine.Standard
import NativeHeaders.CommandLine.Verbosity
import NativeHeaders.CommandLine.Usage
import NativeHeaders.Main
import NativeHeaders.Proofs.Text.Units
import NativeHeaders.Proofs.Descriptor.RoundTrip
import NativeHeaders.Proofs.Symbol.Injectivity
import NativeHeaders.Proofs.ClassModel.Overloads
import NativeHeaders.Proofs.Header.Prototypes
import NativeHeaders.Proofs.ClassFile.Reads
import NativeHeaders.Proofs.ClassFile.RoundTrip
import NativeHeaders.Proofs.ClassFile.Framing
import NativeHeaders.Proofs.ClassFile.Interning
import NativeHeaders.Proofs.Header.Ambiguity
import NativeHeaders.Proofs.ClassFile.Steps
import NativeHeaders.Proofs.ClassFile.Building
import NativeHeaders.Proofs.Header.Agreement
import NativeHeaders.Proofs.Batch.Reports
import NativeHeaders.Proofs.Batch.Schedules
import NativeHeaders.Proofs.Batch.Cancellation
import NativeHeaders.Proofs.ClassModel.Literals
import NativeHeaders.Proofs.Header.Comments
import NativeHeaders.Proofs.Header.Validity
import NativeHeaders.Proofs.Files.Paths
import NativeHeaders.Proofs.Files.Trees
import NativeHeaders.Proofs.Header.Writing
import NativeHeaders.Proofs.ClassPath.Lookups
import NativeHeaders.Proofs.CommandLine.Runs
import NativeHeaders.Proofs.CommandLine.Outputs
import NativeHeaders.Proofs.Batch.Naming
import NativeHeaders.Proofs.Symbol.Fields
import NativeHeaders.Proofs.Text.Groups
import NativeHeaders.Proofs.ClassFile.Taken
import NativeHeaders.Proofs.ClassFile.Slots
import NativeHeaders.Proofs.ClassFile.Frames
import NativeHeaders.Proofs.Header.Independence
import NativeHeaders.Proofs.ClassModel.Enclosing
import NativeHeaders.Proofs.ClassModel.Grouping
import NativeHeaders.Proofs.ClassModel.Constants
import NativeHeaders.Proofs.Descriptor.Marks
import NativeHeaders.Proofs.Descriptor.Offsets
import NativeHeaders.Proofs.ClassModel.Reading
import NativeHeaders.Proofs.ClassPath.Candidates
import NativeHeaders.Proofs.ClassPath.Entries
import NativeHeaders.Proofs.ClassPath.Histories
import NativeHeaders.Proofs.ClassPath.Searches
import NativeHeaders.Proofs.Text.Digits
import NativeHeaders.Proofs.ClassFile.Stored
import NativeHeaders.Proofs.Decimal.Rounding
import NativeHeaders.Proofs.Decimal.Shortest
import NativeHeaders.Proofs.Decimal.Texts
import NativeHeaders.Proofs.ClassModel.Decimals
import NativeHeaders.Proofs.Header.Integers
import NativeHeaders.Proofs.Symbol.Parameters
import NativeHeaders.Proofs.Files.Directories
import NativeHeaders.Proofs.Header.Names
import NativeHeaders.Proofs.Header.Identifiers
import NativeHeaders.Proofs.Header.Rewriting

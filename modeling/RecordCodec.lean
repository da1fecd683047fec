import RecordCodec.Calendar
import RecordCodec.Charset.Label
import RecordCodec.Definition.Derive
import RecordCodec.Definition.Record
import RecordCodec.Definition.Restrict
import RecordCodec.Search.Compile
import RecordCodec.Settings
import RecordCodec.Proofs.Text.Words
import RecordCodec.Proofs.Search.Extraction
import RecordCodec.Proofs.Search.Splitting
import RecordCodec.Proofs.Search.Written
import RecordCodec.Proofs.Search.Compilation
import RecordCodec.Proofs.Value.Assignment
import RecordCodec.Proofs.Search.Literals
import RecordCodec.Proofs.Value.Extent
import RecordCodec.Proofs.Value.Transfer
import RecordCodec.Proofs.Request
import RecordCodec.Proofs.Search.Leaves
import RecordCodec.Proofs.Search.Alignment
import RecordCodec.Proofs.Value.Exchange
import RecordCodec.Proofs.Definition.Assignments
import RecordCodec.Proofs.Definition.RoundTrip
import RecordCodec.Proofs.Ieee.Exact
import RecordCodec.Proofs.Value.WellFormed
import RecordCodec.Proofs.Value.Layout
import RecordCodec.Proofs.Value.Numbering
import RecordCodec.Proofs.Definition.Nested
import RecordCodec.Proofs.Definition.ChunkedStore
import RecordCodec.Proofs.Value.Parts
import RecordCodec.Proofs.Definition.TwoPhaseRead
import RecordCodec.Proofs.Definition.Completion
import RecordCodec.Proofs.Decimal.Digits
import RecordCodec.Proofs.Decimal.Packed
import RecordCodec.Proofs.Decimal.Zoned
import RecordCodec.Proofs.Value.Decimals
import RecordCodec.Proofs.Settings
import RecordCodec.Proofs.Value.Everywhere
import RecordCodec.Proofs.Value.Fixed
import RecordCodec.Proofs.Definition.Declared
import RecordCodec.Proofs.Definition.StoreAlignment
import RecordCodec.Proofs.Value.Groups
import RecordCodec.Proofs.Value.Occurrences
import RecordCodec.Proofs.Value.Integers
import RecordCodec.Proofs.Definition.Names
import RecordCodec.Proofs.Definition.Restriction
import RecordCodec.Proofs.Search.Classification
import RecordCodec.Proofs.Search.Independence
import RecordCodec.Proofs.Definition.Lookups
import RecordCodec.Proofs.Definition.StoreLength
import RecordCodec.Proofs.Definition.Removal
import RecordCodec.Proofs.Definition.ReadLength
import RecordCodec.Proofs.Calendar.RoundTrip
import RecordCodec.Proofs.Definition.Refusals
import RecordCodec.Proofs.Search.Ranges
import RecordCodec.Proofs.Calendar.Pattern
import RecordCodec.Proofs.Value.Accessors
import RecordCodec.Proofs.Decimal.Scaled
import RecordCodec.Proofs.Value.Rendered
import RecordCodec.Proofs.Charset.RoundTrip
import RecordCodec.Proofs.Charset.Exact
import RecordCodec.Proofs.Value.Blanks
import RecordCodec.Proofs.Value.VariableDecimals
import RecordCodec.Proofs.Search.LargeOperands
import RecordCodec.Proofs.Search.Runs
import RecordCodec.Proofs.Search.MixedLiterals
import RecordCodec.Proofs.Search.Divisions
import RecordCodec.Proofs.Search.LiteralExtent
import RecordCodec.Proofs.Search.SeveralRuns
import RecordCodec.Proofs.Value.RecordBound
import RecordCodec.Proofs.Definition.Derivation
import RecordCodec.Proofs.Value.PackedForm
import RecordCodec.Proofs.Value.Delivered
import RecordCodec.Proofs.Value.SingleOccurrence
import RecordCodec.Proofs.Bytes.Conservation
import RecordCodec.Proofs.Dump.ReadBack

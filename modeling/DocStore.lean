import DocStore.Capture.Capture
import DocStore.Capture.Describe
import DocStore.Capture.Program
import DocStore.Capture.Record
import DocStore.Decimal.Layout
import DocStore.Decimal.Shortest
import DocStore.Diagnosis.Report
import DocStore.Diagnosis.Search
import DocStore.Encoding.Encode
import DocStore.Encoding.Encoder
import DocStore.Encoding.Error
import DocStore.Files.Failure
import DocStore.Files.IoError
import DocStore.Files.Operations
import DocStore.Files.Path
import DocStore.Files.Tree
import DocStore.Files.Walk
import DocStore.Json.Basic
import DocStore.Json.Fault
import DocStore.Json.Reader.Basic
import DocStore.Json.Reader.Number
import DocStore.Json.Reader.Skip
import DocStore.Json.Reader.Text
import DocStore.Json.Reader.Value
import DocStore.Json.Writer
import DocStore.Loading.Load
import DocStore.Locks.Registry
import DocStore.Locks.Session
import DocStore.Log
import DocStore.Node.Basic
import DocStore.Node.Convert
import DocStore.Node.Display
import DocStore.Proofs.Capture.Documents
import DocStore.Proofs.Capture.FirstError
import DocStore.Proofs.Capture.Pairing
import DocStore.Proofs.Diagnosis.Completeness
import DocStore.Proofs.Diagnosis.Exhaustive
import DocStore.Proofs.Diagnosis.Faults
import DocStore.Proofs.Diagnosis.FirstFault
import DocStore.Proofs.Diagnosis.Flattening
import DocStore.Proofs.Diagnosis.Layers
import DocStore.Proofs.Diagnosis.LevelOrder
import DocStore.Proofs.Diagnosis.Located
import DocStore.Proofs.Diagnosis.Paths
import DocStore.Proofs.Diagnosis.Pruning
import DocStore.Proofs.Diagnosis.Richer
import DocStore.Proofs.Diagnosis.Roots
import DocStore.Proofs.Diagnosis.Routes
import DocStore.Proofs.Diagnosis.Termination
import DocStore.Proofs.Diagnosis.Traversal
import DocStore.Proofs.Encoding.Acceptance
import DocStore.Proofs.Encoding.Allowance
import DocStore.Proofs.Encoding.Budget
import DocStore.Proofs.Encoding.Calls
import DocStore.Proofs.Encoding.ChainLimit
import DocStore.Proofs.Encoding.Distinct
import DocStore.Proofs.Encoding.FirstFault
import DocStore.Proofs.Encoding.IntegerKeys
import DocStore.Proofs.Encoding.Lookup
import DocStore.Proofs.Encoding.NormalForm
import DocStore.Proofs.Encoding.Questions
import DocStore.Proofs.Encoding.Substitutes
import DocStore.Proofs.Encoding.Sufficiency
import DocStore.Proofs.Encoding.Values
import DocStore.Proofs.Files.Endings
import DocStore.Proofs.Files.Entries
import DocStore.Proofs.Files.Names
import DocStore.Proofs.Files.Operations
import DocStore.Proofs.Files.Parents
import DocStore.Proofs.Files.Plain
import DocStore.Proofs.Files.Relative
import DocStore.Proofs.Files.Trees
import DocStore.Proofs.Files.Walks
import DocStore.Proofs.Json.Containers
import DocStore.Proofs.Json.DepthLimit
import DocStore.Proofs.Json.Integers
import DocStore.Proofs.Json.Layout
import DocStore.Proofs.Json.ReadBack
import DocStore.Proofs.Json.Strings
import DocStore.Proofs.Loading.Outcomes
import DocStore.Proofs.Locks.InUse
import DocStore.Proofs.Locks.Leftovers
import DocStore.Proofs.Locks.Registries
import DocStore.Proofs.Log.Sinks
import DocStore.Proofs.Saving.Acts
import DocStore.Proofs.Saving.AllOrNothing
import DocStore.Proofs.Saving.Alone
import DocStore.Proofs.Saving.Atomicity
import DocStore.Proofs.Saving.Completion
import DocStore.Proofs.Saving.FreeNames
import DocStore.Proofs.Saving.Interleaving
import DocStore.Proofs.Saving.Invariant
import DocStore.Proofs.Saving.Loadable
import DocStore.Proofs.Saving.Places
import DocStore.Proofs.Saving.Records
import DocStore.Proofs.Saving.RoundTrip
import DocStore.Proofs.Saving.Shelf
import DocStore.Proofs.Saving.Steps
import DocStore.Proofs.Saving.Success
import DocStore.Proofs.Saving.Temporary
import DocStore.Proofs.Text.Bytes
import DocStore.Proofs.Text.Raw
import DocStore.Proofs.Time.Calendar
import DocStore.Proofs.Time.Reading
import DocStore.Proofs.Time.Seconds
import DocStore.Proofs.Typed.Faithful
import DocStore.Proofs.Typed.Objects
import DocStore.Proofs.Typed.RoundTrip
import DocStore.Saving.Replace
import DocStore.Saving.Save
import DocStore.Text.Quoted
import DocStore.Text.Raw
import DocStore.Text.Unicode
import DocStore.Text.Utf8
import DocStore.Time.Duration
import DocStore.Time.Timestamp
import DocStore.Typed.Config
import DocStore.Typed.Decode
import DocStore.Typed.Samples

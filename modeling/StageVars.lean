import StageVars.Number.Shortest
import StageVars.Number.Layout
import StageVars.Value.Fields
import StageVars.Merge
import StageVars.Json.Text
import StageVars.Json.Decode
import StageVars.Yaml.Text
import StageVars.Yaml.Document
import StageVars.Lookup
import StageVars.Files.ServiceFiles
import StageVars.Reference
import StageVars.Compose
import StageVars.Service
import StageVars.Session
import StageVars.CommandLine.Parse
import StageVars.Program
import StageVars.Main
import StageVars.Proofs.Value.Documents
import StageVars.Proofs.Merge.Keys
import StageVars.Proofs.Merge.Paths
import StageVars.Proofs.Session.Start
import StageVars.Proofs.Reference.Priority
import StageVars.Proofs.Value.Extensional
import StageVars.Proofs.Merge.Layers
import StageVars.Proofs.Merge.Replay
import StageVars.Proofs.Service.Writing
import StageVars.Proofs.Files.Contents
import StageVars.Proofs.Session.Again
import StageVars.Proofs.Lookup.Agreement
import StageVars.Proofs.Session.Isolation
import StageVars.Proofs.Merge.Regrouping
import StageVars.Proofs.Reference.Written
import StageVars.Proofs.Compose.Spelling
import StageVars.Proofs.Service.History
import StageVars.Proofs.Files.Extension
import StageVars.Proofs.Files.Modules
import StageVars.Proofs.Session.Refusal
import StageVars.Proofs.Number.Rounding
import StageVars.Proofs.Number.Finite
import StageVars.Proofs.Number.Shortest
import StageVars.Proofs.Json.Numeral
import StageVars.Proofs.Json.Grammar
import StageVars.Proofs.Number.Fits
import StageVars.Proofs.Value.Hereditary
import StageVars.Proofs.Json.Pretty
import StageVars.Proofs.Program.Stages
import StageVars.Proofs.Program.Output
import StageVars.Proofs.Reference.Slashes
import StageVars.Proofs.Merge.Returning
import StageVars.Proofs.Program.Failing
import StageVars.Proofs.Reference.RoundTrip
import StageVars.Proofs.Merge.KeyOrder
import StageVars.Proofs.Merge.Blocks
import StageVars.Proofs.Merge.Shallow
import StageVars.Proofs.Merge.Strategies
import StageVars.Proofs.Session.Selection
import StageVars.Proofs.Session.Values
import StageVars.Proofs.Value.Storable
import StageVars.Proofs.Json.Reading
import StageVars.Proofs.Files.Storing
import StageVars.Proofs.Compose.Members
import StageVars.Proofs.Session.Loading
import StageVars.Proofs.CommandLine.Spelling
import StageVars.Proofs.Session.Stage
import StageVars.Proofs.Logger.Families
import StageVars.Proofs.Session.Ordering

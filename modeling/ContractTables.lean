import ContractTables.Main
import ContractTables.Proofs.Coding.Match
import ContractTables.Proofs.Coding.Repeats
import ContractTables.Proofs.Comment.Beside
import ContractTables.Proofs.Comment.Block
import ContractTables.Proofs.Comment.Columns
import ContractTables.Proofs.Comment.Excerpts
import ContractTables.Proofs.Comment.Forms
import ContractTables.Proofs.Comment.Offsets
import ContractTables.Proofs.Comment.Records
import ContractTables.Proofs.Comment.Repetition
import ContractTables.Proofs.Comment.Settled
import ContractTables.Proofs.Comment.Stability
import ContractTables.Proofs.Comment.Trimming
import ContractTables.Proofs.Comment.Untagged
import ContractTables.Proofs.Comment.Windows
import ContractTables.Proofs.Csv.Reading
import ContractTables.Proofs.CommandLine.Agreement
import ContractTables.Proofs.CommandLine.Failures
import ContractTables.Proofs.CommandLine.Inputs
import ContractTables.Proofs.Expression
import ContractTables.Proofs.Item.Coherence
import ContractTables.Proofs.Item.Pruning
import ContractTables.Proofs.Node.Acceptance
import ContractTables.Proofs.Project.Batch
import ContractTables.Proofs.Project.Labels
import ContractTables.Proofs.Tables.Document

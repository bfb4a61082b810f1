import FormatAudit.Audit.Runner
import FormatAudit.CommandLine.Program
import FormatAudit.Main
import FormatAudit.Proofs.Agreement
import FormatAudit.Proofs.Blame
import FormatAudit.Proofs.Composition
import FormatAudit.Proofs.ConfigurationOrder
import FormatAudit.Proofs.Coverage
import FormatAudit.Proofs.ExitStatus
import FormatAudit.Proofs.FormatTable
import FormatAudit.Proofs.Forms
import FormatAudit.Proofs.Forwarding
import FormatAudit.Proofs.Gaps
import FormatAudit.Proofs.Grouping
import FormatAudit.Proofs.Inference
import FormatAudit.Proofs.Layout
import FormatAudit.Proofs.Mirror
import FormatAudit.Proofs.Outline
import FormatAudit.Proofs.Phrase
import FormatAudit.Proofs.Recovery
import FormatAudit.Proofs.Reporting
import FormatAudit.Proofs.Runs
import FormatAudit.Proofs.Steps
import FormatAudit.Proofs.Stream
import FormatAudit.Proofs.Walk
import FormatAudit.Proofs.WellFormed
import FormatAudit.Proofs.Wrappers
import FormatAudit.Proofs.Sharing
import FormatAudit.Proofs.DepthLimit
import FormatAudit.Proofs.Messages
import FormatAudit.Proofs.JsonOutput
import FormatAudit.Proofs.ArrayElements
import FormatAudit.Proofs.CommaTrees
import FormatAudit.Proofs.WrittenArguments
import FormatAudit.Proofs.ParameterLists
import FormatAudit.Proofs.Rejudging
import FormatAudit.Proofs.FileSuppression
import FormatAudit.Proofs.CalleeSymbols
import FormatAudit.Proofs.BareCalls
import FormatAudit.Proofs.Tables
import FormatAudit.Proofs.Layering
import FormatAudit.Proofs.Numerals
import FormatAudit.Proofs.FunctionLists
import FormatAudit.Proofs.SettingsFiles
import FormatAudit.Proofs.WrittenForms
import FormatAudit.Proofs.PrintedFindings
import FormatAudit.Proofs.ArgumentTrees
import FormatAudit.Proofs.Extents
import FormatAudit.Proofs.Identities
import FormatAudit.Proofs.Ranges
import FormatAudit.Proofs.WritableFindings

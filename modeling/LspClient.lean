import LspClient.Main
import LspClient.Proofs.Connection.Cancelling
import LspClient.Proofs.Connection.Correlation
import LspClient.Proofs.Connection.Rejecting
import LspClient.Proofs.Connection.Touching
import LspClient.Proofs.Diagnostic.Freshness
import LspClient.Proofs.Diagnostic.Merging
import LspClient.Proofs.Diagnostic.Numbering
import LspClient.Proofs.Diagnostic.Outdated
import LspClient.Proofs.Diagnostic.Spelling
import LspClient.Proofs.Document.Atomic
import LspClient.Proofs.Document.Courses
import LspClient.Proofs.Document.Errands
import LspClient.Proofs.Document.Exclusive
import LspClient.Proofs.Document.InStep
import LspClient.Proofs.Document.Speech
import LspClient.Proofs.Edit.Positions
import LspClient.Proofs.Edit.Splices
import LspClient.Proofs.Environment.Secrets
import LspClient.Proofs.FileTree.Modes
import LspClient.Proofs.FileTree.Replacing
import LspClient.Proofs.Frame.Delimited
import LspClient.Proofs.Glob.Closing
import LspClient.Proofs.Glob.Listing
import LspClient.Proofs.Program.Amid
import LspClient.Proofs.Program.Hosting
import LspClient.Proofs.Registry.Handing
import LspClient.Proofs.Registry.Keys
import LspClient.Proofs.Registry.Leftover
import LspClient.Proofs.Server.Nearest
import LspClient.Proofs.Workspace.Aborting
import LspClient.Proofs.Write.Agreement
import LspClient.Proofs.Write.Batching
import LspClient.Proofs.Write.Freeing
import LspClient.Scenario.CommandPlay
import LspClient.Scenario.SessionPlay

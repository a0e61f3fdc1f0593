import TapeMachine.Main
import TapeMachine.Json.Writer
import TapeMachine.Machine.Json
import TapeMachine.Rule.Json
import TapeMachine.Proofs.Machine.Textbook
import TapeMachine.Proofs.Table.Refusals
import TapeMachine.Proofs.Rule.RoundTrip
import TapeMachine.Proofs.Session.Limits
import TapeMachine.Proofs.Session.Failures
import TapeMachine.Proofs.Shell.Trace
import TapeMachine.Proofs.Shell.Conversation
import TapeMachine.Proofs.Program.Workable
import TapeMachine.Proofs.Rule.Comments
import TapeMachine.Proofs.Program.LineOrder
import TapeMachine.Proofs.Session.WhiteSpace
import TapeMachine.Proofs.Machine.AddedRules
import TapeMachine.Proofs.Machine.Renaming
import TapeMachine.Proofs.Session.Diagnosis
import TapeMachine.Proofs.Machine.Growth
import TapeMachine.Proofs.Session.Growth
import TapeMachine.Proofs.Files.ByteLimit
import TapeMachine.Proofs.Files.Directory
import TapeMachine.Proofs.Json.RoundTrip
import TapeMachine.Proofs.Machine.Facing
import TapeMachine.Proofs.Catalogue.Entries
import TapeMachine.Proofs.Program.Run
import TapeMachine.Proofs.Catalogue.BinaryIncrement
import TapeMachine.Proofs.Catalogue.Unary
import TapeMachine.Proofs.Machine.Restored
import TapeMachine.Proofs.Session.Reset
import TapeMachine.Proofs.Machine.Symmetry
import TapeMachine.Proofs.Program.Pictures
import TapeMachine.Proofs.Program.Reloaded
import TapeMachine.Proofs.History.Neighbours
import TapeMachine.Proofs.Machine.WindowRange
import TapeMachine.Proofs.Shell.Command
import TapeMachine.Proofs.History.Neighbours
import TapeMachine.Proofs.Shell.Command

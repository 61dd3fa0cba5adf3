import ScriptTree.Main
import ScriptTree.Workload
import ScriptTree.Proofs.Parse.Mirror.Tolerance
import ScriptTree.Proofs.Parse.Mirror.Annotations
import ScriptTree.Proofs.Parse.Ends.Complaints
import ScriptTree.Proofs.Parse.Agreement
import ScriptTree.Proofs.Parse.Braces
import ScriptTree.Proofs.Parse.Strictness
import ScriptTree.Proofs.Parse.Cover.Program
import ScriptTree.Proofs.Scan.Calls
import ScriptTree.Proofs.Scan.MarkupLines
import ScriptTree.Proofs.Scan.References
import ScriptTree.Proofs.Scan.Tolerance
import ScriptTree.Proofs.Editor.Marks
import ScriptTree.Proofs.Value.Unfolding
import ScriptTree.Proofs.Parse.Shorthand
import ScriptTree.Proofs.Parse.NewLines
import ScriptTree.Proofs.Parse.Prologue
import ScriptTree.Proofs.Parse.Mirror.Attachments
import ScriptTree.Proofs.Parse.Nest.InnerComments
import ScriptTree.Proofs.Value.Visit

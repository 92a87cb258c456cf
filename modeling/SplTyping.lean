import SplTyping.Ty.Basic
import SplTyping.Ty.Printer
import SplTyping.Substitution
import SplTyping.Unification
import SplTyping.Table
import SplTyping.Context
import SplTyping.Program.Position
import SplTyping.Program.Written
import SplTyping.Program.Expr
import SplTyping.Program.Decl
import SplTyping.Program.Slots
import SplTyping.TypeError
import SplTyping.Calls.Pending
import SplTyping.Calls.Resolved
import SplTyping.Report.Lines
import SplTyping.Report.Style
import SplTyping.Report.Excerpt
import SplTyping.Report.Diagnostics
import SplTyping.Sharing
import SplTyping.Inference.State
import SplTyping.Inference.Written
import SplTyping.Inference.Expr
import SplTyping.Inference.Stmt
import SplTyping.Inference.Decl
import SplTyping.Inference.Program
import SplTyping.Check
import SplTyping.Proofs.Assignment
import SplTyping.Proofs.Settled
import SplTyping.Proofs.Unification
import SplTyping.Proofs.Runs.Basic
import SplTyping.Proofs.Runs.Expr
import SplTyping.Proofs.Runs.Call
import SplTyping.Proofs.Runs.Stmt
import SplTyping.Proofs.Runs.Decl
import SplTyping.Proofs.Runs.Program
import SplTyping.Proofs.Growth
import SplTyping.Proofs.Freshness
import SplTyping.Proofs.Nodes
import SplTyping.Proofs.Rules
import SplTyping.Proofs.Models
import SplTyping.Proofs.Soundness
import SplTyping.Proofs.CallFree
import SplTyping.Proofs.WrittenTypes
import SplTyping.Proofs.Declarations
import SplTyping.Proofs.Acceptance
import SplTyping.Proofs.Heads
import SplTyping.Proofs.WellTyped
import SplTyping.Proofs.Waiting
import SplTyping.Proofs.Reaching
import SplTyping.Proofs.Completeness
import SplTyping.Proofs.Order
import SplTyping.Proofs.Slots
import SplTyping.Proofs.Blank
import SplTyping.Proofs.Recording
import SplTyping.Proofs.CheckedCopies
import SplTyping.Proofs.Settling
import SplTyping.Proofs.Snapshots
import SplTyping.Proofs.Settlement
import SplTyping.Proofs.Agreement
import SplTyping.Proofs.Ascriptions
import SplTyping.Proofs.Errors
import SplTyping.Proofs.Unanswered
import SplTyping.Proofs.Accounts
import SplTyping.Proofs.UnknownCallees
import SplTyping.Proofs.Filled
import SplTyping.Proofs.FullAnnotation
import SplTyping.Proofs.Sharing
import SplTyping.Proofs.SplitNames
import SplTyping.Proofs.Erasure
import SplTyping.Proofs.Outcomes
import SplTyping.Proofs.SetAside
import SplTyping.Proofs.Drafts
import SplTyping.Proofs.WriteBack
import SplTyping.Proofs.TreeKinds
import SplTyping.Proofs.Renewal
import SplTyping.Proofs.Twins
import SplTyping.Proofs.TwinRuns
import SplTyping.Proofs.Rechecking
import SplTyping.Proofs.Scoping
import SplTyping.Proofs.TypeSlots
import SplTyping.Proofs.DrawnVariables
import SplTyping.Proofs.FreshVariables
import SplTyping.Proofs.Symmetry
import SplTyping.Proofs.Sides
import SplTyping.Proofs.Isolation
import SplTyping.Proofs.PrincipalTypings
import SplTyping.Proofs.Instances
import SplTyping.Proofs.Naming
import SplTyping.Proofs.MergedNames
import SplTyping.Proofs.Frames
import SplTyping.Proofs.ClosedArguments
import SplTyping.Proofs.Narrowing
import SplTyping.Proofs.SlotRewriting
import SplTyping.Proofs.StaleSlots
import SplTyping.Proofs.AnnotatedTypes
import SplTyping.Proofs.CallLog
import SplTyping.Proofs.Excerpts
import SplTyping.Proofs.Marks
import SplTyping.Proofs.Readability
import SplTyping.Proofs.Alignment
import SplTyping.Proofs.Containment

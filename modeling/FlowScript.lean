import FlowScript.Log
import FlowScript.Proofs.Condition.Chain
import FlowScript.Proofs.Condition.Comparison
import FlowScript.Proofs.Condition.Connective
import FlowScript.Proofs.Condition.Containment
import FlowScript.Proofs.Condition.Outline
import FlowScript.Proofs.Condition.Quotation
import FlowScript.Proofs.Expr.Arithmetic
import FlowScript.Proofs.Expr.Parentheses
import FlowScript.Proofs.Json.Edit
import FlowScript.Proofs.Schema.Deletion
import FlowScript.Proofs.Schema.Store
import FlowScript.Proofs.Session.Counting
import FlowScript.Proofs.Session.Expansion
import FlowScript.Proofs.Session.Growth
import FlowScript.Proofs.Session.Rejection
import FlowScript.Proofs.Step.Recorded
import FlowScript.Proofs.Workflow.Depth
import FlowScript.Proofs.Workflow.Diagram
import FlowScript.Proofs.Workflow.Fault
import FlowScript.Proofs.Workflow.Independent
import FlowScript.Proofs.Workflow.Outcome
import FlowScript.Proofs.Workflow.Replay
import FlowScript.Proofs.Workflow.Traversals
import FlowScript.Proofs.Workflow.Types
import FlowScript.Schema.Packaged
import FlowScript.Step.Reader
import FlowScript.Workflow.Compile
import FlowScript.Proofs.Condition.RoundTrip
import FlowScript.Proofs.Condition.Symbol
import FlowScript.Proofs.Value.Name
import FlowScript.Proofs.Condition.Phrase
import FlowScript.Proofs.Session.Branch
import FlowScript.Proofs.Session.Order
import FlowScript.Proofs.Token.Spaced
import FlowScript.Proofs.Token.Stretches
import FlowScript.Proofs.Session.Loop
import FlowScript.Proofs.Workflow.Loading

import PageFlow.Action.Decode
import PageFlow.Action.Encode
import PageFlow.Main
import PageFlow.Page.Scripted
import PageFlow.Run.World
import PageFlow.Yaml.Quoted
import PageFlow.Yaml.Reader
import PageFlow.Proofs.Routine.Always
import PageFlow.Proofs.Run.Course
import PageFlow.Proofs.Run.Follow
import PageFlow.Proofs.Routine.History
import PageFlow.Proofs.Run.Propagation
import PageFlow.Proofs.Run.Report
import PageFlow.Proofs.Run.Place
import PageFlow.Proofs.Run.Record
import PageFlow.Proofs.Run.Trace
import PageFlow.Proofs.Routine.Truncation
import PageFlow.Proofs.Routine.Agreement
import PageFlow.Proofs.Routine.Leave
import PageFlow.Proofs.Run.Capped
import PageFlow.Proofs.Run.Interruption
import PageFlow.Proofs.Routine.Ends
import PageFlow.Proofs.Run.Bounds
import PageFlow.Proofs.Run.Termination
import PageFlow.Proofs.Plan
import PageFlow.Proofs.Plan.Involved
import PageFlow.Proofs.Plan.Lockstep
import PageFlow.Proofs.Plan.Refusal
import PageFlow.Proofs.Run.Recall
import PageFlow.Proofs.Run.Values
import PageFlow.Proofs.Run.Promptness
import PageFlow.Proofs.Expr.Parsing
import PageFlow.Proofs.Expr.Printing
import PageFlow.Proofs.Expr.Depth
import PageFlow.Proofs.Expr.Offending
import PageFlow.Proofs.Action.Form
import PageFlow.Proofs.Action.RoundTrip
import PageFlow.Proofs.Routine.Alike
import PageFlow.Proofs.Run.Callers
import PageFlow.Proofs.Run.Nesting
import PageFlow.Proofs.Run.Isolation
import PageFlow.Proofs.Path
import PageFlow.Proofs.Template.Reference
import PageFlow.Proofs.Expr.Diagnostics
import PageFlow.Proofs.Expr.Pulling
import PageFlow.Proofs.Routine.Composition
import PageFlow.Proofs.Run.StepTimeout
import PageFlow.Proofs.Run.Retries
import PageFlow.Proofs.Plan.Targets
import PageFlow.Proofs.Routine.Messages
import PageFlow.Proofs.Run.PageWork
import PageFlow.Proofs.Plan.Naming
import PageFlow.Proofs.Run.Blame
import PageFlow.Proofs.Run.Unwinding
import PageFlow.Proofs.Table
import PageFlow.Proofs.Number.Whole
import PageFlow.Proofs.Json.Integers
import PageFlow.Proofs.Run.Returns
import PageFlow.Proofs.Action.Binding
import PageFlow.Proofs.Cli.Selection
import PageFlow.Proofs.Registry
import PageFlow.Proofs.Backoff
import PageFlow.Proofs.Number.Order
import PageFlow.Proofs.Expr.Comparison
import PageFlow.Proofs.Json.RoundTrip
import PageFlow.Proofs.Run.Selectors
import PageFlow.Proofs.Config.Sections
import PageFlow.Proofs.Config.Layers
import PageFlow.Proofs.Config.Load
import PageFlow.Proofs.Number.Coercion
import PageFlow.Proofs.Number.Numerals

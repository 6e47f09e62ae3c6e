import ScriptHost.Directory
import ScriptHost.Main
import ScriptHost.Proofs.Heap.Failure
import ScriptHost.Proofs.Session.Accounted
import ScriptHost.Proofs.Session.Consts
import ScriptHost.Proofs.Session.Continued
import ScriptHost.Proofs.Session.Display
import ScriptHost.Proofs.Session.Limits
import ScriptHost.Proofs.Snapshot.Identity
import ScriptHost.Proofs.Snapshot.Lookup
import ScriptHost.Proofs.Syntax.Chains
import ScriptHost.Proofs.Syntax.LineBreaks
import ScriptHost.Proofs.Syntax.Reports
import ScriptHost.Proofs.Syntax.Balance
import ScriptHost.Proofs.Syntax.Heads
import ScriptHost.Proofs.Syntax.MirrorsExpr
import ScriptHost.Proofs.Syntax.MirrorsStmt
import ScriptHost.Proofs.Comparison.Access
import ScriptHost.Proofs.Comparison.Call
import ScriptHost.Proofs.Comparison.Observed
import ScriptHost.Proofs.Session.Closures
import ScriptHost.Proofs.Session.Command
import ScriptHost.Proofs.Session.Ending
import ScriptHost.Proofs.Session.Granted
import ScriptHost.Proofs.Session.Strict
import ScriptHost.Proofs.Heap.Canonical
import ScriptHost.Proofs.Heap.Exact
import ScriptHost.Proofs.Session.Hosting
import ScriptHost.Proofs.Double.Hex
import ScriptHost.Proofs.Session.Haunt
import ScriptHost.Proofs.Session.Length
import ScriptHost.Proofs.Heap.Store
import ScriptHost.Proofs.Session.Trace
import ScriptHost.Proofs.Session.Rebinding
import ScriptHost.Proofs.Session.Contained
import ScriptHost.Proofs.Token.Slices
import ScriptHost.Proofs.Double.Grammar
import ScriptHost.Proofs.Double.Fraction
import ScriptHost.Proofs.Double.Search
import ScriptHost.Proofs.Double.RoundTrip
import ScriptHost.Proofs.Syntax.Terminators
import ScriptHost.Proofs.Syntax.Copies
import ScriptHost.Proofs.Syntax.Keeps
import ScriptHost.Proofs.Syntax.KeepsExpr
import ScriptHost.Proofs.Syntax.KeepsStmt
import ScriptHost.Proofs.Syntax.Written
import ScriptHost.Proofs.Token.Quoted
import ScriptHost.Proofs.Counting.Restored
import ScriptHost.Proofs.Syntax.Partners

import Sexpr.Main
import Sexpr.Scope.Store
import Sexpr.Proofs.RoundTrip
import Sexpr.Proofs.Refinement
import Sexpr.Proofs.Renaming
import Sexpr.Proofs.Session
import Sexpr.Proofs.Reformatting
import Sexpr.Proofs.Blame
import Sexpr.Proofs.Domain
import Sexpr.Proofs.Ledger
import Sexpr.Proofs.Files
import Sexpr.Proofs.Lookahead
import Sexpr.Proofs.NormalForm
import Sexpr.Proofs.Layout
import Sexpr.Proofs.Extents
import Sexpr.Proofs.Tokens
import Sexpr.Proofs.Context
import Sexpr.Proofs.Completion
import Sexpr.Proofs.History
import Sexpr.Proofs.Culprit
import Sexpr.Proofs.Threshold
import Sexpr.Proofs.Headroom
import Sexpr.Proofs.Journal
import Sexpr.Proofs.Echo
import Sexpr.Proofs.Sums
import Sexpr.Proofs.SingleForm
import Sexpr.Proofs.Validation

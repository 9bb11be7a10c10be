import Slowdown.Main
import Slowdown.Proofs.Baseline.Robust
import Slowdown.Proofs.Verdict.Extremes
import Slowdown.Proofs.Verdict.Coverage
import Slowdown.Proofs.History.Log
import Slowdown.Proofs.Verdict.Numbers
import Slowdown.Proofs.Archive.Unread
import Slowdown.Proofs.Report.Views
import Slowdown.Proofs.Directory
import Slowdown.Proofs.Command.Course
import Slowdown.Proofs.Command.Session
import Slowdown.Proofs.Decimal.Digits
import Slowdown.Proofs.Json.Lexemes
import Slowdown.Proofs.Json.Printing
import Slowdown.Proofs.Double.Range
import Slowdown.Proofs.Json.Range
import Slowdown.Proofs.Decimal.Places
import Slowdown.Proofs.Command.Formats
import Slowdown.Proofs.Report.Table
import Slowdown.Proofs.Verdict.Looser
import Slowdown.Proofs.History.Reordering
import Slowdown.Proofs.Archive.Written
import Slowdown.Proofs.Report.Nulls
import Slowdown.Proofs.Baseline.Arrangement
import Slowdown.Proofs.Baseline.Ready
import Slowdown.Proofs.Baseline.InnerHalf
import Slowdown.Proofs.Verdict.Limit
import Slowdown.Proofs.Double.Quotient
import Slowdown.Proofs.Verdict.Newest
import Slowdown.Proofs.History.Forgetting
import Slowdown.Proofs.Report.Shown
import Slowdown.Proofs.Json.Lexical
import Slowdown.Proofs.Archive.Wrapper
import Slowdown.Proofs.Json.Grammar
import Slowdown.Proofs.Sample.Median
import Slowdown.Proofs.Sample.Mirror
import Slowdown.Proofs.Verdict.Scaling

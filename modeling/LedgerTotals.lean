import LedgerTotals.Main
import LedgerTotals.Rollup.Accounts
import LedgerTotals.Proofs.Forest.Exactness
import LedgerTotals.Proofs.Rollup.Footing
import LedgerTotals.Proofs.Decimal.Order
import LedgerTotals.Proofs.Forest.Order
import LedgerTotals.Proofs.Page.Overwrite
import LedgerTotals.Proofs.Rollup.Verdict
import LedgerTotals.Proofs.Rollup.Regroup
import LedgerTotals.Proofs.Numbering
import LedgerTotals.Proofs.Page.Places
import LedgerTotals.Proofs.Rollup.Stages
import LedgerTotals.Proofs.Rollup.Again
import LedgerTotals.Proofs.Json.Quoted
import LedgerTotals.Proofs.Json.Spelling
import LedgerTotals.Proofs.Text.Utf8
import LedgerTotals.Proofs.Date
import LedgerTotals.Proofs.Json.Reads
import LedgerTotals.Proofs.Page.Json
import LedgerTotals.Proofs.Files
import LedgerTotals.Proofs.Jobs
import LedgerTotals.Proofs.Program
import LedgerTotals.Proofs.Amount.Signs
import LedgerTotals.Proofs.Grouping
import LedgerTotals.Proofs.Grouping.Accounts
import LedgerTotals.Proofs.Rollup.Changes
import LedgerTotals.Proofs.Rollup.Reference
import LedgerTotals.Proofs.Rollup.Sites
import LedgerTotals.Proofs.Rollup.Differences
import LedgerTotals.Proofs.Rollup.Accounting
import LedgerTotals.Proofs.Rollup.LeftOut
import LedgerTotals.Proofs.Amount.Plain
import LedgerTotals.Proofs.Amount.ReadBack
import LedgerTotals.Proofs.Transaction.Json
import LedgerTotals.Proofs.Rollup.Readable
import LedgerTotals.Proofs.Grouping.ReadBack
import LedgerTotals.Proofs.Totals.Dual
import LedgerTotals.Proofs.Forest.Dual
import LedgerTotals.Proofs.Rollup.Written
import LedgerTotals.Proofs.Rollup.Presentation
import LedgerTotals.Proofs.Rollup.Fitting
import LedgerTotals.Proofs.Page.Shuffled
import LedgerTotals.Proofs.Rollup.Shuffled
import LedgerTotals.Proofs.Csv.Record
import LedgerTotals.Proofs.Csv.Spelling
import LedgerTotals.Proofs.Csv.Text
import LedgerTotals.Proofs.Transaction.Table
import LedgerTotals.Proofs.Forest.Root
import LedgerTotals.Proofs.Rollup.Overflow
import LedgerTotals.Proofs.Amount.Canonical
import LedgerTotals.Proofs.Amount.Money
import LedgerTotals.Proofs.Rollup.Mended
import LedgerTotals.Proofs.Rollup.Origins
import LedgerTotals.Proofs.Rollup.Accounts
import LedgerTotals.Proofs.Numbering.Repair
import LedgerTotals.Proofs.Forest.Shown
import LedgerTotals.Proofs.Settings
import LedgerTotals.Proofs.Amount.Order

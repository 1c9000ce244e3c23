import Gunsmith.Bounds
import Gunsmith.Build
import Gunsmith.Cache
import Gunsmith.Config
import Gunsmith.Conflict
import Gunsmith.Constraints
import Gunsmith.Decimal.Binary64
import Gunsmith.Decimal.Numeral
import Gunsmith.Decimal.Shortest
import Gunsmith.Error
import Gunsmith.Item
import Gunsmith.Json.Basic
import Gunsmith.Json.Forms
import Gunsmith.Json.Members
import Gunsmith.Json.Printer
import Gunsmith.Json.Reader
import Gunsmith.Json.Reports
import Gunsmith.Pool
import Gunsmith.Provider
import Gunsmith.Record
import Gunsmith.Search.Numbered
import Gunsmith.Search.Numbering
import Gunsmith.Search.Solution
import Gunsmith.Search.Solver
import Gunsmith.Service
import Gunsmith.Snapshot
import Gunsmith.Stat
import Gunsmith.Status
import Gunsmith.Store.Builds
import Gunsmith.Store.Catalog
import Gunsmith.Store.Document
import Gunsmith.Store.Isolated
import Gunsmith.Store.Queue
import Gunsmith.Store.Schema
import Gunsmith.Store.Settings
import Gunsmith.Store.Subtrees
import Gunsmith.Store.Tables
import Gunsmith.Sweep
import Gunsmith.Text.Blank
import Gunsmith.Text.Letters
import Gunsmith.Text.NameSet
import Gunsmith.Trader
import Gunsmith.Total
import Gunsmith.Tree.Arena
import Gunsmith.Tree.Basic
import Gunsmith.Tree.Candidates
import Gunsmith.Tree.Expansion
import Gunsmith.Tree.Growth
import Gunsmith.Tree.Ordering
import Gunsmith.Tree.Pruning
import Gunsmith.Tree.Reach
import Gunsmith.Proofs.Totals
import Gunsmith.Proofs.Tree.Filling
import Gunsmith.Proofs.Conflict
import Gunsmith.Proofs.Conflict.Closure
import Gunsmith.Proofs.Tree.Feasible
import Gunsmith.Proofs.Search.Answer
import Gunsmith.Proofs.Search.Refinement
import Gunsmith.Proofs.Tree.Trimming
import Gunsmith.Proofs.Tree.Range
import Gunsmith.Proofs.Tree.Exchange
import Gunsmith.Proofs.Tree.Expanded
import Gunsmith.Proofs.Tree.Candidates
import Gunsmith.Proofs.Search.Optimality
import Gunsmith.Proofs.Tree.CutAlike
import Gunsmith.Proofs.Cache
import Gunsmith.Proofs.Search.Sharing
import Gunsmith.Proofs.Tree.Relabelled
import Gunsmith.Proofs.Tree.Removal
import Gunsmith.Proofs.Search.Choices
import Gunsmith.Proofs.Constraints
import Gunsmith.Proofs.Json.Forms
import Gunsmith.Proofs.Json.RoundTrip
import Gunsmith.Proofs.Store.Tables
import Gunsmith.Proofs.Store.Orderly
import Gunsmith.Proofs.Search.Untouched
import Gunsmith.Proofs.Service.Evaluation
import Gunsmith.Proofs.Store.Calls
import Gunsmith.Proofs.Service.Steps
import Gunsmith.Proofs.Service.Runs
import Gunsmith.Proofs.Service.Agreement
import Gunsmith.Proofs.Service.Crew
import Gunsmith.Proofs.Tree.Embedding
import Gunsmith.Proofs.Search.Relaxation
import Gunsmith.Proofs.Search.Exclusion
import Gunsmith.Proofs.Queue.Line
import Gunsmith.Proofs.Queue.Calls
import Gunsmith.Proofs.Queue.Lifecycle
import Gunsmith.Proofs.Queue.Claims
import Gunsmith.Proofs.Queue.Advances
import Gunsmith.Proofs.Service.Jobs
import Gunsmith.Proofs.Pool.Steps
import Gunsmith.Proofs.Pool.Flow
import Gunsmith.Proofs.Pool.Accounts
import Gunsmith.Proofs.Pool.Shutdown
import Gunsmith.Proofs.Store.Isolated
import Gunsmith.Proofs.Cache.Backends
import Gunsmith.Proofs.Store.Catalogue
import Gunsmith.Proofs.Tree.Standing
import Gunsmith.Proofs.Tree.Guard
import Gunsmith.Proofs.Tree.Legal
import Gunsmith.Proofs.Store.Schema
import Gunsmith.Proofs.Queue.Turns
import Gunsmith.Proofs.Queue.Sweep
import Gunsmith.Proofs.Store.Writes
import Gunsmith.Proofs.Store.ReadBack
import Gunsmith.Proofs.Tree.Unopposed
import Gunsmith.Proofs.Search.Weapon
import Gunsmith.Proofs.Tree.Depth
import Gunsmith.Proofs.Tree.Annotations
import Gunsmith.Proofs.Tree.Faults
import Gunsmith.Proofs.Search.Recording
import Gunsmith.Proofs.Search.Transparency
import Gunsmith.Proofs.Tree.Sorted
import Gunsmith.Proofs.Store.Kept
import Gunsmith.Proofs.Store.Bookkeeping
import Gunsmith.Proofs.Store.LastWritten
import Gunsmith.Proofs.Store.Traced
import Gunsmith.Proofs.Snapshot
import Gunsmith.Proofs.Snapshot.Exact
import Gunsmith.Proofs.Store.Chronicle
import Gunsmith.Proofs.Arena.WellFormed
import Gunsmith.Proofs.Arena.Traversal
import Gunsmith.Proofs.Arena.Mirroring
import Gunsmith.Proofs.Arena.Held
import Gunsmith.Proofs.Arena.Answers
import Gunsmith.Proofs.Arena.Populating
import Gunsmith.Proofs.Arena.Rating
import Gunsmith.Proofs.Arena.Choosing
import Gunsmith.Proofs.Arena.Strict
import Gunsmith.Proofs.Arena.Notes
import Gunsmith.Proofs.Arena.Limits
import Gunsmith.Proofs.Search.Numbered
import Gunsmith.Proofs.Search.Expansions
import Gunsmith.Proofs.Search.Once

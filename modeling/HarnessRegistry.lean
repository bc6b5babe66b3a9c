import HarnessRegistry.Txn.Table
import HarnessRegistry.Txn.Prog
import HarnessRegistry.Txn.Pool
import HarnessRegistry.Txn.Contract
import HarnessRegistry.Schema
import HarnessRegistry.Text
import HarnessRegistry.Error
import HarnessRegistry.Models
import HarnessRegistry.Config
import HarnessRegistry.Sql
import HarnessRegistry.Handler
import HarnessRegistry.Auth
import HarnessRegistry.GitHub
import HarnessRegistry.Accounts
import HarnessRegistry.Service
import HarnessRegistry.Invariant
import HarnessRegistry.Effects
import HarnessRegistry.Specs
import HarnessRegistry.Txn.History
import HarnessRegistry.Txn.Programs
import HarnessRegistry.Runs
import HarnessRegistry.Numbering
import HarnessRegistry.Cap
import HarnessRegistry.Published
import HarnessRegistry.Isolation
import HarnessRegistry.Identity
import HarnessRegistry.Block
import HarnessRegistry.Installs
import HarnessRegistry.Limiter
import HarnessRegistry.Window
import HarnessRegistry.Reference
import HarnessRegistry.Shed
import HarnessRegistry.Replica
import HarnessRegistry.Spread
import HarnessRegistry.Inflation
import HarnessRegistry.Spans
import HarnessRegistry.Flows
import HarnessRegistry.Atomic
import HarnessRegistry.Stored
import HarnessRegistry.Entry
import HarnessRegistry.Replay
import HarnessRegistry.Serial
import HarnessRegistry.Tokens
import HarnessRegistry.Names
import HarnessRegistry.Enroll
import HarnessRegistry.Gap
import HarnessRegistry.Chosen
import HarnessRegistry.Ranked.Pages
import HarnessRegistry.Browse
import HarnessRegistry.Search
import HarnessRegistry.Rank
import HarnessRegistry.Reads
import HarnessRegistry.Txn.Blind
import HarnessRegistry.Unseen
import HarnessRegistry.Slug
import HarnessRegistry.Lengths
import HarnessRegistry.BodyLimit
import HarnessRegistry.Txn.Strict
import HarnessRegistry.Storable
import HarnessRegistry.Operator
import HarnessRegistry.Age
import HarnessRegistry.Buckets
import HarnessRegistry.Openings
import HarnessRegistry.Txn.Waits
import HarnessRegistry.Drain
import HarnessRegistry.Txn.Conns
import HarnessRegistry.Connections
import HarnessRegistry.Numerals
import HarnessRegistry.Settings
import HarnessRegistry.Startup
import HarnessRegistry.Txn.Moments
import HarnessRegistry.Grounds
import HarnessRegistry.Grounded
import HarnessRegistry.Txn.Lookup
import HarnessRegistry.Catalogue
import HarnessRegistry.Projection
import HarnessRegistry.Refine
import HarnessRegistry.Txn.Erase
import HarnessRegistry.Revoked

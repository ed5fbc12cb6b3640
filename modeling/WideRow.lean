import WideRow.Backoff
import WideRow.Cache.Facet
import WideRow.Cache.Policy
import WideRow.Cache.Session
import WideRow.Config.Reader
import WideRow.Config.Session
import WideRow.Decimal.Layout
import WideRow.Decimal.Shortest
import WideRow.Demo.Commands
import WideRow.Demo.Config
import WideRow.Demo.Customer
import WideRow.Duration
import WideRow.Error
import WideRow.Filter
import WideRow.Main
import WideRow.Metrics
import WideRow.Operation.Conditions
import WideRow.Operation.PointQuery
import WideRow.Operation.Query
import WideRow.Operation.RowCount
import WideRow.Operation.RowDelete
import WideRow.Operation.RowInsert
import WideRow.Operation.RowUpdate
import WideRow.Operator
import WideRow.Proofs.Accounting
import WideRow.Proofs.AddressTexts
import WideRow.Proofs.Admission
import WideRow.Proofs.AfterCommit
import WideRow.Proofs.Aftermath
import WideRow.Proofs.Agreement
import WideRow.Proofs.Assembly
import WideRow.Proofs.CacheChanges
import WideRow.Proofs.CachedCustomers
import WideRow.Proofs.Calls
import WideRow.Proofs.Charges
import WideRow.Proofs.ClosedTexts
import WideRow.Proofs.Coherence
import WideRow.Proofs.Confinement
import WideRow.Proofs.Construction
import WideRow.Proofs.Counting
import WideRow.Proofs.DataTypes
import WideRow.Proofs.Dialling
import WideRow.Proofs.Encoding
import WideRow.Proofs.Evictions
import WideRow.Proofs.Failures
import WideRow.Proofs.Filing
import WideRow.Proofs.Following
import WideRow.Proofs.FullForms
import WideRow.Proofs.HeldRows
import WideRow.Proofs.HitAndMiss
import WideRow.Proofs.Hits
import WideRow.Proofs.Hooks
import WideRow.Proofs.Identifiers
import WideRow.Proofs.Isolation
import WideRow.Proofs.Jitter
import WideRow.Proofs.KeyIdentity
import WideRow.Proofs.KeyShapes
import WideRow.Proofs.KeyText
import WideRow.Proofs.KeyedTable
import WideRow.Proofs.Keys
import WideRow.Proofs.Markers
import WideRow.Proofs.Merging
import WideRow.Proofs.Mirror
import WideRow.Proofs.Names
import WideRow.Proofs.Nesting
import WideRow.Proofs.NumberTexts
import WideRow.Proofs.OneTable
import WideRow.Proofs.OrderedMaps
import WideRow.Proofs.Postulates
import WideRow.Proofs.Preparation
import WideRow.Proofs.Projection
import WideRow.Proofs.Publication
import WideRow.Proofs.ReadYourWrites
import WideRow.Proofs.Refusals
import WideRow.Proofs.Rekeying
import WideRow.Proofs.Resending
import WideRow.Proofs.Resolution
import WideRow.Proofs.Retention
import WideRow.Proofs.RowView
import WideRow.Proofs.SampleKeys
import WideRow.Proofs.ScalarTexts
import WideRow.Proofs.Seeding
import WideRow.Proofs.SharedColumns
import WideRow.Proofs.ShortestDecimals
import WideRow.Proofs.Staleness
import WideRow.Proofs.Statements
import WideRow.Proofs.Table
import WideRow.Proofs.Tombstones
import WideRow.Proofs.Transparency
import WideRow.Proofs.UniqueFacets
import WideRow.Proofs.UnitRows
import WideRow.Proofs.UnitUpkeep
import WideRow.Proofs.Upkeep
import WideRow.Proofs.WriteThrough
import WideRow.Row
import WideRow.Sample.Entities
import WideRow.Sample.Script
import WideRow.Sample.Seed
import WideRow.Sample.SipHash
import WideRow.Sample.Tagging
import WideRow.Schema.Entity
import WideRow.Schema.Mapping
import WideRow.Session
import WideRow.Statement.Basic
import WideRow.Statement.Cql
import WideRow.Text.Quoted
import WideRow.UnitOfWork
import WideRow.Value.Basic
import WideRow.Value.Codec
import WideRow.Value.ColumnType
import WideRow.Value.Inet
import WideRow.Value.OrderedSet
import WideRow.Value.Shown
import WideRow.Value.Uuid

import Eyot.Library.Run
import Eyot.Library.Forest
import Eyot.Library.Search
import Eyot.Library.Table
import Eyot.Data.Json
import Eyot.Data.Rows
import Eyot.Data.Errors
import Eyot.Topology.Passages
import Eyot.Topology.Messaging
import Eyot.Topology.ForestLaws
import Eyot.Topology.Concurrent
import Eyot.Library.Pattern
import Eyot.Library.Scan
import Eyot.Data.Text
import Eyot.Slash.Directive
import Eyot.Slash.Backend
import Eyot.Slash.Portal
import Eyot.Slash.Grammar
import Eyot.Slash.ContentRefs
import Eyot.Slash.Conservation
import Eyot.Library.Traced
import Eyot.Routing.Effects
import Eyot.Routing.MessageRouter
import Eyot.Routing.Gate
import Eyot.Routing.DirectiveRouter
import Eyot.Routing.Content
import Eyot.Host.Js
import Eyot.Host.ChatBridge
import Eyot.Host.TurnProtocol
import Eyot.Data.Utf16
import Eyot.Slash.Recode
import Eyot.Slash.Lines
import Eyot.Slash.Disputed
import Eyot.Slash.Alike
import Eyot.Slash.Parity
import Eyot.Inject.Queue
import Eyot.Inject.Lifecycle
import Eyot.Inject.Pollers
import Eyot.Inject.Control
import Eyot.Inject.Ledger
import Eyot.Inject.Runtime
import Eyot.Composer.Frames
import Eyot.Composer.Turn
import Eyot.Library.Fleet
import Eyot.Composer.Absorbing
import Eyot.Composer.Transcript
import Eyot.Composer.Isolation
import Eyot.Composer.Stream
import Eyot.Routing.SendMessage
import Eyot.Composer.Wire
import Eyot.Composer.Reply
import Eyot.Data.Fnmatch
import Eyot.Events.Watcher
import Eyot.Harness.Rehydrate
import Eyot.Harness.Trips
import Eyot.Harness.Stopped
import Eyot.Harness.Rollback
import Eyot.Library.Loop
import Eyot.Runtime.AgentLoop
import Eyot.Routing.Namespaces
import Eyot.Library.StableSort
import Eyot.Data.JsonKeys
import Eyot.Market.MigrationHash
import Eyot.Library.Derived
import Eyot.Market.Catalog
import Eyot.Market.Requests
import Eyot.Market.Frames
import Eyot.Market.Freshness
import Eyot.Runtime.Tasks
import Eyot.Runtime.Agreement
import Eyot.Library.FirstWins
import Eyot.Market.Manifest
import Eyot.Market.RowOrder
import Eyot.Tenancy.Rows
import Eyot.Tenancy.Requests
import Eyot.Tenancy.ScopeMatrix
import Eyot.Library.Keeps
import Eyot.Tenancy.Grows
import Eyot.Tenancy.Ownership
import Eyot.Tenancy.Tenants
import Eyot.Tenancy.Providers
import Eyot.Tenancy.ProviderIsolation
import Eyot.Access.Permissions
import Eyot.Access.OrgScope
import Eyot.Access.Members
import Eyot.Access.Lockout
import Eyot.Hierarchy.Requests
import Eyot.Hierarchy.Ancestors
import Eyot.Topology.Seats
import Eyot.Topology.Integrity
import Eyot.Deploy.Pipeline
import Eyot.Deploy.Settling
import Eyot.Deploy.Interference
import Eyot.Fornix.Mirror
import Eyot.Fornix.Files
import Eyot.Fornix.Confinement
import Eyot.Library.Seating
import Eyot.Fornix.Plans
import Eyot.Fornix.TreeLaws
import Eyot.Fornix.DualWrite
import Eyot.Market.Overlay
import Eyot.Market.Profiles
import Eyot.Market.Clones
import Eyot.Market.OrganizationClones
import Eyot.Market.AssetRequests
import Eyot.Market.Independence
import Eyot.Market.SelfContained
import Eyot.Market.ClonedOrganizations
import Eyot.Topology.WorkspaceClones
import Eyot.Topology.InducedCopies
import Eyot.Topology.CopiedGraphs
import Eyot.Presets.Registry
import Eyot.Presets.Agreement
import Eyot.Learning.Distill
import Eyot.Learning.DistillAgreement
import Eyot.Knowledge.Winners
import Eyot.Knowledge.Interleavings
import Eyot.Knowledge.KeyUniqueness
import Eyot.Data.Datetime
import Eyot.Library.Base64
import Eyot.Library.Paging
import Eyot.Data.Cursors
import Eyot.Events.Log
import Eyot.Learning.MemoryPages
import Eyot.Meetings.Wakes
import Eyot.Meetings.Lifecycle
import Eyot.Brainstem.Runner
import Eyot.Brainstem.Isolation
import Eyot.Brainstem.Requests
import Eyot.Brainstem.Orphans
import Eyot.Access.BatchRestart
import Eyot.Naming.WorkspaceRename
import Eyot.Library.Like
import Eyot.Naming.EntityRename
import Eyot.Portal.Transcript
import Eyot.Fornix.AgentHub
import Eyot.Library.MinQueue
import Eyot.Queue.Worker
import Eyot.Queue.Accounts
import Eyot.Data.JsonDumps
import Eyot.Host.ChildLifecycle
import Eyot.Library.Utf8
import Eyot.Library.Framing
import Eyot.Portal.ComposerStream
import Eyot.Host.PiStream
import Eyot.Library.Segments
import Eyot.Naming.CloneSlugs
import Eyot.Learning.CapabilitySlugs
import Eyot.Knowledge.PodEnvironment
import Eyot.Routing.TldrRules
import Eyot.Data.PyJson
import Eyot.Learning.LlmDistill
import Eyot.Learning.LlmRobust
import Eyot.Library.Tally
import Eyot.Learning.DistillOrder
import Eyot.Cerebellum.Migration
import Eyot.Cerebellum.Migrated
import Eyot.Cerebellum.MigrationRun
import Eyot.Data.PyUuid
import Eyot.Learning.NotepadMigration
import Eyot.Learning.Notepads
import Eyot.Learning.NotepadRun
import Eyot.Library.LazyPurge
import Eyot.RateLimit.Windows
import Eyot.Market.OverlayLaws
import Eyot.Topology.Neighborhood
import Eyot.Harness.TodoEnforcer
import Eyot.Tunnel.Hub
import Eyot.Deploy.Quantities
import Eyot.Deploy.EventBus
import Eyot.Host.TunnelClient
import Eyot.Portal.DeployStream
import Eyot.Subagents.Chain
import Eyot.Subagents.Parallel
import Eyot.Portal.ThinkingFilter
import Eyot.Portal.ComposerHistory
import Eyot.Portal.Activities
import Eyot.Market.Promotion
import Eyot.Queue.Timers

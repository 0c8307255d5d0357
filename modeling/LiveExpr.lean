import LiveExpr.Bus
import LiveExpr.Code.Assembly
import LiveExpr.Code.Decode
import LiveExpr.Code.Instruction
import LiveExpr.Code.LittleEndian
import LiveExpr.Code.Opcode
import LiveExpr.Code.Program
import LiveExpr.Context
import LiveExpr.Directory
import LiveExpr.Engine.Action
import LiveExpr.Engine.Evaluate
import LiveExpr.Engine.Fire
import LiveExpr.Engine.Perform
import LiveExpr.Engine.State
import LiveExpr.Fault
import LiveExpr.Host
import LiveExpr.Identifier
import LiveExpr.Limits
import LiveExpr.Machine.Frame
import LiveExpr.Machine.Run
import LiveExpr.Mailbox
import LiveExpr.Mixer.Announcement
import LiveExpr.Mixer.Device
import LiveExpr.Mixer.Extension
import LiveExpr.Mixer.Interface
import LiveExpr.Mixer.Question
import LiveExpr.Mixer.Tables
import LiveExpr.Names
import LiveExpr.Number.Binary
import LiveExpr.Number.Digits
import LiveExpr.Number.Notation
import LiveExpr.Number.Power
import LiveExpr.Number.Reading
import LiveExpr.Number.Remainder
import LiveExpr.Number.Shortest
import LiveExpr.Operator
import LiveExpr.Proofs.Accounts
import LiveExpr.Proofs.Activation
import LiveExpr.Proofs.Alignment
import LiveExpr.Proofs.AnnouncedDevices
import LiveExpr.Proofs.AnnouncementHistories
import LiveExpr.Proofs.Assembling
import LiveExpr.Proofs.Bindings
import LiveExpr.Proofs.Boundaries
import LiveExpr.Proofs.Calls
import LiveExpr.Proofs.Coherence
import LiveExpr.Proofs.Confinement
import LiveExpr.Proofs.Consumers
import LiveExpr.Proofs.Deeds
import LiveExpr.Proofs.DefaultDevices
import LiveExpr.Proofs.Deliveries
import LiveExpr.Proofs.Dependencies
import LiveExpr.Proofs.DeviceHistories
import LiveExpr.Proofs.Dispatches
import LiveExpr.Proofs.Drafts
import LiveExpr.Proofs.Execution
import LiveExpr.Proofs.FanOutOrder
import LiveExpr.Proofs.FanOuts
import LiveExpr.Proofs.FloatOrder
import LiveExpr.Proofs.Frames
import LiveExpr.Proofs.Freshness
import LiveExpr.Proofs.Functional
import LiveExpr.Proofs.Grammar
import LiveExpr.Proofs.Handlings
import LiveExpr.Proofs.Histories
import LiveExpr.Proofs.Identifiers
import LiveExpr.Proofs.LastUpdates
import LiveExpr.Proofs.Lifetimes
import LiveExpr.Proofs.ListenerCalls
import LiveExpr.Proofs.Listings
import LiveExpr.Proofs.Loops
import LiveExpr.Proofs.Mentions
import LiveExpr.Proofs.MixerAddresses
import LiveExpr.Proofs.MixerAnnouncements
import LiveExpr.Proofs.MixerChanges
import LiveExpr.Proofs.MixerCommands
import LiveExpr.Proofs.MixerHistories
import LiveExpr.Proofs.MixerListeners
import LiveExpr.Proofs.MixerOrders
import LiveExpr.Proofs.MixerPumps
import LiveExpr.Proofs.MixerQueries
import LiveExpr.Proofs.MixerRuns
import LiveExpr.Proofs.MixerTables
import LiveExpr.Proofs.Moves
import LiveExpr.Proofs.Operands
import LiveExpr.Proofs.Operations
import LiveExpr.Proofs.PureRefreshes
import LiveExpr.Proofs.QueueFires
import LiveExpr.Proofs.QueueHandles
import LiveExpr.Proofs.QueueHistories
import LiveExpr.Proofs.QueueLogs
import LiveExpr.Proofs.QueueNames
import LiveExpr.Proofs.QueueOrder
import LiveExpr.Proofs.QueueRequests
import LiveExpr.Proofs.Quiescence
import LiveExpr.Proofs.Reachability
import LiveExpr.Proofs.Reads
import LiveExpr.Proofs.Rebindings
import LiveExpr.Proofs.Refreshes
import LiveExpr.Proofs.Regimes
import LiveExpr.Proofs.Retention
import LiveExpr.Proofs.Rounding
import LiveExpr.Proofs.Runs
import LiveExpr.Proofs.Sessions
import LiveExpr.Proofs.Silence
import LiveExpr.Proofs.Slots
import LiveExpr.Proofs.StaleValues
import LiveExpr.Proofs.StreamNames
import LiveExpr.Proofs.SubscriptionIndex
import LiveExpr.Proofs.Subscriptions
import LiveExpr.Proofs.TableHistories
import LiveExpr.Proofs.Thresholds
import LiveExpr.Proofs.Transitions
import LiveExpr.Proofs.Turns
import LiveExpr.Proofs.VolatileReads
import LiveExpr.Proofs.VolumeRanges
import LiveExpr.Proofs.Watches
import LiveExpr.Queue
import LiveExpr.Registry
import LiveExpr.Settings
import LiveExpr.Store
import LiveExpr.Table
import LiveExpr.Text.Blank
import LiveExpr.Text.Caseless
import LiveExpr.Text.Quoted
import LiveExpr.Text.Record
import LiveExpr.Text.Spelled
import LiveExpr.Text.Split
import LiveExpr.Toml.Document
import LiveExpr.Toml.Lexeme
import LiveExpr.Toml.Tree
import LiveExpr.Value

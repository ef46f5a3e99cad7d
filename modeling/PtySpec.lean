import PtySpec.Lib.Incremental
import PtySpec.Lib.Program
import PtySpec.Lib.Trace
import PtySpec.Lib.Follow
import PtySpec.Protocol.Packet
import PtySpec.Protocol.Payload
import PtySpec.Operation.Value
import PtySpec.Operation.Record
import PtySpec.Operation.Store
import PtySpec.Operation.Frames
import PtySpec.Operation.Process
import PtySpec.Operation.Settle
import PtySpec.Operation.Effects
import PtySpec.Operation.Move
import PtySpec.Operation.Duty
import PtySpec.Operation.Launcher
import PtySpec.Daemon.Actor
import PtySpec.Daemon.ActorSpec
import PtySpec.Operation.Recovery
import PtySpec.Daemon.Main
import PtySpec.Daemon.Process
import PtySpec.Daemon.Tickets
import PtySpec.Daemon.Handover
import PtySpec.Daemon.Kills
import PtySpec.Daemon.Exits
import PtySpec.Serving.InputBudget
import PtySpec.Serving.Clients
import PtySpec.Serving.Stream
import PtySpec.Serving.Quiet
import PtySpec.Serving.Geometry
import PtySpec.Serving.Outbound
import PtySpec.Lib.Transducer
import PtySpec.Vt.Strip
import PtySpec.Vt.History
import PtySpec.Vt.Queries
import PtySpec.Vt.Actor
import PtySpec.System.Record
import PtySpec.System.Release
import PtySpec.Registry.Mutate
import PtySpec.Serving.Lease
import PtySpec.Lib.Chunks
import PtySpec.Vt.Graphics
import PtySpec.Serving.Screen
import PtySpec.Lib.IndexMap
import PtySpec.Metadata.Json
import PtySpec.Metadata.Record
import PtySpec.Metadata.Mutate
import PtySpec.Lib.Lines
import PtySpec.Lib.Retention
import PtySpec.Events.Log
import PtySpec.Events.Kept
import PtySpec.Lib.Tail
import PtySpec.Events.Follow
import PtySpec.Registry.Names
import PtySpec.Listing.Scan
import PtySpec.Listing.Namespace
import PtySpec.Listing.Scanner
import PtySpec.Listing.Observe
import PtySpec.Lib.Fence
import PtySpec.Listing.Files
import PtySpec.Listing.MetadataCache
import PtySpec.Listing.Transparency
import PtySpec.Revocation.Store
import PtySpec.Revocation.System
import PtySpec.Revocation.Fence
import PtySpec.Revocation.Guarantee
import PtySpec.Serving.MachineStream
import PtySpec.Substrate.Queue
import PtySpec.Substrate.Actor
import PtySpec.Substrate.System
import PtySpec.Substrate.Step
import PtySpec.Substrate.Notices
import PtySpec.Substrate.Streams
import PtySpec.Substrate.Routing
import PtySpec.Substrate.Delivery
import PtySpec.Substrate.Order
import PtySpec.Substrate.Bound
import PtySpec.Substrate.Requests
import PtySpec.Substrate.Input
import PtySpec.Vt.EnhancedPaste
import PtySpec.Vt.PasteMode
import PtySpec.Handle.Core
import PtySpec.Handle.Transactions
import PtySpec.Handle.Forward
import PtySpec.Lib.Revisions
import PtySpec.Handle.Frames
import PtySpec.Handle.Watch
import PtySpec.Handle.Grids
import PtySpec.Protocol.Oversize
import PtySpec.Serving.Sizes
import PtySpec.Lib.Excision
import PtySpec.Vt.Stripping
import PtySpec.Remote.Tunnel
import PtySpec.Proc.Table
import PtySpec.Lib.Serial
import PtySpec.Metadata.Patch
import PtySpec.Metadata.Linear
import PtySpec.Metadata.Activity
import PtySpec.Metadata.Credit
import PtySpec.Listing.Keyed
import PtySpec.Listing.Untorn
import PtySpec.Metadata.Notice
import PtySpec.Vt.Base64
import PtySpec.Lib.Utf8
import PtySpec.Vt.ReadRequest
import PtySpec.Vt.PasteScan
import PtySpec.Operation.Envelope
import PtySpec.Operation.OwnerFrame
import PtySpec.Daemon.OwnerChannel
import PtySpec.Vt.Cropping
import PtySpec.Lib.Collect
import PtySpec.Vt.Placeholders
import PtySpec.Vt.PlaceholderScan
import PtySpec.Daemon.Messages
import PtySpec.Lib.Calendar
import PtySpec.Lib.Digits
import PtySpec.Registry.Time
import PtySpec.Lib.Breadth
import PtySpec.Proc.Tree
import PtySpec.Events.Batches
import PtySpec.Daemon.Ownership
import PtySpec.Lib.Deferred
import PtySpec.Metadata.Raw
import PtySpec.Metadata.Effective
import PtySpec.Metadata.ListMetadata
import PtySpec.Lifecycle.Gc
import PtySpec.Lifecycle.Respawn
import PtySpec.Lifecycle.Flapping
import PtySpec.Lifecycle.Retention
import PtySpec.Lifecycle.Sweeps
import PtySpec.Lib.Pieces
import PtySpec.Client.Detach
import PtySpec.Client.Follow
import PtySpec.Client.Paste
import PtySpec.Client.Connection
import PtySpec.Client.Timeouts
import PtySpec.Client.Delivery
import PtySpec.Lib.Window
import PtySpec.Client.Watch
import PtySpec.Daemon.Env
import PtySpec.Lib.Sift
import PtySpec.Proc.Terminate
import PtySpec.Cli.Up
import PtySpec.Lib.Words
import PtySpec.Cli.Label
import PtySpec.Keys.Text
import PtySpec.Keys.Core
import PtySpec.Keys.Tui
import PtySpec.Keys.Token
import PtySpec.Keys.Reads
import PtySpec.Keys.CoreReads
import PtySpec.Keys.TuiReads
import PtySpec.Keys.Agree
import PtySpec.Tui.Scroll
import PtySpec.Tui.Fuzzy
import PtySpec.Tui.Text
import PtySpec.Tui.Truncate
import PtySpec.Tui.TextArea
import PtySpec.Tui.FlatText
import PtySpec.Cli.Restart
import PtySpec.Cli.RestartAgree
import PtySpec.Cli.RestartKeeps
import PtySpec.Proc.Argv
import PtySpec.Proc.ArgvWhole
import PtySpec.Lib.Shell
import PtySpec.Lifecycle.Manifest
import PtySpec.Lib.Multiplex
import PtySpec.Client.Stats
import PtySpec.Client.StatsEnding
import PtySpec.Client.StatsAgree
import PtySpec.Lifecycle.Normalize
import PtySpec.Tui.DatePicker
import PtySpec.Client.Readiness
import PtySpec.Client.ReadinessProven
import PtySpec.Client.ReadinessConnect
import PtySpec.Lib.Fallible
import PtySpec.Cli.Run
import PtySpec.Cli.RunKeeps
import PtySpec.Lib.Interleave
import PtySpec.Registry.LockFile
import PtySpec.Registry.LockDuty
import PtySpec.Registry.LockExclusive
import PtySpec.Lib.Worlds
import PtySpec.Operation.Retirement

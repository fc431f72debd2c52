import Quorum.Js.Str
import Quorum.Js.Number
import Quorum.Js.Equiv.Number
import Quorum.Js.Dict
import Quorum.Js.Except
import Quorum.Js.Sort
import Quorum.Js.Value
import Quorum.Order.Along
import Quorum.Order.Follows
import Quorum.Order.Gathered
import Quorum.Wire
import Quorum.Log
import Quorum.Log.Fold
import Quorum.Log.Run
import Quorum.Log.Replay
import Quorum.Log.Reactions
import Quorum.Log.Authority
import Quorum.Log.Echo
import Quorum.Log.Pages
import Quorum.ChanKeys
import Quorum.ChanKeys.View
import Quorum.ChanKeys.Refine
import Quorum.ChanKeys.Join
import Quorum.ChanKeys.Keeps
import Quorum.ChanKeys.Rotation
import Quorum.Js.Act
import Quorum.Js.Table
import Quorum.Board
import Quorum.Ledger
import Quorum.Envelope
import Quorum.Envelope.Arrival
import Quorum.Envelope.Frame
import Quorum.Ledger.Voices
import Quorum.Ledger.Signatures
import Quorum.Envelope.RoomKeys
import Quorum.Request
import Quorum.Circles
import Quorum.Circles.RoomKeys
import Quorum.Relay
import Quorum.Relay.Serial
import Quorum.Relay.Cursor
import Quorum.Storage
import Quorum.Storage.Ratchet
import Quorum.History
import Quorum.Order.Paging
import Quorum.Log.Held
import Quorum.History.Steps
import Quorum.History.Issued
import Quorum.Relay.Outbound
import Quorum.Server
import Quorum.Server.Sections
import Quorum.Server.Steps
import Quorum.Server.Admins
import Quorum.Server.Subscribers
import Quorum.Server.Reachable
import Quorum.Server.Removal
import Quorum.Server.Delivery
import Quorum.History.Deletion
import Quorum.History.Scroll
import Quorum.History.CatchUp
import Quorum.Js.Entries
import Quorum.Store
import Quorum.Store.Memory
import Quorum.Server.Kept
import Quorum.Store.Steps
import Quorum.Store.Invites
import Quorum.Store.Postgres
import Quorum.Store.Redemptions
import Quorum.Handshake
import Quorum.Handshake.Pinned
import Quorum.Handshake.Bootstrap
import Quorum.Order.Pending
import Quorum.Connection
import Quorum.Connection.Requests
import Quorum.Bytes
import Quorum.Mls
import Quorum.Mls.Snapshot
import Quorum.Mls.Removal
import Quorum.Mls.Eviction
import Quorum.Mls.Directory
import Quorum.Circles.Rejoin
import Quorum.Envelope.Settings
import Quorum.Envelope.Rebroadcast
import Quorum.Order.Entries
import Quorum.Envelope.Boards
import Quorum.Order.Shared
import Quorum.Order.Seats
import Quorum.Envelope.Seats
import Quorum.Ledger.Clocks
import Quorum.Js.Text
import Quorum.Log.Verify
import Quorum.Mls.Redeem
import Quorum.Voice
import Quorum.Voice.Isolation
import Quorum.Fork
import Quorum.Fork.Flag
import Quorum.Log.Prune
import Quorum.Groups
import Quorum.Order.Framing
import Quorum.Mls.Bundle
import Quorum.Mls.SafetyNumber
import Quorum.Trust
import Quorum.Circles.Halves
import Quorum.Backup
import Quorum.Js.Unicode
import Quorum.Js.Json
import Quorum.Log.Signing
import Quorum.Account.Interference
import Quorum.Js.Base64
import Quorum.Blobs.Retention
import Quorum.Blobs.Race
import Quorum.Order.TokenBucket
import Quorum.Ratelimit
import Quorum.Link
import Quorum.Link.Address
import Quorum.Link.Handoff
import Quorum.Search
import Quorum.Search.Snippet
import Quorum.Search.Ranking
import Quorum.Voice.Ring

import SmartFecTunnel.Library.BigEndian
import SmartFecTunnel.Library.Layout
import SmartFecTunnel.Library.Crypto
import SmartFecTunnel.Library.Table
import SmartFecTunnel.Library.Run
import SmartFecTunnel.Library.Convergence
import SmartFecTunnel.Library.Recent
import SmartFecTunnel.Library.TokenBucket
import SmartFecTunnel.Library.Chunks
import SmartFecTunnel.Library.Text
import SmartFecTunnel.Library.PathName
import SmartFecTunnel.Library.FileSystem
import SmartFecTunnel.Library.FaultRun
import SmartFecTunnel.Library.Framing
import SmartFecTunnel.Library.FirstError
import SmartFecTunnel.Library.Overlay
import SmartFecTunnel.Library.PyValue
import SmartFecTunnel.Library.IpNetwork
import SmartFecTunnel.Library.IpCollapse
import SmartFecTunnel.Library.ErasureCode
import SmartFecTunnel.Library.EvaluationCode
import SmartFecTunnel.Library.Family
import SmartFecTunnel.Library.LossyChannel
import SmartFecTunnel.Library.RoundRobin
import SmartFecTunnel.Library.Isolation
import SmartFecTunnel.Library.Guarded
import SmartFecTunnel.Library.Placement
import SmartFecTunnel.Fec.Frame
import SmartFecTunnel.Fec.Adaptive
import SmartFecTunnel.Fec.Encoder
import SmartFecTunnel.Fec.Decoder
import SmartFecTunnel.Fec.AdaptiveSafety
import SmartFecTunnel.Fec.AdaptiveConvergence
import SmartFecTunnel.Fec.Fragments
import SmartFecTunnel.Fec.SequenceWindow
import SmartFecTunnel.Fec.ReorderWindow
import SmartFecTunnel.Fec.GroupState
import SmartFecTunnel.Fec.ReassemblyState
import SmartFecTunnel.Fec.DecoderSafety
import SmartFecTunnel.Fec.FailedFrame
import SmartFecTunnel.Fec.SenderLog
import SmartFecTunnel.Fec.HonestReceiver
import SmartFecTunnel.Fec.AtMostOnce
import SmartFecTunnel.Fec.Availability
import SmartFecTunnel.Fec.Recovery
import SmartFecTunnel.Fec.EncoderOutput
import SmartFecTunnel.Fec.Pacing
import SmartFecTunnel.Fec.PacerConformance
import SmartFecTunnel.Fec.InOrder
import SmartFecTunnel.Fec.GroupLimit
import SmartFecTunnel.Fec.CleanPath
import SmartFecTunnel.Fec.Provenance
import SmartFecTunnel.Wire.Codec
import SmartFecTunnel.Wire.RoundTrip
import SmartFecTunnel.Wire.Keyring
import SmartFecTunnel.Tunnel.Endpoint
import SmartFecTunnel.Tunnel.Session
import SmartFecTunnel.Tunnel.Server
import SmartFecTunnel.Tunnel.Takeover
import SmartFecTunnel.Tunnel.Acceptance
import SmartFecTunnel.Tunnel.AntiReplay
import SmartFecTunnel.Tunnel.History
import SmartFecTunnel.Tunnel.Directions
import SmartFecTunnel.Tunnel.Isolation
import SmartFecTunnel.Tunnel.CleanPath
import SmartFecTunnel.Auth.ReplayCache
import SmartFecTunnel.Auth.ReplayLog
import SmartFecTunnel.Auth.Envelope
import SmartFecTunnel.Auth.Acceptance
import SmartFecTunnel.Auth.Handshake
import SmartFecTunnel.Auth.Agreement
import SmartFecTunnel.Relay.Carrier
import SmartFecTunnel.Relay.Reassembly
import SmartFecTunnel.Relay.AnyInput
import SmartFecTunnel.Relay.Delivery
import SmartFecTunnel.Relay.Keyring
import SmartFecTunnel.Relay.Lane
import SmartFecTunnel.Relay.Session
import SmartFecTunnel.Relay.Direction
import SmartFecTunnel.Relay.SessionSafety
import SmartFecTunnel.Relay.Heartbeat
import SmartFecTunnel.Relay.LanedSession
import SmartFecTunnel.Relay.LanedSafety
import SmartFecTunnel.Relay.Reconnect
import SmartFecTunnel.Balance.Balancer
import SmartFecTunnel.Balance.Failover
import SmartFecTunnel.Balance.Concurrent
import SmartFecTunnel.Balance.ConcurrentSafety
import SmartFecTunnel.Balance.Undisturbed
import SmartFecTunnel.Balance.Socks
import SmartFecTunnel.Controller.Revision
import SmartFecTunnel.Controller.Platform
import SmartFecTunnel.Controller.Places
import SmartFecTunnel.Controller.RevisionInvariant
import SmartFecTunnel.Controller.ActiveRevision
import SmartFecTunnel.Controller.Rollback
import SmartFecTunnel.Controller.PointerWrite
import SmartFecTunnel.Controller.CommitSuccess
import SmartFecTunnel.Controller.PreparedRuns
import SmartFecTunnel.Controller.FailedPointer
import SmartFecTunnel.Controller.ArtifactPath
import SmartFecTunnel.Controller.Product
import SmartFecTunnel.Controller.Planner
import SmartFecTunnel.Deploy.GoogleRoute
import SmartFecTunnel.Deploy.Merge
import SmartFecTunnel.Deploy.MergeSpec
import SmartFecTunnel.Deploy.MergeLaws
import SmartFecTunnel.Deploy.Redeploy
import SmartFecTunnel.Deploy.MergeConsistency
import SmartFecTunnel.Deploy.StableRoute
import SmartFecTunnel.Deploy.Updater
import SmartFecTunnel.Deploy.UpdaterSafety

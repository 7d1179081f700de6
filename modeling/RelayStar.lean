import RelayStar.Framework.HVec
import RelayStar.Framework.Mailbox
import RelayStar.Framework.HString
import RelayStar.Framework.Wire
import RelayStar.Framework.Base128
import RelayStar.Framework.Hex
import RelayStar.Framework.Decimal
import RelayStar.Framework.Reader
import RelayStar.Framework.Machine
import RelayStar.Framework.Counter
import RelayStar.Framework.Ring
import RelayStar.Framework.Recent
import RelayStar.Framework.Parts
import RelayStar.Framework.Slots
import RelayStar.Framework.Rows
import RelayStar.Framework.Chunks
import RelayStar.Impl.Proto
import RelayStar.Impl.Port
import RelayStar.Impl.Fragment
import RelayStar.Impl.Receivers
import RelayStar.Impl.Relay
import RelayStar.Impl.Bridge
import RelayStar.Impl.Mqtt
import RelayStar.Impl.MqttPort
import RelayStar.Impl.MqttLoop
import RelayStar.Impl.Card
import RelayStar.Impl.RadioPort
import RelayStar.Impl.LoraNode
import RelayStar.Impl.MqttTask
import RelayStar.Impl.Endpoint
import RelayStar.Impl.EspNow
import RelayStar.Impl.LoraLoop
import RelayStar.Impl.Ui
import RelayStar.Impl.Terminal
import RelayStar.Spec.Reassembly
import RelayStar.Spec.Peers
import RelayStar.Spec.Mesh
import RelayStar.Spec.Mqtt
import RelayStar.Spec.Editor
import RelayStar.Proof.Proto
import RelayStar.Proof.SeenHistory
import RelayStar.Proof.Receivers
import RelayStar.Proof.Reassembler
import RelayStar.Proof.Interleaving
import RelayStar.Proof.Split
import RelayStar.Proof.Planning
import RelayStar.Proof.Plans
import RelayStar.Proof.Direct
import RelayStar.Proof.Bridge
import RelayStar.Proof.Outbound
import RelayStar.Proof.Card
import RelayStar.Proof.Traffic
import RelayStar.Proof.Capacity
import RelayStar.Proof.Provenance
import RelayStar.Proof.History
import RelayStar.Proof.SlotState
import RelayStar.Proof.Eviction
import RelayStar.Proof.Path
import RelayStar.Proof.Ingest
import RelayStar.Proof.Copies
import RelayStar.Proof.Delivery
import RelayStar.Proof.Ready
import RelayStar.Proof.Forwarding
import RelayStar.Proof.Reachable
import RelayStar.Proof.Reply
import RelayStar.Proof.Addressing
import RelayStar.Proof.Starvation
import RelayStar.Proof.Storm
import RelayStar.Proof.Echo
import RelayStar.Proof.Window
import RelayStar.Proof.Fanout
import RelayStar.Proof.Leads
import RelayStar.Proof.AtMostOnce
import RelayStar.Proof.RemainingLen
import RelayStar.Proof.Mqtt
import RelayStar.Proof.PacketStream
import RelayStar.Proof.Subscribe
import RelayStar.Proof.MqttStream
import RelayStar.Proof.Topic
import RelayStar.Proof.MqttPort
import RelayStar.Proof.MqttLoop
import RelayStar.Proof.Connect
import RelayStar.Proof.MqttTask
import RelayStar.Proof.Session
import RelayStar.Proof.Endpoint
import RelayStar.Proof.LoraNode
import RelayStar.Proof.NodeScreen
import RelayStar.Proof.Ids
import RelayStar.Proof.PingPong
import RelayStar.Proof.Uplink
import RelayStar.Proof.Lines
import RelayStar.Proof.Ui
import RelayStar.Proof.Downlink
import RelayStar.Proof.Terminal
import RelayStar.Proof.Typed
import RelayStar.Proof.EspNow
import RelayStar.Proof.LoraLoop
import RelayStar.Proof.OnAir

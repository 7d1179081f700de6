import RelayStar.Framework.HString
import RelayStar.Impl.Bridge
import RelayStar.Impl.RadioPort

/-!
# The LoRa node (firmware `lora-node-fw`, `main.rs`)

The node has one transport. It waits for a frame and for its heartbeat timer at
once (`LoraNode.turn`): what is for it is shown on the display, a `Ping` is
answered with a `Pong`, and every heartbeat is a broadcast text. The frames of
a plan are handed to the port one by one (`LoraNode.sendViaPort`); one that fails
does not keep the next one from being sent.
-/

namespace RelayStar

/-- The address of the node. -/
def NODE_ADDR : Addr := #v[0x02, 0x00, 0x00, 0x00, 0x00, 0x01]

/-- Base of the ids of the node. -/
def NODE_ID_BASE : UInt32 := 0x01000000

/-- What the display shows: two lines, and the counters. -/
structure Screen where
  line1 : String
  line2 : String
  counters : HString 32

def drawStatus (line1 line2 : String) (tx rx : UInt32) : Screen :=
  ⟨line1, line2, HString.empty.write ["TX:", toString tx.toNat, "  RX:", toString rx.toNat]⟩

/-- The state of the loop; the port of the firmware is a `SxLoraPort`. -/
structure LoraNode (P : Type) (NR NA NF : Nat) where
  port : P
  relay : Relay NR NA NF
  txCounter : UInt32
  rxCounter : UInt32
  lastRx : HString 48

namespace LoraNode

variable {P : Type} [TransportPort P] {NR NA NF : Nat}

inductive Event where
  /-- The radio has a frame. -/
  | rx (frame : List UInt8)
  | rxError
  | heartbeat

/-- Before the loop. -/
def boot (port : P) : LoraNode P NR NA NF where
  port := port
  relay := (Relay.new NODE_ADDR NODE_ID_BASE).registerPort .lora
  txCounter := 0
  rxCounter := 0
  lastRx := .empty

/-- Encode a frame and hand it to the port: whether it was transmitted. -/
def transmitPlanned (port : P) (frame : PlannedFrame) : Bool × P :=
  match frame.message.encode MAX_FRAME with
  | .error _ => (false, port)
  | .ok encoded => match TransportPort.sendFrame port frame.addr encoded with
    | (.error _, port) => (false, port)
    | (.ok (), port) => (true, port)

/-- The loop of `sendViaPort` over the frames of its plan. -/
def transmitAll : List PlannedFrame → P → Nat → Nat × P
  | [], port, sent => (sent, port)
  | frame :: frames, port, sent =>
    if frame.transport ≠ .lora then transmitAll frames port sent
    else match transmitPlanned port frame with
    | (true, port) => transmitAll frames port (sent + 1)
    | (false, port) => transmitAll frames port sent

/-- Plan a send and transmit its frames: how many were transmitted. -/
def sendViaPort (port : P) (relay : Relay NR NA NF) (kind : MsgKind) (payload : List UInt8) (dest : Destination) :
    (Except RelayError Nat × P) × Relay NR NA NF :=
  match relay.planSend kind payload dest with
  | (.error e, relay) => ((.error e, port), relay)
  | (.ok plan, relay) =>
    let (sent, port) := transmitAll plan.toList port 0
    ((.ok sent, port), relay)

/-- Answer a `Ping` with a `Pong` to its sender, or to all if it is not known. -/
def reply (n : LoraNode P NR NA NF) (sender : Addr) : LoraNode P NR NA NF :=
  match sendViaPort n.port n.relay .pong (asBytes "pong") (.unicast sender) with
  | ((.ok sent, port), relay) => { n with port, relay, txCounter := n.txCounter + UInt32.ofNat sent }
  | ((.error .unknownReceiver, port), relay) =>
    match sendViaPort port relay .pong (asBytes "pong") .broadcast with
    | ((.ok sent, port), relay) => { n with port, relay, txCounter := n.txCounter + UInt32.ofNat sent }
    | ((.error _, port), relay) => { n with port, relay }
  | ((.error _, port), relay) => { n with port, relay }

/-- A message for the node. -/
def complete (n : LoraNode P NR NA NF) (msg : Message) : Option Screen × LoraNode P NR NA NF :=
  let n := { n with rxCounter := n.rxCounter + 1 }
  let n := { n with lastRx := HString.empty.write [msg.asText.getD "<binary>"] }
  let screen := drawStatus "RX <-" n.lastRx.text n.txCounter n.rxCounter
  (some screen, if msg.kind = .ping then n.reply msg.fromAddr else n)

/-- The heartbeat timer expires. -/
def heartbeat (n : LoraNode P NR NA NF) : Option Screen × LoraNode P NR NA NF :=
  let text : HString 32 := HString.empty.write ["node hb #", toString n.txCounter.toNat]
  match sendViaPort n.port n.relay .text (asBytes text.text) .broadcast with
  | ((.error _, port), relay) => (none, { n with port, relay })
  | ((.ok sent, port), relay) =>
    let n := { n with port, relay, txCounter := n.txCounter + UInt32.ofNat sent }
    (some (drawStatus "TX ->" text.text n.txCounter n.rxCounter), n)

/-- One turn of the loop, and what is drawn. -/
def turn (n : LoraNode P NR NA NF) : Event → Option Screen × LoraNode P NR NA NF
  | .rx frame => match n.relay.ingest .lora frame with
    | (.ok (.complete msg), relay) => complete { n with relay } msg
    | (_, relay) => (none, { n with relay })
  | .rxError => (none, n)
  | .heartbeat => n.heartbeat

end LoraNode

end RelayStar

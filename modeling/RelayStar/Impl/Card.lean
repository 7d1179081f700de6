import RelayStar.Framework.Mailbox
import RelayStar.Impl.Bridge

/-!
# The tasks of the terminal (firmware `cardputer-fw`)

The loops of the transports (`lora.rs`, `espnow.rs`, `mqtt.rs`) put the frames
they receive into `INBOUND_RAW`, and wait while it is full; `bridge_loop` takes
them from there one by one, and puts what it forwards into the queues of the
transports, where their loops take it from. The user interface (`main.rs`) takes
the lines to show from `UI_IN`, and sends what is typed.

`Card.step` is what one task does before another one gets its turn: the tasks
run on one executor and none of them waits while it holds the lock of the relay.
An event that the state does not allow does nothing.
-/

namespace RelayStar

/-- This terminal's address. -/
def CARD_ADDR : Addr := #v[0x02, 0x00, 0x00, 0x00, 0x00, 0x02]

/-- Base of the ids of this terminal. -/
def CARD_ID_BASE : UInt32 := 0x02000000

/-- A received frame in `INBOUND_RAW`. -/
structure RawFrame where
  source : Transport
  bytes : HVec UInt8 MAX_FRAME
deriving DecidableEq

namespace Bridge

variable {NR NA NF : Nat}

/-- One turn of `bridge_loop`. -/
def turn (b : Bridge NR NA NF) (raw : RawFrame) : Bridge NR NA NF :=
  match b.relay.ingest raw.source raw.bytes.toList with
  | (.error _, relay) => { b with relay }
  | (.ok (.complete msg), relay) =>
    let b := { b with relay, uiIn := trySend b.uiIn (.fromMessage msg) }
    if msg.isBroadcast then b.fanoutForward msg raw.source else b
  | (.ok (.notForMe msg), relay) => fanoutForward { b with relay } msg raw.source
  | (.ok _, relay) => { b with relay }

/-- Take a frame out of the queue of a transport. -/
def dequeue (b : Bridge NR NA NF) : Transport → Option (OutFrame × Bridge NR NA NF)
  | .lora => b.loraOut.popFront.map fun x => (x.1, { b with loraOut := x.2 })
  | .mqtt => b.mqttOut.popFront.map fun x => (x.1, { b with mqttOut := x.2 })
  | .espNow => b.espnowOut.popFront.map fun x => (x.1, { b with espnowOut := x.2 })

/-- The frame of a text that was published for the mesh: a broadcast of this
terminal, if the text is not too long. -/
def uplinkFrame (b : Bridge NR NA NF) (text : String) : Option RawFrame × Bridge NR NA NF :=
  let (id, relay) := b.relay.nextId
  let b := { b with relay }
  match Message.text id .mqtt CARD_ADDR text with
  | .error _ => (none, b)
  | .ok msg => match msg.encode MAX_FRAME with
    | .error _ => (none, b)
    | .ok encoded => match (HVec.empty : HVec UInt8 MAX_FRAME).extendFromSlice encoded with
      | none => (none, b)
      | some bytes => (some ⟨.mqtt, bytes⟩, b)

end Bridge

/-- The relay with its queues, and `INBOUND_RAW` with the frames that the loops
of the transports wait with. -/
structure Card (NR NA NF : Nat) where
  bridge : Bridge NR NA NF
  inbound : Mailbox Transport RawFrame 8

namespace Card

variable {NR NA NF : Nat}

inductive Event where
  /-- The radio has a frame for the loop of LoRa. -/
  | loraRx (data : List UInt8)
  /-- The radio has a frame for the loop of ESP-NOW. -/
  | espnowRx (data : List UInt8)
  /-- The broker has a publication on the uplink topic for the loop of MQTT. -/
  | uplink (payload : List UInt8)
  /-- The frame that the loop of a transport waits with goes into `INBOUND_RAW`. -/
  | deposit (t : Transport)
  /-- A turn of `bridge_loop`. -/
  | bridge
  /-- The loop of a transport takes a frame to transmit. -/
  | transmit (t : Transport)
  /-- A text is typed and sent. -/
  | compose (text : String)
  /-- The user interface takes a line to show. -/
  | display

/-- What is seen of a step. -/
inductive Effect where
  /-- The loop of a transport has this frame for the relay. -/
  | received (raw : RawFrame)
  /-- The relay ingests this frame. -/
  | ingested (raw : RawFrame)
  /-- This frame is put into the queue of its transport. -/
  | queued (f : PlannedFrame)
  /-- This frame finds the queue of its transport full. -/
  | dropped (f : PlannedFrame)
  /-- The loop of a transport takes this frame. -/
  | taken (t : Transport) (f : OutFrame)
  | shown (line : DisplayLine)

/-- `bridge_loop` registers the transports before any task has something to send. -/
def boot : Card NR NA NF where
  bridge :=
    { relay := (((Relay.new CARD_ADDR CARD_ID_BASE).registerPort .lora).registerPort .espNow).registerPort .mqtt
      loraOut := .empty
      mqttOut := .empty
      espnowOut := .empty
      uiIn := .empty }
  inbound := .empty

/-- A frame from a radio, in the loop of its transport. -/
def receive (c : Card NR NA NF) (t : Transport) (data : List UInt8) : List Effect × Card NR NA NF :=
  if (c.inbound.waiting t).isSome then ([], c)
  else match (HVec.empty : HVec UInt8 MAX_FRAME).extendFromSlice data with
  | none => ([], c)
  | some bytes => ([.received ⟨t, bytes⟩], { c with inbound := c.inbound.offer t ⟨t, bytes⟩ })

/-- What becomes of frames that are put into the queues one by one. -/
def enqueued : List PlannedFrame → Bridge NR NA NF → List Effect
  | [], _ => []
  | f :: fs, b =>
    let full := match f.transport with
      | .lora => (b.loraOut.push (f.addr, f.message)).isNone
      | .mqtt => (b.mqttOut.push (f.addr, f.message)).isNone
      | .espNow => (b.espnowOut.push (f.addr, f.message)).isNone
    (if full then .dropped f else .queued f) :: enqueued fs (b.enqueue f)

def step (c : Card NR NA NF) : Event → List Effect × Card NR NA NF
  | .loraRx data => c.receive .lora data
  | .espnowRx data => c.receive .espNow data
  | .uplink payload =>
    if (c.inbound.waiting .mqtt).isSome then ([], c)
    else match c.bridge.uplinkFrame ((fromUtf8 payload).getD "<binary>") with
    | (none, bridge) => ([], { c with bridge })
    | (some raw, bridge) => ([.received raw], { c with bridge, inbound := c.inbound.offer .mqtt raw })
  | .deposit t => match c.inbound.deposit t with
    | none => ([], c)
    | some inbound => ([], { c with inbound })
  | .bridge => match c.inbound.take with
    | none => ([], c)
    | some (raw, inbound) =>
      (.ingested raw :: enqueued (c.bridge.relay.bridgeStep raw.source raw.bytes.toList).1.2 c.bridge,
        ⟨c.bridge.turn raw, inbound⟩)
  | .transmit t =>
    if (c.inbound.waiting t).isSome then ([], c)
    else match c.bridge.dequeue t with
    | none => ([], c)
    | some (f, bridge) => ([.taken t f], { c with bridge })
  | .compose text =>
    (enqueued (Relay.plannedFrames (c.bridge.relay.planSend .text (asBytes text) .broadcast).1) c.bridge,
      { c with bridge := c.bridge.sendLocalText text })
  | .display => match c.bridge.uiIn.popFront with
    | none => ([], c)
    | some (line, uiIn) => ([.shown line], { c with bridge := { c.bridge with uiIn } })

end Card

end RelayStar

import RelayStar.Impl.Fragment
import RelayStar.Impl.Receivers

/-!
# The relay engine (`lib.rs`)

`Relay.planSend` and `Relay.planForward` plan the frames of a message,
`Relay.send` and `Relay.forward` hand them to a port, `Relay.ingest` takes a
received frame. Every operation returns its result and the relay after it;
an id that was allocated before an error stays allocated.
-/

namespace RelayStar

/-- Where the application sends a payload. -/
inductive Destination where
  | unicast (addr : Addr)
  | broadcast
deriving DecidableEq

namespace Destination

/-- The `to` field of a message. -/
def addr : Destination → Addr
  | unicast a => a
  | broadcast => BROADCAST_ADDR

/-- The address of its frames. -/
def frameAddr : Destination → FrameAddr
  | unicast a => .unicast a
  | broadcast => .broadcast

end Destination

inductive IngestOutcome where
  | duplicate
  | buffered
  | complete (m : Message)
  | notForMe (m : Message)
  | dropped (reason : RejectReason)
deriving DecidableEq

structure PlannedFrame where
  transport : Transport
  addr : FrameAddr
  message : Message
deriving DecidableEq

/-- The key a frame is deduplicated by: its id, and the number of its slice. -/
def Message.dedupKey (m : Message) : UInt32 :=
  match m.frag with
  | some f => m.id ^^^ (f.seq.toUInt32 <<< 16)
  | none => m.id

/-- `NR` tracked peers, `NA` reassembly slots, `NF` fragments per group. -/
structure Relay (NR NA NF : Nat) where
  selfAddr : Addr
  idCtr : UInt32
  idBase : UInt32
  receivers : ReceiverTable NR
  reassembler : Reassembler NA NF
  seen : SeenCache 64
  registered : Vector Bool 3

namespace Relay

variable {NR NA NF : Nat}

def new (selfAddr : Addr) (idBase : UInt32) : Relay NR NA NF where
  selfAddr := selfAddr
  idCtr := 0
  idBase := idBase
  receivers := .new
  reassembler := .new
  seen := .new
  registered := Vector.replicate 3 false

/-- Allocate an id. -/
def nextId (r : Relay NR NA NF) : UInt32 × Relay NR NA NF :=
  (r.idBase + r.idCtr, { r with idCtr := r.idCtr + 1 })

/-! ## Ports and receivers -/

def transportIdx : Transport → Fin 3
  | .lora => 0
  | .mqtt => 1
  | .espNow => 2

def registerPort (r : Relay NR NA NF) (t : Transport) : Relay NR NA NF :=
  { r with registered := r.registered.set (transportIdx t) true }

def unregisterPort (r : Relay NR NA NF) (t : Transport) : Relay NR NA NF :=
  { r with registered := r.registered.set (transportIdx t) false }

def hasPorts (r : Relay NR NA NF) : Bool := r.registered.toList.any id

def isPortRegistered (r : Relay NR NA NF) (t : Transport) : Bool := r.registered[transportIdx t]

def addReceiver (r : Relay NR NA NF) (addr : Addr) (t : Transport) :
    Except RelayError Bool × Relay NR NA NF :=
  ((r.receivers.add addr t).1, { r with receivers := (r.receivers.add addr t).2 })

def removeReceiver (r : Relay NR NA NF) (addr : Addr) : Bool × Relay NR NA NF :=
  ((r.receivers.remove addr).1, { r with receivers := (r.receivers.remove addr).2 })

def learnReceiver (r : Relay NR NA NF) (addr : Addr) (t : Transport) : Bool × Relay NR NA NF :=
  ((r.receivers.learn addr t).1, { r with receivers := (r.receivers.learn addr t).2 })

/-- The transports to send to `dest` on, in the order of `Transport.ALL`. -/
def resolveTargets (r : Relay NR NA NF) (dest : Destination) : Except RelayError (List Transport) :=
  if !r.hasPorts then .error .noPortsRegistered
  else match dest with
  | .broadcast => .ok (Transport.ALL.filter r.isPortRegistered)
  | .unicast addr => match r.receivers.lookup addr with
    | none => .error .unknownReceiver
    | some row =>
      let out := row.transports.iter.filter r.isPortRegistered
      if out.isEmpty then .error .unknownReceiver else .ok out

/-! ## Planning -/

/-- Append the frames of one transport to a plan. -/
def pushFrames {cap : Nat} (t : Transport) (addr : FrameAddr) :
    List Message → HVec PlannedFrame cap → Except RelayError (HVec PlannedFrame cap)
  | [], out => .ok out
  | frame :: frames, out => match out.push ⟨t, addr, frame⟩ with
    | none => .error .payloadUnfragmentable
    | some out => pushFrames t addr frames out

/-- The loop of `planSend` over its targets. -/
def planTargets (id : UInt32) (kind : MsgKind) (payload : List UInt8) (dest : Destination) :
    List Transport → HVec PlannedFrame (MAX_FRAGMENTS * 3) → Relay NR NA NF →
      Except RelayError (HVec PlannedFrame (MAX_FRAGMENTS * 3)) × Relay NR NA NF
  | [], out, r => (.ok out, r)
  | t :: ts, out, r =>
    match Fragmenter.prepare id DEFAULT_TTL t r.selfAddr dest.addr kind payload with
    | .error e => (.error e, r)
    | .ok msg =>
      let (group, r) := r.nextId
      match Fragmenter.split msg t group with
      | .error e => (.error e, r)
      | .ok frames => match pushFrames t dest.frameAddr frames.toList out with
        | .error e => (.error e, r)
        | .ok out => planTargets id kind payload dest ts out r

/-- The frames that send `payload` to `dest`. -/
def planSend (r : Relay NR NA NF) (kind : MsgKind) (payload : List UInt8) (dest : Destination) :
    Except RelayError (HVec PlannedFrame (MAX_FRAGMENTS * 3)) × Relay NR NA NF :=
  match r.resolveTargets dest with
  | .error e => (.error e, r)
  | .ok targets =>
    if targets.isEmpty then (.error .noPortsRegistered, r)
    else
      let (id, r) := r.nextId
      planTargets id kind payload dest targets .empty r

/-- The frames that forward `msg` onto `target`: none when its ttl is 0. -/
def planForward (r : Relay NR NA NF) (msg : Message) (target : Transport) :
    Except RelayError (HVec PlannedFrame MAX_FRAGMENTS) × Relay NR NA NF :=
  match msg.preparedForRelay with
  | none => (.ok .empty, r)
  | some relayed =>
    let addr := if relayed.isBroadcast then FrameAddr.broadcast else .unicast relayed.toAddr
    let (group, r) := r.nextId
    match Fragmenter.split relayed target group with
    | .error e => (.error e, r)
    | .ok frames => (pushFrames target addr frames.toList .empty, r)

/-! ## Sending through a port -/

section Send

variable {P : Type} [TransportPort P]

/-- Hand frames to a port until it fails, counting those it took. -/
def emitFrames (addr : FrameAddr) : List Message → P → Nat → Except RelayError Nat × P
  | [], port, count => (.ok count, port)
  | frame :: frames, port, count => match frame.encode MAX_FRAME with
    | .error e => (.error (.protocol e), port)
    | .ok encoded => match TransportPort.sendFrame port addr encoded with
      | (.error e, port) => (.error (.port e), port)
      | (.ok (), port) => emitFrames addr frames port (count + 1)

def emit (r : Relay NR NA NF) (port : P) (msg : Message) (dest : Destination) :
    (Except RelayError Nat × P) × Relay NR NA NF :=
  let (group, r) := r.nextId
  match Fragmenter.split msg (TransportPort.transport port) group with
  | .error e => ((.error e, port), r)
  | .ok frames => (emitFrames dest.frameAddr frames.toList port 0, r)

def send (r : Relay NR NA NF) (port : P) (kind : MsgKind) (payload : List UInt8) (dest : Destination) :
    (Except RelayError Nat × P) × Relay NR NA NF :=
  match r.resolveTargets dest with
  | .error e => ((.error e, port), r)
  | .ok targets =>
    if !targets.contains (TransportPort.transport port) then ((.error .noSuchPort, port), r)
    else
      let (id, r) := r.nextId
      match Fragmenter.prepare id DEFAULT_TTL (TransportPort.transport port) r.selfAddr dest.addr kind
          payload with
      | .error e => ((.error e, port), r)
      | .ok msg => r.emit port msg dest

def forward (r : Relay NR NA NF) (port : P) (msg : Message) :
    (Except RelayError Nat × P) × Relay NR NA NF :=
  match msg.preparedForRelay with
  | none => ((.ok 0, port), r)
  | some relayed =>
    r.emit port relayed (if relayed.isBroadcast then .broadcast else .unicast relayed.toAddr)

end Send

/-! ## Receiving -/

/-- A message for this node, or one to relay. -/
def direct (r : Relay NR NA NF) (msg : Message) : IngestOutcome :=
  if msg.toAddr = r.selfAddr ∨ msg.isBroadcast then .complete msg else .notForMe msg

/-- The outcome of a frame the reassembler was given. -/
def outcome (r : Relay NR NA NF) : ReassembleOutcome → IngestOutcome
  | .passthrough m => r.direct m
  | .complete m => r.direct m
  | .buffered => .buffered
  | .dropped reason => .dropped reason

/-- Learn the sender of a frame: the table is as before if it is full. -/
def learnSender (r : Relay NR NA NF) (msg : Message) (source : Transport) : ReceiverTable NR :=
  if msg.fromAddr ≠ BROADCAST_ADDR ∧ msg.fromAddr ≠ r.selfAddr then
    (r.receivers.add msg.fromAddr source).2
  else r.receivers

/-- Handle the bytes of a frame arriving from `source`. -/
def ingest (r : Relay NR NA NF) (source : Transport) (frame : List UInt8) :
    Except RelayError IngestOutcome × Relay NR NA NF :=
  match Message.decode frame with
  | .error e => (.error (.protocol e), r)
  | .ok msg =>
    let msg := { msg with origin := source }
    let r := { r with receivers := r.learnSender msg source }
    match r.seen.checkAndInsert msg.dedupKey with
    | (false, seen) => (.ok .duplicate, { r with seen })
    | (true, seen) =>
      let (out, reassembler) := r.reassembler.ingest msg
      let r := { r with seen, reassembler }
      (.ok (r.outcome out), r)

end Relay

end RelayStar

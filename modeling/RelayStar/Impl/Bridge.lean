import RelayStar.Framework.HString
import RelayStar.Impl.Relay

/-!
# The bridge of the firmware (`cardputer-fw`, `bridge.rs`)

`Relay.bridgeStep` is one turn of `bridge_loop`: it takes one received frame,
and gives the message that is shown to the user, if there is one, and the
frames that are put into the queues of the transports. `Bridge` has these queues,
of eight frames each, and puts the frames of a message that is forwarded
(`Bridge.fanoutForward`) or sent (`Bridge.sendLocalText`) into them one by one. A
queue that is full drops its frame.
-/

namespace RelayStar.Relay

variable {NR NA NF : Nat}

/-- The frames of a plan; a failed plan is reported and has none. -/
def plannedFrames {cap : Nat} : Except RelayError (HVec PlannedFrame cap) → List PlannedFrame
  | .ok frames => frames.toList
  | .error _ => []

/-- The loop of `fanout_forward` over its targets. -/
def fanoutTargets (msg : Message) (skip : Transport) :
    List Transport → Relay NR NA NF → List PlannedFrame × Relay NR NA NF
  | [], r => ([], r)
  | target :: targets, r =>
    if target = skip then fanoutTargets msg skip targets r
    else
      let (plan, r) := r.planForward msg target
      let (frames, r) := fanoutTargets msg skip targets r
      (plannedFrames plan ++ frames, r)

/-- Forward `msg` onto every transport but `skip`. -/
def fanoutForward (r : Relay NR NA NF) (msg : Message) (skip : Transport) :
    List PlannedFrame × Relay NR NA NF := fanoutTargets msg skip Transport.ALL r

/-- One turn of the loop: what is shown, and the frames that are forwarded. -/
def bridgeStep (r : Relay NR NA NF) (source : Transport) (bytes : List UInt8) :
    (Option Message × List PlannedFrame) × Relay NR NA NF :=
  match r.ingest source bytes with
  | (.error _, r) => ((none, []), r)
  | (.ok (.complete msg), r) =>
    if msg.isBroadcast then
      let (frames, r) := r.fanoutForward msg source
      ((some msg, frames), r)
    else ((some msg, []), r)
  | (.ok (.notForMe msg), r) =>
    let (frames, r) := r.fanoutForward msg source
    ((none, frames), r)
  | (.ok _, r) => ((none, []), r)

end RelayStar.Relay

namespace RelayStar

/-- A line of the display. -/
structure DisplayLine where
  origin : Transport
  text : HString 48

def DisplayLine.fromMessage (msg : Message) : DisplayLine :=
  let body := msg.asText.getD "<binary>"
  ⟨msg.origin, HString.empty.pushAll (body.toList.take 47)⟩

/-- A frame in the queue of its transport. -/
abbrev OutFrame := FrameAddr × Message

abbrev OutChannel := HVec OutFrame 8

/-- `Channel::try_send`: a full channel is as before. -/
def trySend {α : Type} {n : Nat} (q : HVec α n) (x : α) : HVec α n := (q.push x).getD q

/-- The relay, the queues of the transports and the lines to display. -/
structure Bridge (NR NA NF : Nat) where
  relay : Relay NR NA NF
  loraOut : OutChannel
  mqttOut : OutChannel
  espnowOut : OutChannel
  uiIn : HVec DisplayLine 8

namespace Bridge

variable {NR NA NF : Nat}

def enqueue (b : Bridge NR NA NF) (plan : PlannedFrame) : Bridge NR NA NF :=
  match plan.transport with
  | .lora => { b with loraOut := trySend b.loraOut (plan.addr, plan.message) }
  | .mqtt => { b with mqttOut := trySend b.mqttOut (plan.addr, plan.message) }
  | .espNow => { b with espnowOut := trySend b.espnowOut (plan.addr, plan.message) }

/-- Broadcast a text, and show it. -/
def sendLocalText (b : Bridge NR NA NF) (text : String) : Bridge NR NA NF :=
  match b.relay.planSend .text (asBytes text) .broadcast with
  | (.error _, relay) => { b with relay }
  | (.ok plan, relay) =>
    let b := { b with relay }
    let b := match plan.toList.head? with
      | some first => { b with uiIn := trySend b.uiIn (.fromMessage first.message) }
      | none => b
    plan.toList.foldl enqueue b

/-- The loop of `fanout_forward` over its targets. -/
def fanoutTargets (msg : Message) (skip : Transport) : List Transport → Bridge NR NA NF → Bridge NR NA NF
  | [], b => b
  | target :: targets, b =>
    if target = skip then fanoutTargets msg skip targets b
    else match b.relay.planForward msg target with
    | (.ok frames, relay) => fanoutTargets msg skip targets (frames.toList.foldl enqueue { b with relay })
    | (.error _, relay) => fanoutTargets msg skip targets { b with relay }

/-- Forward `msg` onto every transport but `skip`. -/
def fanoutForward (b : Bridge NR NA NF) (msg : Message) (skip : Transport) : Bridge NR NA NF :=
  fanoutTargets msg skip Transport.ALL b

end Bridge

end RelayStar

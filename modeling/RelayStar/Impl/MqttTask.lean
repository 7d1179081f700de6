import RelayStar.Impl.MqttLoop

/-!
# The MQTT task (firmware `mqtt.rs`)

`mqtt_loop` connects to the broker, subscribes, and shuttles messages until
something fails; then it connects again, at once, or after a pause if the session
did not get as far as the event loop. Here the connection can end, and any write
can fail after some of its bytes: what was read or is pending then is gone with
the connection, and so is the message of the write. What is left in `MQTT_OUT` is
published on the next connection.
-/

namespace RelayStar

/-- Injected into the mesh from the MQTT world. -/
def TOPIC_UPLINK : String := "relaystar/uplink"

/-- MQTT client identifier of the terminal. -/
def CLIENT_ID : String := "relaystar-card"

/-- Keepalive interval sent in `CONNECT`. -/
def KEEPALIVE_SECS : UInt16 := 30

namespace MqttTask

/-- What `mqtt_loop` waits for. -/
inductive Phase where
  /-- The network and the TCP connection. -/
  | offline
  /-- The answer to the `CONNECT`. -/
  | connecting (reading : Reader Mqtt311Error Unit)
  /-- The answer to the `SUBSCRIBE`. -/
  | subscribing (reading : Reader Mqtt311Error Unit)
  /-- A packet, a message or a tick; `reading` is the `read_publish` under way. -/
  | running (reading : Reader Mqtt311Error (Option IncomingPublish))
  /-- The pause before the next connection. -/
  | backoff

inductive Event where
  /-- The TCP connection is made, or fails; a write can be cut. -/
  | tcp (up : Bool) (cut : Option Nat)
  /-- Bytes arrive from the broker. -/
  | arrive (bytes : List UInt8)
  /-- The connection ends: nothing more arrives on it. -/
  | close
  /-- The bridge queues a message in `MQTT_OUT`. -/
  | outbound (addr : FrameAddr) (m : Message)
  /-- The keepalive timer expires. -/
  | tick
  /-- The pause is over. -/
  | resume
  /-- The task is polled; with `cut`, a write fails when the socket has taken so
  many bytes. -/
  | poll (cut : Option Nat)

end MqttTask

/-- `rx` has arrived and is not read, `tx` was written on this connection. -/
structure MqttTask where
  phase : MqttTask.Phase
  rx : List UInt8
  closed : Bool
  tx : List UInt8
  mqttOut : List (FrameAddr × Message)
  ticks : Nat

namespace MqttTask

def boot : MqttTask := ⟨.offline, [], false, [], [], 0⟩

/-- `write_all`, and what the task waits for then; if it fails, it goes to `failed`. -/
def write (t : MqttTask) (bytes : List UInt8) (cut : Option Nat) (next failed : Phase) : MqttTask :=
  match cut with
  | none => { t with tx := t.tx ++ bytes, phase := next }
  | some k =>
    if k < bytes.length then { t with tx := t.tx ++ bytes.take k, phase := failed }
    else { t with tx := t.tx ++ bytes, phase := next }

/-- A poll in the event loop: a failure leads to a new connection at once. -/
def pollRunning (t : MqttTask) (cut : Option Nat) (reading : Reader Mqtt311Error (Option IncomingPublish)) :
    Option IncomingPublish × MqttTask :=
  match reading.feed t.rx with
  | (.done p, rx) => (p, { t with rx, phase := .running (Mqtt.readPublish PKT_BUF) })
  | (.error _, rx) => (none, { t with rx, phase := .offline })
  | (.wait k, rx) =>
    if t.closed then (none, { t with rx, phase := .offline })
    else match t.mqttOut with
    | (_, m) :: mqttOut => match Mqtt.publish TOPIC_DOWNLINK (asBytes (m.asText.getD "<binary>")) with
      | .error _ => (none, { t with rx, mqttOut, phase := .offline })
      | .ok bytes => (none, write { t with rx, mqttOut } bytes cut (.running (Mqtt.readPublish PKT_BUF)) .offline)
    | [] =>
      if t.ticks = 0 then (none, { t with rx, phase := .running (.wait k) })
      else (none, write { t with rx, ticks := t.ticks - 1 } Mqtt.ping cut (.running (Mqtt.readPublish PKT_BUF)) .offline)

/-- A poll: returned is the packet that `read_publish` returns, if it does. -/
def poll (t : MqttTask) (cut : Option Nat) : Option IncomingPublish × MqttTask :=
  match t.phase with
  | .offline => (none, t)
  | .backoff => (none, t)
  | .connecting reading => match reading.feed t.rx with
    | (.wait k, rx) => (none, { t with rx, phase := if t.closed then .backoff else .connecting (.wait k) })
    | (.error _, rx) => (none, { t with rx, phase := .backoff })
    | (.done (), rx) => match Mqtt.subscribe TOPIC_UPLINK 1 with
      | .error _ => (none, { t with rx, phase := .backoff })
      | .ok (frame, reading) => (none, write { t with rx } frame cut (.subscribing reading) .backoff)
  | .subscribing reading => match reading.feed t.rx with
    | (.wait k, rx) => (none, { t with rx, phase := if t.closed then .backoff else .subscribing (.wait k) })
    | (.error _, rx) => (none, { t with rx, phase := .backoff })
    | (.done (), rx) => (none, { t with rx, ticks := 0, phase := .running (Mqtt.readPublish PKT_BUF) })
  | .running reading => t.pollRunning cut reading

/-- There is a connection. -/
def connected (t : MqttTask) : Bool :=
  match t.phase with
  | .offline => false
  | .backoff => false
  | _ => true

/-- What is published on the uplink topic goes to the mesh. -/
def uplink (p : IncomingPublish) : Option (List UInt8) :=
  if p.topic = TOPIC_UPLINK then some p.payload else none

/-- One step: returned is what goes to the mesh. An event that the state does not
allow does nothing. -/
def step (t : MqttTask) : Event → Option (List UInt8) × MqttTask
  | .tcp up cut => match t.phase with
    | .offline =>
      if up then
        match Mqtt.connect CLIENT_ID KEEPALIVE_SECS with
        | .error _ => (none, { t with rx := [], closed := false, tx := [], phase := .backoff })
        | .ok (frame, reading) =>
          (none, write { t with rx := [], closed := false, tx := [] } frame cut (.connecting reading) .backoff)
      else (none, { t with phase := .backoff })
    | _ => (none, t)
  | .arrive bytes => (none, if t.connected && !t.closed then { t with rx := t.rx ++ bytes } else t)
  | .close => (none, { t with closed := true })
  | .outbound addr m => (none, { t with mqttOut := t.mqttOut ++ [(addr, m)] })
  | .tick => (none, { t with ticks := t.ticks + 1 })
  | .resume => match t.phase with
    | .backoff => (none, { t with phase := .offline })
    | _ => (none, t)
  | .poll cut => ((t.poll cut).1.bind uplink, (t.poll cut).2)

end MqttTask

end RelayStar

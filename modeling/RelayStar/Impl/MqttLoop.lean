import RelayStar.Impl.Mqtt
import RelayStar.Impl.Port

/-!
# The MQTT event loop (firmware `mqtt.rs`)

The steady-state loop waits for three things at once: a packet from the broker,
a message in `MQTT_OUT` and a tick of the keepalive timer. `MqttLoop.poll` polls
the three futures in this order. The first that is ready is handled, the others
are dropped, and the loop makes new ones; the next message and the next tick
are still there then, but not what a dropped `read_publish` had read.
-/

namespace RelayStar

/-- Emitted from the mesh out to the MQTT world. -/
def TOPIC_DOWNLINK : String := "relaystar/downlink"

/-- Size of the buffer packets are read into. -/
def PKT_BUF : Nat := 512

/-- `rx` has arrived and is not read, `reading` is the `read_publish` under way,
`tx` was written; after an error the loop is left (`failed`). -/
structure MqttLoop where
  rx : List UInt8
  reading : Reader Mqtt311Error (Option IncomingPublish)
  mqttOut : List (FrameAddr × Message)
  ticks : Nat
  tx : List UInt8
  failed : Bool

inductive MqttEvent where
  /-- Bytes arrive from the broker. -/
  | arrive (bytes : List UInt8)
  /-- The bridge queues a message in `MQTT_OUT`. -/
  | outbound (addr : FrameAddr) (m : Message)
  /-- The keepalive timer expires. -/
  | tick
  | poll
deriving DecidableEq

namespace MqttLoop

/-- After the handshake. -/
def start : MqttLoop where
  rx := []
  reading := Mqtt.readPublish PKT_BUF
  mqttOut := []
  ticks := 0
  tx := []
  failed := false

/-- Poll the three futures; returned is what `read_publish` returns, if it does. -/
def poll (l : MqttLoop) : Option (Except Mqtt311Error (Option IncomingPublish)) × MqttLoop :=
  if l.failed then (none, l)
  else match l.reading.feed l.rx with
  | (.done p, rx) => (some (.ok p), { l with rx, reading := Mqtt.readPublish PKT_BUF })
  | (.error e, rx) => (some (.error e), { l with rx, failed := true })
  | (.wait k, rx) => match l.mqttOut with
    | (_, m) :: mqttOut => match Mqtt.publish TOPIC_DOWNLINK (asBytes (m.asText.getD "<binary>")) with
      | .ok bytes =>
        (none, { l with rx, mqttOut, tx := l.tx ++ bytes, reading := Mqtt.readPublish PKT_BUF })
      | .error _ => (none, { l with rx, mqttOut, failed := true })
    | [] =>
      if l.ticks = 0 then (none, { l with rx, reading := .wait k })
      else (none, { l with
        rx, ticks := l.ticks - 1, tx := l.tx ++ Mqtt.ping, reading := Mqtt.readPublish PKT_BUF })

def step (l : MqttLoop) : MqttEvent → Option (Except Mqtt311Error (Option IncomingPublish)) × MqttLoop
  | .arrive bytes => (none, { l with rx := l.rx ++ bytes })
  | .outbound addr m => (none, { l with mqttOut := l.mqttOut ++ [(addr, m)] })
  | .tick => (none, { l with ticks := l.ticks + 1 })
  | .poll => l.poll

end MqttLoop

end RelayStar

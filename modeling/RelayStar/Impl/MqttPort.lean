import RelayStar.Impl.Mqtt
import RelayStar.Impl.Port

/-!
# The MQTT transport (`ports/mqtt.rs`)

The topic that a frame is published on is its address (`Topic.BROADCAST`,
`Topic.unicastFor`). `MqttPort` sends frames through any client that publishes,
and `Mqtt311Client` is one, over a socket that takes every write.
-/

namespace RelayStar

/-- `hex_nibble`. -/
def hexNibble (n : UInt8) : UInt8 := if n ≤ 9 then 0x30 + n else 0x61 + (n - 10)

/-- `core::str::from_utf8_unchecked`, which is undefined on other bytes. -/
def fromUtf8Unchecked (bytes : List UInt8) : String := (fromUtf8 bytes).getD ""

namespace Topic

def BROADCAST : String := "relaystar/b"

def UNICAST_PREFIX : String := "relaystar/u/"

/-- Length of a unicast topic. -/
def UNICAST_TOPIC_LEN : Nat := 12 + 12

theorem length_unicastPrefix : (asBytes UNICAST_PREFIX).length = 12 := by decide +kernel

/-- Copy a slice over the beginning of a buffer. -/
def copyFromSlice {n : Nat} (buf : Vector UInt8 n) (s : List UInt8) (h : s.length ≤ n) : Vector UInt8 n :=
  ⟨(s ++ buf.toList.drop s.length).toArray, by
    rw [List.size_toArray, List.length_append, List.length_drop, Vector.length_toList]
    omega⟩

/-- The loop over the bytes of an address, two cells of the buffer a byte from `i`
on. -/
def writeHex {n : Nat} : (bytes : List UInt8) → (i : Nat) → (h : i + 2 * bytes.length ≤ n) → Vector UInt8 n →
    Nat × Vector UInt8 n
  | [], i, _, buf => (i, buf)
  | byte :: bytes, i, h, buf =>
    have h : i + 2 + 2 * bytes.length ≤ n := by rw [List.length_cons] at h; omega
    let buf := buf.set i (hexNibble (byte >>> 4)) (by omega)
    let buf := buf.set (i + 1) (hexNibble (byte &&& 0x0F)) (by omega)
    writeHex bytes (i + 2) h buf

/-- The topic of a node, and the buffer it is built in. -/
def unicastFor {n : Nat} (addr : Addr) (buf : Vector UInt8 n) : Except PortError String × Vector UInt8 n :=
  if h : n < UNICAST_TOPIC_LEN then (.error .frameTooLarge, buf)
  else
    have h : 12 + 2 * 6 ≤ n := Nat.not_lt.mp h
    let topicPrefix := asBytes UNICAST_PREFIX
    let buf := copyFromSlice buf topicPrefix (by rw [length_unicastPrefix]; omega)
    let (i, buf) := writeHex addr.toList topicPrefix.length
      (by rw [length_unicastPrefix, Vector.length_toList]; exact h) buf
    (.ok (fromUtf8Unchecked (buf.toList.take i)), buf)

end Topic

/-- A client that publishes; its error is its own. -/
class MqttClient (C : Type) where
  Error : Type
  publish : C → String → List UInt8 → Except Error Unit × C

structure MqttPort (C : Type) where
  client : C

namespace MqttPort

variable {C : Type} [MqttClient C]

/-- Publish; every error of the client is an `Io` error of the port. -/
def publish (p : MqttPort C) (topic : String) (frame : List UInt8) : Except PortError Unit × MqttPort C :=
  match MqttClient.publish p.client topic frame with
  | (.error _, client) => (.error .io, ⟨client⟩)
  | (.ok (), client) => (.ok (), ⟨client⟩)

instance : TransportPort (MqttPort C) where
  transport _ := .mqtt
  sendFrame p addr frame := match addr with
    | .broadcast => p.publish Topic.BROADCAST frame
    | .unicast a => match (Topic.unicastFor a (Vector.replicate Topic.UNICAST_TOPIC_LEN 0)).1 with
      | .error e => (.error e, p)
      | .ok topic => p.publish topic frame

end MqttPort

/-- The bundled client: the bytes that its socket has taken. -/
structure Mqtt311Client where
  tx : List UInt8

instance : MqttClient Mqtt311Client where
  Error := Mqtt311Error
  publish c topic payload := match Mqtt.publish topic payload with
    | .error e => (.error e, c)
    | .ok packet => (.ok (), ⟨c.tx ++ packet⟩)

end RelayStar

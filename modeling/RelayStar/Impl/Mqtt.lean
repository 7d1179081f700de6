import RelayStar.Framework.Reader
import RelayStar.Impl.Proto

/-!
# The MQTT client (`ports/mqtt.rs`)

What the QoS 0 client writes (`Mqtt.publish`, `Mqtt.ping`) and what it reads
(`Mqtt.readPublish`), or both in turn (`Mqtt.connect`, `Mqtt.subscribe`). The socket
takes every write, so a function that writes returns the bytes it writes, or an error
and nothing is written; one that reads is a `Reader` of the bytes from the broker.
-/

namespace RelayStar

inductive Mqtt311Error where
  | io
  | protocol
  | rejected
  | tooLarge
deriving DecidableEq

/-- A decoded `PUBLISH` packet. -/
structure IncomingPublish where
  topic : String
  payload : List UInt8
deriving DecidableEq

namespace Mqtt

/-- Maximum size of a packet that is written. -/
def OUT_BUF : Nat := 320

/-- `u16::to_be_bytes` of a length, cut to 16 bits. -/
def beBytes (n : Nat) : List UInt8 := [UInt8.ofNat (n / 256), UInt8.ofNat n]

/-- What does not fit its buffer is too large. -/
def fits {α : Type} : Option α → Except Mqtt311Error α
  | none => .error .tooLarge
  | some a => .ok a

/-! ## Writing -/

/-- Append the remaining length of a packet, seven bits a byte. -/
def writeRemainingLen {N : Nat} (v : HVec UInt8 N) (len : Nat) : Except Mqtt311Error (HVec UInt8 N) :=
  let byte := UInt8.ofNat (len % 128)
  let byte := if 0 < len / 128 then byte ||| 0x80 else byte
  match v.push byte with
  | none => .error .tooLarge
  | some v => if len / 128 = 0 then .ok v else writeRemainingLen v (len / 128)
termination_by len

/-- The bytes of the packet with this first byte and these after its length. -/
def sendFrame (first : UInt8) (content : List UInt8) : Except Mqtt311Error (List UInt8) := do
  let frame ← fits ((HVec.empty : HVec UInt8 OUT_BUF).push first)
  let frame ← writeRemainingLen frame content.length
  let frame ← fits (frame.extendFromSlice content)
  return frame.toList

/-- Publish at QoS 0. -/
def publish (topic : String) (payload : List UInt8) : Except Mqtt311Error (List UInt8) := do
  let vh ← fits ((HVec.empty : HVec UInt8 OUT_BUF).extendFromSlice (beBytes (asBytes topic).length))
  let vh ← fits (vh.extendFromSlice (asBytes topic))
  let vh ← fits (vh.extendFromSlice payload)
  sendFrame 0x30 vh.toList

def ping : List UInt8 := [0xC0, 0x00]

/-! ## Reading -/

/-- The loop over the bytes of the remaining length; it goes round at most four
times (`readRemainingLen_fuel`). -/
def readRemainingLen : Nat → Nat → Nat → Reader Mqtt311Error Nat
  | 0, _, _ => .error .protocol
  | fuel + 1, multiplier, value => do
    let b ← Reader.byte
    let value := value + (b &&& 0x7f).toNat * multiplier
    if b &&& 0x80 = 0 then return value
    else if 128 * 128 * 128 < multiplier * 128 then .error .protocol
    else readRemainingLen fuel (multiplier * 128) value

/-- A number, if it is one of a `usize` of 32 bits. -/
def checkedUsize (n : Nat) : Option Nat := if n < 2 ^ 32 then some n else none

/-- The same loop on a `usize` of 32 bits: it stops with `none` at the first
product or sum that overflows. -/
def readRemainingLenChecked : Nat → Nat → Nat → Reader Mqtt311Error (Option Nat)
  | 0, _, _ => .error .protocol
  | fuel + 1, multiplier, value => do
    let b ← Reader.byte
    match checkedUsize ((b &&& 0x7f).toNat * multiplier) with
    | none => return none
    | some digit => match checkedUsize (value + digit) with
      | none => return none
      | some value =>
        if b &&& 0x80 = 0 then return some value
        else match checkedUsize (multiplier * 128) with
        | none => return none
        | some multiplier =>
          if 128 * 128 * 128 < multiplier then .error .protocol
          else readRemainingLenChecked fuel multiplier value

/-- Read a packet into a buffer of `n` bytes: its first byte, and the bytes after
its length. -/
def readPacket (n : Nat) : Reader Mqtt311Error (UInt8 × List UInt8) := do
  let header ← Reader.byte
  let value ← readRemainingLen 4 1 0
  if n < value then .error .tooLarge
  else
    let body ← Reader.take value
    return (header, body)

/-- Read a packet; one that is no `PUBLISH` is skipped. -/
def readPublish (n : Nat) : Reader Mqtt311Error (Option IncomingPublish) := do
  let (first, body) ← readPacket n
  if first >>> 4 ≠ 0x03 then return none
  else match body with
  | hi :: lo :: rest =>
    let topicLen := hi.toNat * 256 + lo.toNat
    if rest.length < topicLen then .error .protocol
    else match fromUtf8 (rest.take topicLen) with
    | none => .error .protocol
    | some topic => return some ⟨topic, rest.drop topicLen⟩
  | _ => .error .protocol

/-! ## Connecting -/

/-- Wait for the answer to a `CONNECT`. -/
def readConnack : Reader Mqtt311Error Unit := do
  let (first, body) ← readPacket 8
  if first >>> 4 ≠ 0x02 ∨ body.length < 2 then .error .protocol
  else if body[1]? ≠ some 0x00 then .error .rejected
  else return ()

/-- Send a `CONNECT` and wait for the `CONNACK`: the bytes that are written, and
what is read then. -/
def connect (clientId : String) (keepaliveSecs : UInt16) :
    Except Mqtt311Error (List UInt8 × Reader Mqtt311Error Unit) := do
  let vh ← fits ((HVec.empty : HVec UInt8 64).extendFromSlice [0, 4, 0x4D, 0x51, 0x54, 0x54, 0x04, 0x02])
  let vh ← fits (vh.extendFromSlice (beBytes keepaliveSecs.toNat))
  let vh ← fits (vh.extendFromSlice (beBytes (asBytes clientId).length))
  let vh ← fits (vh.extendFromSlice (asBytes clientId))
  let frame ← sendFrame 0x10 vh.toList
  return (frame, readConnack)

/-! ## Subscribing -/

/-- Wait for the answer to a `SUBSCRIBE`; the bytes after its length are not
looked at. -/
def readSuback : Reader Mqtt311Error Unit := do
  let (first, _) ← readPacket 16
  if first >>> 4 ≠ 0x09 then .error .protocol
  else return ()

/-- Send a `SUBSCRIBE` (QoS 0) and wait for the `SUBACK`: the bytes that are
written, and what is read then. -/
def subscribe (topic : String) (packetId : UInt16) :
    Except Mqtt311Error (List UInt8 × Reader Mqtt311Error Unit) := do
  let vh ← fits ((HVec.empty : HVec UInt8 128).extendFromSlice (beBytes packetId.toNat))
  let vh ← fits (vh.extendFromSlice (beBytes (asBytes topic).length))
  let vh ← fits (vh.extendFromSlice (asBytes topic))
  let vh ← fits (vh.push 0x00)
  let frame ← sendFrame 0x82 vh.toList
  return (frame, readSuback)

/-- How a call of `subscribe` returns on this stream from the broker, if it does. -/
def subscribeOn (topic : String) (packetId : UInt16) (stream : List UInt8) : Option (Except Mqtt311Error Unit) :=
  match subscribe topic packetId with
  | .error e => some (.error e)
  | .ok (_, reader) => (reader.feed stream).1.result

end Mqtt

end RelayStar

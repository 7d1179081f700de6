import RelayStar.Framework.Base128
import RelayStar.Impl.Mqtt

/-!
# Packets of the broker

A packet of any type (`Spec.Packet`): its first byte has the type in the upper
half, then come the length of the rest as a base-128 integer, padded or not, and
as many bytes. A `PUBLISH` packet (`Spec.Publish`) has the topic in them, after
its own length, and what the packet carries. What comes from the broker are packets
of which those that publish are of this form (`Spec.Incoming`). The packets of the
client itself are written in one way (`Spec.packet`).
-/

namespace RelayStar.Spec

structure Packet where
  first : UInt8
  len : List UInt8
  body : List UInt8
  ends : Base128.Ends len
  length_len : len.length ≤ 4
  value_len : Base128.value len = body.length

namespace Packet

def wire (p : Packet) : List UInt8 := p.first :: (p.len ++ p.body)

/-- The packet with the shortest form of its length. -/
def written (first : UInt8) (body : List UInt8) (h : body.length < 128 ^ 4) : Packet where
  first := first
  len := Wire.putVarint 4 body.length
  body := body
  ends := (Base128.putVarint_spec (by decide) h).1
  length_len := Wire.length_putVarint_le 4 _
  value_len := (Base128.putVarint_spec (by decide) h).2.1

/-- A `PUBLISH` packet with this publication: the topic, after its length, and the
payload. -/
def Carries (p : Packet) (c : IncomingPublish) : Prop :=
  p.first >>> 4 = 3 ∧ p.body = Mqtt.beBytes (asBytes c.topic).length ++ (asBytes c.topic ++ c.payload)

/-- A `SUBACK` packet for this packet id whose return code grants what was asked
for. -/
def Grants (p : Packet) (packetId : UInt16) : Prop :=
  p.first >>> 4 = 9 ∧ ∃ code more, p.body = Mqtt.beBytes packetId.toNat ++ code :: more ∧ code ≠ 0x80

/-- A `CONNACK` packet that accepts the connection. -/
def Accepts (p : Packet) : Prop := p.first >>> 4 = 2 ∧ ∃ flags more, p.body = flags :: 0 :: more

/-- A `CONNACK` packet that refuses the connection. -/
def Rejects (p : Packet) : Prop := p.first >>> 4 = 2 ∧ ∃ flags code more, p.body = flags :: code :: more ∧ code ≠ 0

end Packet

/-- A packet of the broker, with the publication that it carries if it is a `PUBLISH`
packet. -/
structure Incoming where
  packet : Packet
  content : Option IncomingPublish
  carries : ∀ c ∈ content, packet.Carries c ∧ (asBytes c.topic).length < 65536
  other : content = none → packet.first >>> 4 ≠ 3

/-- The bytes of packets one after the other. -/
def wires (packets : List Packet) : List UInt8 := packets.flatMap Packet.wire

structure Publish where
  first : UInt8
  topic : String
  payload : List UInt8
  type_eq : first >>> 4 = 3
  /-- The topic has a length of 16 bits. -/
  topic_lt : (asBytes topic).length < 65536

namespace Publish

/-- The bytes after the length. -/
def body (p : Publish) : List UInt8 :=
  Mqtt.beBytes (asBytes p.topic).length ++ (asBytes p.topic ++ p.payload)

def wire (p : Publish) : List UInt8 := p.first :: (Wire.putVarint 4 p.body.length ++ p.body)

/-- What is published. -/
def content (p : Publish) : IncomingPublish := ⟨p.topic, p.payload⟩

end Publish

namespace Incoming

def ofPublish (p : Publish) (h : p.body.length < 128 ^ 4) : Incoming where
  packet := .written p.first p.body h
  content := some p.content
  carries c hc := Option.some.inj hc ▸ ⟨⟨p.type_eq, rfl⟩, p.topic_lt⟩
  other h := by cases h

/-- The answer to a ping. -/
def pingresp : Incoming where
  packet := .written 0xD0 [] (by decide)
  content := none
  carries c hc := by cases hc
  other _ := by decide

end Incoming

/-! ## What the client sends -/

/-- A packet, with the shortest form of its length. -/
def packet (first : UInt8) (body : List UInt8) : List UInt8 := first :: (Wire.putVarint 4 body.length ++ body)

/-- Protocol level 4, a clean session, and no will or user. -/
def connect (clientId : String) (keepaliveSecs : UInt16) : List UInt8 :=
  packet 0x10 ([0, 4, 0x4D, 0x51, 0x54, 0x54, 0x04, 0x02] ++
    (Mqtt.beBytes keepaliveSecs.toNat ++ (Mqtt.beBytes (asBytes clientId).length ++ asBytes clientId)))

/-- One topic, at QoS 0. -/
def subscribe (topic : String) (packetId : UInt16) : List UInt8 :=
  packet 0x82 (Mqtt.beBytes packetId.toNat ++ (Mqtt.beBytes (asBytes topic).length ++ (asBytes topic ++ [0x00])))

/-- A publication at QoS 0. -/
def publish (topic : String) (payload : List UInt8) : List UInt8 :=
  packet 0x30 (Mqtt.beBytes (asBytes topic).length ++ (asBytes topic ++ payload))

def pingreq : List UInt8 := packet 0xC0 []

end RelayStar.Spec

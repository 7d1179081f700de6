import RelayStar.Impl.Relay
import RelayStar.Proof.Proto
import RelayStar.Proof.Topic

/-!
# Publishing frames

The client publishes what fits a packet of 320 bytes, all of it or nothing
(`publish_fits`, `publish_tooLarge`). The frames of the relay have at most 234
bytes and the topics 24, so the port sends every one of them (`sendFrame_ok`).
-/

namespace RelayStar

/-- The number of bytes of a `PUBLISH` packet after its length. -/
def Mqtt.publishLen (topic : String) (payload : List UInt8) : Nat :=
  2 + (asBytes topic).length + payload.length

namespace Mqtt311Client

open Mqtt (publishLen)
open Wire (putVarint)

variable (c : Mqtt311Client) {topic : String} {payload : List UInt8}

theorem publish_of_ok {packet : List UInt8} (h : Mqtt.publish topic payload = .ok packet) :
    MqttClient.publish c topic payload = (.ok (), ⟨c.tx ++ packet⟩) := by
  simp only [MqttClient.publish, h]

theorem publish_of_error {e : Mqtt311Error} (h : Mqtt.publish topic payload = .error e) :
    MqttClient.publish c topic payload = (.error e, c) := by
  simp only [MqttClient.publish, h]

theorem length_content (topic : String) (payload : List UInt8) :
    (Mqtt.beBytes (asBytes topic).length ++ (asBytes topic ++ payload)).length = publishLen topic payload := by
  rw [List.length_append, List.length_append, publishLen, ← Nat.add_assoc]
  rfl

/-- The packet fits the buffer if it does with its length as short as can be. -/
theorem packet_fits (topic : String) (payload : List UInt8) :
    let content := Mqtt.beBytes (asBytes topic).length ++ (asBytes topic ++ payload)
    ((0x30 : UInt8) :: (putVarint 4 content.length ++ content)).length ≤ Mqtt.OUT_BUF ↔
      1 + Base128.size (publishLen topic payload) + publishLen topic payload ≤ Mqtt.OUT_BUF := by
  intro content
  have hcontent : content.length = publishLen topic payload := length_content topic payload
  rw [List.length_cons, List.length_append, hcontent, show Mqtt.OUT_BUF = 320 from rfl]
  by_cases hn : publishLen topic payload < 128 ^ 4
  · obtain ⟨-, -, hl⟩ := Base128.putVarint_spec (k := 4) (by decide) hn
    rw [hl]
    omega
  · omega

/-- A packet that fits is written. -/
theorem publish_fits (h : 1 + Base128.size (publishLen topic payload) + publishLen topic payload ≤ Mqtt.OUT_BUF) :
    ∃ len hi lo, (Base128.Ends len ∧ Base128.value len = publishLen topic payload) ∧
      len.length = Base128.size (publishLen topic payload) ∧ hi.toNat * 256 + lo.toNat = (asBytes topic).length ∧
      MqttClient.publish c topic payload =
        (.ok (), ⟨c.tx ++ 0x30 :: (len ++ hi :: lo :: (asBytes topic ++ payload))⟩) := by
  have hn : publishLen topic payload ≤ 320 := Nat.le_trans (Nat.le_add_left ..) h
  obtain ⟨he, hv, hl⟩ := Base128.putVarint_spec (k := 4) (n := publishLen topic payload) (by decide) (by omega)
  have htopic : (asBytes topic).length < 65536 := by
    rw [publishLen] at hn
    omega
  obtain ⟨hi, lo, hbe, hlen⟩ := Mqtt.beBytes_eq htopic
  refine ⟨putVarint 4 (publishLen topic payload), hi, lo, ⟨he, hv⟩, hl, hlen, ?_⟩
  have hok := Mqtt.publish_eq topic payload
  dsimp only at hok
  rw [if_pos ((packet_fits topic payload).mpr h), length_content, hbe] at hok
  exact c.publish_of_ok hok

/-- Of one that does not, no byte is. -/
theorem publish_tooLarge
    (h : ¬ 1 + Base128.size (publishLen topic payload) + publishLen topic payload ≤ Mqtt.OUT_BUF) :
    MqttClient.publish c topic payload = (.error Mqtt311Error.tooLarge, c) := by
  have herr := Mqtt.publish_eq topic payload
  dsimp only at herr
  rw [if_neg (mt (packet_fits topic payload).mp h)] at herr
  exact c.publish_of_error herr

end Mqtt311Client

namespace MqttPort

/-- A topic of at most 24 bytes leaves room for every frame. -/
theorem publish_frame (c : Mqtt311Client) {topic : String} (ht : (asBytes topic).length ≤ 24) (m : Message) :
    (publish ⟨c⟩ topic m.wire).1 = .ok () := by
  have hm := m.length_wire
  have hsize : Base128.size (Mqtt.publishLen topic m.wire) ≤ 2 := Base128.size_le (by decide) (by
    rw [Mqtt.publishLen]
    omega)
  have hfits : 1 + Base128.size (Mqtt.publishLen topic m.wire) + Mqtt.publishLen topic m.wire ≤ Mqtt.OUT_BUF := by
    have hlen : Mqtt.publishLen topic m.wire ≤ 260 := by
      rw [Mqtt.publishLen]
      omega
    rw [show Mqtt.OUT_BUF = 320 from rfl]
    omega
  obtain ⟨len, hi, lo, -, -, -, hok⟩ := c.publish_fits hfits
  rw [publish, hok]

/-- The port sends every frame, to a node or to all. -/
theorem sendFrame_ok (c : Mqtt311Client) (addr : FrameAddr) (m : Message) :
    (TransportPort.sendFrame (MqttPort.mk c) addr m.wire).1 = .ok () := by
  cases addr with
  | broadcast => exact publish_frame c (by decide +kernel) m
  | unicast a =>
    obtain ⟨topic, htopic, hok, -⟩ := Topic.unicastFor_eq a (Vector.replicate Topic.UNICAST_TOPIC_LEN 0) (Nat.le_refl _)
    have hlen : (asBytes topic).length ≤ 24 := by
      rw [asBytes_of_fromUtf8 htopic, Topic.length_unicastBytes]
      exact Nat.le_refl 24
    simp only [TransportPort.sendFrame, hok]
    exact publish_frame c hlen m

end MqttPort

/-- A call of `publish` writes its packet, with the length of the topic in full,
exactly when all of it fits, and writes nothing when it does not. What the relay
plans always fits. -/
theorem publish_limit (c : Mqtt311Client) {NR NA NF : Nat} (r : Relay NR NA NF) :
    (∀ (topic : String) (payload : List UInt8) (n : Nat), n = 2 + (asBytes topic).length + payload.length →
      (1 + Base128.size n + n ≤ Mqtt.OUT_BUF →
        ∃ len hi lo, (Base128.Ends len ∧ Base128.value len = n) ∧ len.length = Base128.size n ∧
          hi.toNat * 256 + lo.toNat = (asBytes topic).length ∧
          MqttClient.publish c topic payload =
            (.ok (), ⟨c.tx ++ 0x30 :: (len ++ hi :: lo :: (asBytes topic ++ payload))⟩)) ∧
      (¬ 1 + Base128.size n + n ≤ Mqtt.OUT_BUF →
        MqttClient.publish c topic payload = (.error Mqtt311Error.tooLarge, c))) ∧
    (∀ kind payload dest out, (r.planSend kind payload dest).1 = .ok out → ∀ f ∈ out.toList, f.transport = .mqtt →
      ∃ bytes, f.message.encode MAX_FRAME = .ok bytes ∧
        (TransportPort.sendFrame (MqttPort.mk c) f.addr bytes).1 = .ok ()) ∧
    ∀ msg out, (r.planForward msg .mqtt).1 = .ok out → ∀ f ∈ out.toList,
      ∃ bytes, f.message.encode MAX_FRAME = .ok bytes ∧
        (TransportPort.sendFrame (MqttPort.mk c) f.addr bytes).1 = .ok () := by
  have hframe (f : PlannedFrame) : ∃ bytes, f.message.encode MAX_FRAME = .ok bytes ∧
      (TransportPort.sendFrame (MqttPort.mk c) f.addr bytes).1 = .ok () :=
    ⟨f.message.wire, f.message.encode_max_frame, MqttPort.sendFrame_ok c f.addr f.message⟩
  refine ⟨fun topic payload n hn => ?_, fun _ _ _ _ _ f _ _ => hframe f, fun _ _ _ f _ => hframe f⟩
  subst hn
  exact ⟨c.publish_fits, c.publish_tooLarge⟩

/-- A packet of eight bytes fits. -/
theorem publish_limit_short : ∃ packet : List UInt8,
    MqttClient.publish (⟨[]⟩ : Mqtt311Client) "t" [1, 2, 3] = (.ok (), ⟨packet⟩) := by
  obtain ⟨len, hi, lo, -, -, -, hok⟩ :=
    ((publish_limit ⟨[]⟩ (Relay.new BROADCAST_ADDR 0 : Relay 1 1 2)).1 "t" [1, 2, 3] 6 (by decide +kernel)).1
      (by decide +kernel)
  exact ⟨_, hok⟩

end RelayStar

import Mathlib.Data.List.Forall2
import RelayStar.Proof.Mqtt

/-!
# A stream of packets

What the client publishes is what it reads, packet by packet: on the packets of
any calls of `Mqtt.publish` that succeed, with any number of `PINGRESP` packets
between them, as many calls of `Mqtt.readPublish` give the topics and payloads
back in order (`read_published`).
-/

namespace RelayStar.Mqtt

/-- What a client finds in its stream. -/
inductive Sent where
  | publish (topic : String) (payload : List UInt8)
  | pingresp

namespace Sent

/-- The packet, if it is sent. -/
def packet : Sent → Except Mqtt311Error (List UInt8)
  | publish topic payload => Mqtt.publish topic payload
  | pingresp => .ok [0xD0, 0x00]

/-- The length of the packet after its own length. -/
def bodyLen : Sent → Nat
  | publish topic payload => 2 + (asBytes topic).length + payload.length
  | pingresp => 0

/-- What is read of it. -/
def content : Sent → Option IncomingPublish
  | publish topic payload => some ⟨topic, payload⟩
  | pingresp => none

end Sent

/-- A published packet that fits the buffer of the writer. -/
theorem publish_ok {topic : String} {payload bytes : List UInt8} (h : publish topic payload = .ok bytes) :
    ∃ p : Spec.Publish, p.wire = bytes ∧ p.content = ⟨topic, payload⟩ ∧ p.body.length < 128 ^ 4 := by
  rw [publish_eq] at h
  split at h
  · rename_i hfit
    rw [show OUT_BUF = 320 from rfl] at hfit
    simp only [List.length_cons, List.length_append] at hfit
    refine ⟨⟨0x30, topic, payload, rfl, by omega⟩, Except.ok.inj h, rfl, ?_⟩
    simp only [Spec.Publish.body, List.length_append]
    omega
  · cases h

/-- A packet is read from exactly its bytes. -/
theorem reads_sent {s : Sent} {bytes : List UInt8} (h : s.packet = .ok bytes) {n : Nat} (hn : s.bodyLen ≤ n) :
    (readPublish n).Reads bytes s.content := by
  cases s with
  | publish topic payload =>
    obtain ⟨p, rfl, hc, hlt⟩ := publish_ok h
    obtain ⟨rfl, rfl⟩ : p.topic = topic ∧ p.payload = payload := by
      rw [Spec.Publish.content, IncomingPublish.mk.injEq] at hc
      exact hc
    refine reads_publish p ?_ hlt
    rw [Spec.Publish.body, List.length_append, List.length_append, ← Nat.add_assoc]
    exact hn
  | pingresp =>
    cases h
    exact reads_incoming .pingresp (Nat.zero_le n)

/-- Successive calls of `readPublish`, each with a buffer that holds its packet,
read what was published in order, and nothing from each `PINGRESP`; each takes
exactly one packet. -/
theorem read_published (calls : List (Sent × Nat)) (packets : List (List UInt8))
    (h : List.Forall₂ (fun c bytes => c.1.packet = .ok bytes ∧ c.1.bodyLen ≤ c.2) calls packets)
    (rest : List UInt8) :
    Reader.feedAll (calls.map fun c => readPublish c.2) (packets.flatten ++ rest) =
        some (calls.map fun c => c.1.content, rest) ∧
      List.Forall₂ (fun c bytes => (readPublish c.2).Reads bytes c.1.content) calls packets := by
  have hreads : List.Forall₂ (fun c bytes => (readPublish c.2).Reads bytes c.1.content) calls packets :=
    List.Forall₂.imp (fun c bytes hc => reads_sent hc.1 hc.2) h
  exact ⟨Reader.feedAll_reads hreads rest, hreads⟩

/-- A packet, an answer to a ping, and what follows them. -/
theorem read_published_ping :
    Reader.feedAll [readPublish 9, readPublish 0]
        ([0x30, 5, 0, 1, 0x74, 8, 9] ++ [0xD0, 0x00] ++ [0x30]) =
      some ([some ⟨"t", [8, 9]⟩, none], [0x30]) :=
  (read_published [(.publish "t" [8, 9], 9), (.pingresp, 0)] [[0x30, 5, 0, 1, 0x74, 8, 9], [0xD0, 0x00]]
    (.cons ⟨by decide +kernel, by decide +kernel⟩ (.cons ⟨rfl, Nat.le_refl 0⟩ .nil)) [0x30]).1

end RelayStar.Mqtt

import RelayStar.Proof.LoraNode

/-!
# The display of the LoRa node

The counters and the text of a heartbeat fit their buffers (`text_counters`,
`text_heartbeat`), but a received text of more than 48 bytes does not: it is not cut,
and the display shows nothing of it (`text_lastRx`). In every run of the node this is
all that can be missing on the display (`node_screen_exact`).
-/

namespace RelayStar

namespace LoraNode

/-- What was transmitted and what was received, as the node counts it. -/
def counters (tx rx : Nat) : String := "TX:" ++ toString (tx % 2 ^ 32) ++ "  RX:" ++ toString (rx % 2 ^ 32)

/-- The number in a counter has at most ten digits. -/
theorem size_counter (n : UInt32) : (toString n.toNat).utf8ByteSize ≤ 10 :=
  HString.size_repr_le (by decide) (Nat.lt_trans n.toNat_lt (by decide))

theorem text_counters (line1 line2 : String) (tx rx : Nat) :
    (drawStatus line1 line2 (UInt32.ofNat tx) (UInt32.ofNat rx)).counters.text = counters tx rx := by
  have htx := size_counter (UInt32.ofNat tx)
  have hrx := size_counter (UInt32.ofNat rx)
  rw [drawStatus, counters, ← UInt32.toNat_ofNat', ← UInt32.toNat_ofNat']
  generalize toString (UInt32.ofNat tx).toNat = a at htx ⊢
  generalize toString (UInt32.ofNat rx).toNat = b at hrx ⊢
  have hjoin : "" ++ String.join ["TX:", a, "  RX:", b] = "TX:" ++ a ++ "  RX:" ++ b := by simp [String.join]
  have hsize : ("" ++ String.join ["TX:", a, "  RX:", b]).utf8ByteSize ≤ 32 := by
    rw [hjoin, String.utf8ByteSize_append, String.utf8ByteSize_append, String.utf8ByteSize_append]
    have h3 : "TX:".utf8ByteSize = 3 := rfl
    have h5 : "  RX:".utf8ByteSize = 5 := rfl
    omega
  exact (HString.text_write _ hsize).trans hjoin

/-- A text is shown if all of it fits. -/
theorem text_lastRx (s : String) :
    ((HString.empty : HString 48).write [s]).text = if s.utf8ByteSize ≤ 48 then s else "" := by
  have hjoin : "" ++ String.join [s] = s := by simp [String.join]
  split
  · rename_i h
    exact (HString.text_write _ (by rw [HString.text_empty, hjoin]; exact h)).trans hjoin
  · rename_i h
    have hnone : (HString.empty : HString 48).pushStr s = none := dif_neg (by simpa using h)
    rw [HString.write, hnone]
    rfl

end LoraNode

/-- In every run of the node, whatever its port does, each heartbeat and each message
that is completed is drawn, and nothing else: the text of the message if it has at
most 48 bytes, and nothing of it otherwise; the text of the heartbeat in full; and how
many frames the port has taken so far, and how many messages were completed. -/
theorem node_screen_exact {P : Type} [TransportPort P] {NR NA NF : Nat} (port : P) (events : List LoraNode.Event)
    (e : LoraNode.Event) :
    let out := run LoraNode.observe (LoraNode.boot ⟨port, [], []⟩ : LoraNode (Meter P) NR NA NF) events
    let taken := out.2.port.taken
    let received := out.1.countP (·.2.isSome)
    ((out.2.turn e).1.map fun s => (s.line1, s.line2, s.counters.text)) =
      match e, out.2.completed e with
      | .heartbeat, _ =>
        some ("TX ->", "node hb #" ++ toString (taken % 2 ^ 32), LoraNode.counters (out.2.turn e).2.port.taken received)
      | _, some m =>
        let text := m.asText.getD "<binary>"
        some ("RX <-", if text.utf8ByteSize ≤ 48 then text else "", LoraNode.counters taken (received + 1))
      | _, none => none := by
  intro out taken received
  have h : LoraNode.Observed out.1 out.2 := LoraNode.observed_run port events
  cases e with
  | rxError => rfl
  | heartbeat =>
    have hlen : (asBytes ("node hb #" ++ toString out.2.txCounter.toNat)).length ≤ 180 := by
      rw [length_asBytes, ← LoraNode.text_heartbeat]
      exact Nat.le_trans (HString.size_le _) (by decide)
    obtain ⟨q, ok, port', -, hs⟩ :=
      LoraNode.sendViaPort_solo h.listens.solo out.2.port .text hlen (Relay.usable_broadcast h.listens.solo)
    dsimp only
    rw [LoraNode.turn, LoraNode.heartbeat]
    simp only [LoraNode.text_heartbeat, hs, Option.map_some]
    rw [h.sent.txCounter, h.rxCounter, ← UInt32.ofNat_add, LoraNode.text_counters, UInt32.toNat_ofNat', Meter.taken,
      ← count_taken]
    rfl
  | rx frame =>
    dsimp only
    rw [LoraNode.turn, LoraNode.completed]
    cases out.2.relay.ingest .lora frame with
    | mk res r =>
      cases res with
      | error e => rfl
      | ok o =>
        cases o with
        | complete m =>
          have hrx : out.2.rxCounter + 1 = UInt32.ofNat (received + 1) := by rw [h.rxCounter, UInt32.ofNat_add]; rfl
          dsimp only
          rw [LoraNode.complete, Option.map_some]
          dsimp only
          rw [hrx, h.sent.txCounter, LoraNode.text_counters]
          simp only [drawStatus, LoraNode.text_lastRx]
          rfl
        | _ => rfl

end RelayStar

import RelayStar.Proof.EspNow
import RelayStar.Proof.LoraLoop
import RelayStar.Proof.Traffic

/-!
# What the terminal puts on the air

The loops of the radios take what the bridge queues, so in any run the frames that
reach the radios are those of the queues, in order and each once, and each is of a
text that was typed here or forwards what was heard on another transport
(`on_air_accounted`).
-/

namespace RelayStar

namespace Card

variable {events : List Event} {es : List Effect}

/-- The bytes come from a frame that was planned for this transport and address. -/
def Accounted (events : List Event) (t : Transport) (addr : FrameAddr) (bytes : List UInt8) : Prop :=
  ∃ m : Message, bytes = m.wire ∧ (Composed events ⟨t, addr, m⟩ ∨ Forwarded events ⟨t, addr, m⟩)

theorem accounted_queued {NR NA NF : Nat} {t : Transport} {f : OutFrame}
    (h : f ∈ queuedFor t (life events : List Effect × Card NR NA NF).1) : Accounted events t f.1 f.2.wire :=
  ⟨f.2, rfl, (@accountable_life NR NA NF events).accounted _ (planned_of_queuedFor h)⟩

end Card

/-- A message that is put into the queue of the loop. -/
def LoraLoop.Event.queued : LoraLoop.Event → Option OutFrame
  | .outbound addr msg => some (addr, msg)
  | _ => none

/-- A message that the loop takes from its queue. -/
def EspNowLoop.Event.taken : EspNowLoop.Event → Option OutFrame
  | .receive _ _ => none
  | .transmit addr msg => some (addr, msg)

theorem Lora.queued_eq (events : List LoraLoop.Event) :
    events.filterMap Lora.queued = (events.filterMap LoraLoop.Event.queued).map (·.2.wire) := by
  rw [List.map_filterMap]
  refine List.filterMap_congr fun e _ => ?_
  cases e <;> rfl

theorem EspNow.sends_eq (events : List EspNowLoop.Event) :
    events.filterMap EspNow.Sends = (events.filterMap EspNowLoop.Event.taken).map fun f => (EspNow.mac f.1, f.2.wire) := by
  rw [List.map_filterMap]
  refine List.filterMap_congr fun e _ => ?_
  cases e <;> rfl

/-- Where the loop of LoRa gets what the bridge puts into the queue of LoRa, and the
loop of ESP-NOW has taken the first messages of the queue of ESP-NOW, the frames that
the radios got to transmit are, in any run and with any radios, the first of those
that were queued, in order and each once and to its address; and each is of a text
that was typed here or forwards, with one hop less to go, what was heard on another
transport. -/
theorem on_air_accounted {L R : Type} [LoraReceiver L] [EspNowRadio R] {NR NA NF : Nat} (lora : L) (radio : R)
    (events : List Card.Event) (loraEvents : List LoraLoop.Event) (espNowEvents : List EspNowLoop.Event)
    (hl : loraEvents.filterMap LoraLoop.Event.queued =
      Card.queuedFor .lora (Card.life events : List Card.Effect × Card NR NA NF).1)
    (he : espNowEvents.filterMap EspNowLoop.Event.taken <+:
      Card.queuedFor .espNow (Card.life events : List Card.Effect × Card NR NA NF).1) :
    let es := (Card.life events : List Card.Effect × Card NR NA NF).1
    let onLora := (run LoraLoop.step (⟨⟨lora, []⟩, [], false⟩ : LoraLoop (Lora.Tap L)) loraEvents).2.lora.calls.filterMap
      Lora.Call.prepared
    let onEspNow := (run EspNowLoop.step (⟨⟨radio, []⟩⟩ : EspNowLoop (EspNow.Tap R)) espNowEvents).2.radio.calls.filterMap
      EspNow.Call.sent
    onLora <+: (Card.queuedFor .lora es).map (·.2.wire) ∧
    onEspNow <+: (Card.queuedFor .espNow es).map (fun f => (EspNow.mac f.1, f.2.wire)) ∧
    (∀ bytes ∈ onLora, ∃ addr, Card.Accounted events .lora addr bytes) ∧
    ∀ x ∈ onEspNow, ∃ addr, x.1 = EspNow.mac addr ∧ Card.Accounted events .espNow addr x.2 := by
  intro es onLora onEspNow
  have hlora : onLora <+: (Card.queuedFor .lora es).map (·.2.wire) := by
    rw [← hl, ← Lora.queued_eq, ← (Lora.looped_run lora loraEvents).sent]
    exact List.prefix_append ..
  have hespNow : onEspNow <+: (Card.queuedFor .espNow es).map (fun f => (EspNow.mac f.1, f.2.wire)) := by
    rw [show onEspNow = espNowEvents.filterMap EspNow.Sends from EspNow.sent_run radio espNowEvents, EspNow.sends_eq]
    exact he.map _
  refine ⟨hlora, hespNow, fun bytes hb => ?_, fun x hx => ?_⟩
  · obtain ⟨f, hf, rfl⟩ := List.mem_map.mp (hlora.subset hb)
    exact ⟨f.1, Card.accounted_queued hf⟩
  · obtain ⟨f, hf, rfl⟩ := List.mem_map.mp (hespNow.subset hx)
    exact ⟨f.1, rfl, Card.accounted_queued hf⟩

/-- A radio that receives nothing and transmits everything. -/
structure ExampleLora where

instance : LoraReceiver ExampleLora where
  RadioError := Unit
  prepareForTx r _ := (.ok (), r)
  tx r := (.ok (), r)
  sleep r := (.ok (), r)
  prepareForRx r := (.ok (), r)
  rx r := (.error (), r)

theorem on_air_accounted_typed :
    ∃ addr, Card.Accounted [.compose "hi"] .lora addr (Message.wire { Card.exampleTyped with origin := .lora }) :=
  (@on_air_accounted ExampleLora ExampleRadio _ _ 16 4 32 ⟨⟩ ⟨[]⟩ [.compose "hi"]
    [.outbound .broadcast { Card.exampleTyped with origin := .lora }, .listen, .transmit]
    [.transmit .broadcast { Card.exampleTyped with origin := .espNow }] (by decide +kernel)
    ⟨[], by decide +kernel⟩).2.2.1 _ (by decide +kernel)

end RelayStar

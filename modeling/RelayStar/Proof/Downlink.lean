import RelayStar.Proof.Fanout
import RelayStar.Proof.LoraNode
import RelayStar.Proof.Session
import RelayStar.Proof.Ui
import RelayStar.Proof.Uplink

/-!
# From the mesh to the broker

What the relay hands over is put into the queue of MQTT as one whole frame, also
what was in slices, unless it is for this terminal alone, has no hop to go, or came
from the broker (`downlink_exact`). So what the MQTT task publishes, on all of its
connections, are texts that were typed here and messages that the radios have heard:
nothing that the broker has sent goes back to it (`downlinks_accounted`). A heartbeat
of the LoRa node is shown by the terminal, and published (`heartbeat_published`).
-/

namespace RelayStar

namespace Relay

variable {NR NA NF : Nat}

/-- What a turn forwards of a message that is handed over. -/
theorem bridgeStep_forwards {r : Relay NR NA NF} {source : Transport} {bytes : List UInt8} {m : Message}
    (h : delivered (r.ingest source bytes).1 = some m) :
    (r.bridgeStep source bytes).1.2 =
      if m.isBroadcast = true ∨ m.toAddr ≠ r.selfAddr then ((r.ingest source bytes).2.fanoutForward m source).1
      else [] := by
  have hdirect := r.direct_of_delivered h
  split
  · exact (bridgeStep_direct hdirect ‹_›).1
  · rename_i hself
    rw [not_or, not_not] at hself
    rw [direct, if_pos (.inl hself.2)] at hdirect
    rw [bridgeStep]
    cases hin : r.ingest source bytes with
    | mk res r' =>
      rw [hin] at hdirect
      obtain rfl : res = .ok (.complete m) := hdirect
      dsimp only
      rw [if_neg hself.1]

theorem bridgeStep_silent {r : Relay NR NA NF} {source : Transport} {bytes : List UInt8}
    (h : delivered (r.ingest source bytes).1 = none) : (r.bridgeStep source bytes).1.2 = [] := by
  rcases r.bridgeStep_cases source bytes with ⟨hnil, -⟩ | ⟨m, hm, -⟩
  · exact hnil
  · rw [h] at hm
    cases hm

/-- Nothing is in slices for the broker. -/
theorem framesOn_mqtt (m : Message) (g : UInt32) : m.framesOn .mqtt g = [m] := by
  rw [Message.framesOn, if_neg fun h => by cases h.2.1]

end Relay

/-- In whatever state the relay is and whatever it hears, what it has for the broker
is the message that is handed over, whole and with one hop less to go, if that is a
broadcast or for another node, has hops to go, and came by radio; else nothing. -/
theorem downlink_exact {NR NA NF : Nat} (r : Relay NR NA NF) (source : Transport) (bytes : List UInt8) :
    (r.bridgeStep source bytes).1.2.filter (·.transport = .mqtt) =
      match delivered (r.ingest source bytes).1 with
      | none => []
      | some m =>
        if (m.isBroadcast = true ∨ m.toAddr ≠ r.selfAddr) ∧ m.ttl ≠ 0 ∧ source ≠ .mqtt then
          [⟨.mqtt, .fromBytes m.toAddr, { m with ttl := m.ttl - 1 }⟩]
        else [] := by
  cases hd : delivered (r.ingest source bytes).1 with
  | none => rw [Relay.bridgeStep_silent hd, List.filter_nil]
  | some m =>
    rw [Relay.bridgeStep_forwards hd]
    dsimp only
    by_cases hfwd : m.isBroadcast = true ∨ m.toAddr ≠ r.selfAddr
    swap
    · rw [if_neg hfwd, if_neg fun h => hfwd h.1, List.filter_nil]
    rw [if_pos hfwd]
    by_cases httl : m.ttl = 0
    · rw [Relay.fanoutForward_eq_nil_iff.mpr httl, if_neg fun h => h.2.1 httl, List.filter_nil]
    obtain ⟨hnone, hsome⟩ := @Relay.filter_fanoutForward _ _ _ m source httl (r.ingest source bytes).2
    by_cases hs : source = .mqtt
    · subst hs
      rw [hnone, if_neg fun h => h.2.2 rfl]
    · obtain ⟨g, hframes⟩ := hsome .mqtt (Ne.symm hs)
      rw [hframes, Relay.framesOn_mqtt, m.frameAddr_eq, if_pos ⟨hfwd, httl, hs⟩, List.map_singleton]

namespace Card

/-- A radio has heard this message. -/
inductive Heard (events : List Event) : Message → Prop
  | lora {data : List UInt8} {m : Message} (h : .loraRx data ∈ events) (hm : Message.decode data = .ok m) :
      Heard events (m.arrived .lora)
  | espNow {data : List UInt8} {m : Message} (h : .espnowRx data ∈ events) (hm : Message.decode data = .ok m) :
      Heard events (m.arrived .espNow)

variable {events : List Event} {history : List Message} {last m : Message}

/-- What comes from the broker is whole. -/
theorem External.heard_or (h : External events m) : Heard events m ∨ m.origin = .mqtt ∧ m.frag = none := by
  cases h with
  | lora h hm => exact .inl (.lora h hm)
  | espNow h hm => exact .inl (.espNow h hm)
  | uplink id p h hp => exact .inr ⟨rfl, rfl⟩

/-- A message of which the radios heard the last frame was heard by them in all its
slices. -/
theorem HandedOver.heard (hext : ∀ y ∈ history, External events y) (h : HandedOver history last m)
    (hlast : last.origin ≠ .mqtt) : ∃ history', (∀ y ∈ history', Heard events y) ∧ HandedOver history' last m := by
  have hheard : Heard events last := (hext last h.1).heard_or.resolve_right fun hq => hlast hq.1
  rcases h.2 with hwhole | ⟨f, parts, hmem, hparts⟩
  · exact ⟨[last], fun y hy => List.mem_singleton.mp hy ▸ hheard, List.mem_singleton_self _, .inl hwhole⟩
  · refine ⟨parts, fun y hy => ?_, hmem, .inr ⟨f, parts, hmem, { hparts with mem := fun _ => id }⟩⟩
    refine (hext y (hparts.mem y hy)).heard_or.resolve_right fun hq => ?_
    obtain ⟨k, hk, rfl⟩ := List.mem_iff_getElem.mp hy
    rw [hparts.frag k hk] at hq
    cases hq.2

end Card

namespace MqttTask

/-- The text of a publication is that of a text that was typed, or of a message that
the radios have heard. -/
inductive Sourced (events : List Card.Event) : Message → Prop
  | composed {m : Message} (text : String) (h : .compose text ∈ events) (hm : m.asText = some text) : Sourced events m
  | heard {history : List Message} {last m x : Message} (h : ∀ y ∈ history, Card.Heard events y)
      (hm : HandedOver history last x) (httl : x.ttl ≠ 0) (ht : m.asText = x.asText) : Sourced events m

theorem sourced_queued {NR NA NF : Nat} {events : List Card.Event} {m : Message} {addr : FrameAddr}
    (h : (addr, m) ∈ Card.queuedFor .mqtt (Card.life events : List Card.Effect × Card NR NA NF).1) :
    Sourced events m := by
  have hacc := (@Card.accountable_life NR NA NF events).accounted _ (Card.planned_of_queuedFor h)
  rcases hacc with ⟨-, text, id, g, p, hmem, hp, hframe⟩ | ⟨history, last, x, hext, hover, hlast, httl, -, g, hframe⟩
  · dsimp only at hframe
    rw [Relay.framesOn_mqtt, List.mem_singleton] at hframe
    refine .composed text hmem ?_
    rw [hframe, Message.asText, hp, fromUtf8_asBytes]
  · dsimp only at hframe
    rw [Relay.framesOn_mqtt, List.mem_singleton] at hframe
    obtain ⟨history', hheard, hover'⟩ := Card.HandedOver.heard hext hover hlast
    refine .heard hheard hover' httl ?_
    rw [hframe]
    rfl

end MqttTask

/-- Where the MQTT task gets what the bridge puts into the queue of MQTT, the
messages that it publishes, on all of its connections, are the first of these, in
order and each once; and each of them has the text of one that was typed here, or of
one that the radios have heard, whole or in slices, and that had hops to go. None
comes from the broker. -/
theorem downlinks_accounted {NR NA NF : Nat} (events : List Card.Event) (polls : List MqttTask.Event)
    (h : polls.filterMap MqttTask.Event.message =
      (Card.queuedFor .mqtt (Card.life events : List Card.Effect × Card NR NA NF).1).map Prod.snd) :
    ∃ talks : List MqttTask.Talk,
      talks.map (fun x => (x.received, x.written)) = (run MqttTask.Log.step .boot polls).2.connections ∧
      (∀ x ∈ talks, x.Proper) ∧
      talks.flatMap (·.sent.filterMap MqttTask.Sent.message) <+:
        (Card.queuedFor .mqtt (Card.life events : List Card.Effect × Card NR NA NF).1).map Prod.snd ∧
      ∀ x ∈ talks, ∀ m, .publish m ∈ x.sent → MqttTask.Sourced events m := by
  obtain ⟨past, x, hheld⟩ := MqttTask.held_run polls
  obtain ⟨talks, hconn, hp, hmsg, -⟩ := hheld.talks
  have hout := hheld.outbound
  rw [← MqttTask.messages_flatMap, ← hmsg, MqttTask.messages_flatMap, h] at hout
  refine ⟨talks, hconn, hp, ⟨_, hout⟩, fun x hx m hm => ?_⟩
  have hmem : m ∈ (Card.queuedFor .mqtt (Card.life events : List Card.Effect × Card NR NA NF).1).map Prod.snd := by
    rw [← hout]
    refine List.mem_append_left _ (List.mem_flatMap.mpr ⟨x, hx, ?_⟩)
    exact List.mem_filterMap.mpr ⟨_, hm, rfl⟩
  obtain ⟨⟨addr, y⟩, hq, rfl⟩ := List.mem_map.mp hmem
  exact MqttTask.sourced_queued hq

namespace MqttTask

/-- A message is queued after the handshake, and published. -/
def examplePolls : List Event := exampleHandshake ++ [.outbound .broadcast Card.exampleTyped, .poll none]

theorem pollRunning_publish (m : Message) (tx : List UInt8) :
    (⟨.running (Mqtt.readPublish PKT_BUF), [], false, tx, [(.broadcast, m)], 0⟩ : MqttTask).pollRunning none
        (Mqtt.readPublish PKT_BUF) =
      (none, ⟨.running (Mqtt.readPublish PKT_BUF), [], false, tx ++ (Sent.publish m).wire, [], 0⟩) := by
  obtain ⟨k, hk⟩ : ∃ k, Mqtt.readPublish PKT_BUF = .wait k := ⟨_, rfl⟩
  simp only [pollRunning, hk, Reader.feed_nil, Bool.false_eq_true, if_false, publish_self, write]

theorem connections_examplePolls : (run Log.step .boot examplePolls).2.connections =
    [([0x20, 2, 0, 0, 0x90, 3, 0, 1, 0], CONNECT ++ SUBSCRIBE ++ (Sent.publish Card.exampleTyped).wire)] := by
  have hconnack : Mqtt.readConnack.feed [0x20, 2, 0, 0] = (.done (), []) := rfl
  have hsuback : Mqtt.readSuback.feed [0x90, 3, 0, 1, 0] = (.done (), []) := rfl
  simp [examplePolls, exampleHandshake, Log.boot, Log.step, Log.receive, Log.connections, boot, step, poll, write,
    connected, opens, connect_self, subscribe_self, hconnack, hsuback, pollRunning_publish]

end MqttTask

theorem downlinks_accounted_typed :
    ∃ talks : List MqttTask.Talk,
      talks.map (fun x => (x.received, x.written)) =
        [([0x20, 2, 0, 0, 0x90, 3, 0, 1, 0],
          MqttTask.CONNECT ++ MqttTask.SUBSCRIBE ++ (MqttTask.Sent.publish Card.exampleTyped).wire)] ∧
      (∀ x ∈ talks, x.Proper) ∧
      talks.flatMap (·.sent.filterMap MqttTask.Sent.message) <+:
        (Card.queuedFor .mqtt (Card.life [.compose "hi"] : List Card.Effect × Card 16 4 32).1).map Prod.snd ∧
      ∀ x ∈ talks, ∀ m, .publish m ∈ x.sent → MqttTask.Sourced [.compose "hi"] m := by
  rw [← MqttTask.connections_examplePolls]
  exact downlinks_accounted [.compose "hi"] MqttTask.examplePolls (by decide +kernel)

/-- The text of a heartbeat fits a row of the screen. -/
theorem LoraNode.excerpt_heartbeat {k : Nat} {m : Message}
    (hm : m.asText = some ("node hb #" ++ toString (k % 2 ^ 32))) :
    Ui.excerpt m = ("node hb #" ++ toString (k % 2 ^ 32)).toList ∧ (String.ofList (Ui.excerpt m)).utf8ByteSize ≤ 47 := by
  have hsize : (toString (k % 2 ^ 32)).utf8ByteSize ≤ 10 :=
    HString.size_repr_le (by decide) (Nat.lt_trans (Nat.mod_lt k (by decide)) (by decide))
  have h9 : "node hb #".utf8ByteSize = 9 := rfl
  have hascii : IsAscii ("node hb #" ++ toString (k % 2 ^ 32)).toList := fun c hc => by
    rw [String.toList_append] at hc
    exact (List.mem_append.mp hc).elim (HString.isAscii_of_all (by decide) c) (HString.isAscii_repr _ c)
  have hlen : ("node hb #" ++ toString (k % 2 ^ 32)).toList.length ≤ 47 := by
    rw [← HString.size_of_isAscii hascii, String.utf8ByteSize_append]
    omega
  have hexcerpt : Ui.excerpt m = ("node hb #" ++ toString (k % 2 ^ 32)).toList := by
    rw [Ui.excerpt, hm, Option.getD_some, List.take_of_length_le hlen]
  refine ⟨hexcerpt, ?_⟩
  rw [hexcerpt, String.ofList_toList, String.utf8ByteSize_append]
  omega

/-- The frame of a heartbeat, in any run of the node with any port. A relay that has
not seen its id, in whatever state it is, hands it over; the row of it has its whole
text, with the number of the frames before it that the port took; it is forwarded as one
frame to the broker and one to the nodes of ESP-NOW, not back; and its text is published. -/
theorem heartbeat_published {P : Type} [TransportPort P] {NR NA NF NR' NA' NF' : Nat} (port : P)
    (events : List LoraNode.Event) (j : Nat) (f : FrameAddr × List UInt8) :
    let out := run LoraNode.observe (LoraNode.boot ⟨port, [], []⟩ : LoraNode (Meter P) NR' NA' NF') events
    (out.1.filterMap LoraNode.cause)[j]? = some .heartbeat → out.2.port.handed[j]? = some f →
    let text := "node hb #" ++ toString ((out.2.port.results.take j).count true % 2 ^ 32)
    ∃ m, Message.decode f.2 = .ok m ∧ ∀ r : Relay NR NA NF, r.seen.contains m.dedupKey = false →
      ∃ frames, (r.bridgeStep .lora f.2).1 = (some m, frames) ∧
        (Ui.row (.fromMessage m)).text = "[lora] " ++ text ∧
        frames.filter (·.transport = .mqtt) = [⟨.mqtt, .broadcast, m.relayed⟩] ∧
        frames.filter (·.transport = .espNow) = [⟨.espNow, .broadcast, m.relayed⟩] ∧
        frames.filter (·.transport = .lora) = [] ∧
        (MqttTask.Sent.publish m.relayed).wire = Spec.publish TOPIC_DOWNLINK (asBytes text) := by
  intro out hj hf text
  obtain ⟨p, hp, rfl⟩ := (LoraNode.observed_run port events).sent.answers j _ f hj hf
  generalize hm : LoraNode.message j .text p .broadcast = m
  have hfrag : m.frag = none := by rw [← hm]; rfl
  have hb : m.isBroadcast = true := by rw [← hm]; rfl
  have httl : m.ttl ≠ 0 := by rw [← hm]; exact (by decide : DEFAULT_TTL ≠ 0)
  have horigin : m.origin = .lora := by rw [← hm]; rfl
  have htext : m.asText = some text := by
    rw [Message.asText, ← hm, show (LoraNode.message j .text p .broadcast).payload = p from rfl, hp, fromUtf8_asBytes]
  refine ⟨m, m.decode_wire_self, fun r hun => ?_⟩
  obtain ⟨r', hturn⟩ := Relay.bridgeStep_whole hun hfrag hb horigin
  obtain ⟨hnone, hsome⟩ := @Relay.filter_fanoutForward _ _ _ m .lora httl r'
  have hwhole {t : Transport} (ht : t ≠ .lora) :
      (r'.fanoutForward m .lora).1.filter (·.transport = t) = [⟨t, .broadcast, m.relayed⟩] := by
    obtain ⟨g, hframes⟩ := hsome t ht
    rw [hframes, if_pos hb, show Message.framesOn { m with ttl := m.ttl - 1 } t g = [m.relayed] from
      if_neg fun hs => ht hs.2.1]
    rfl
  refine ⟨_, hturn, ?_, hwhole (by decide), hwhole (by decide), hnone, ?_⟩
  · obtain ⟨hexcerpt, hsize⟩ := LoraNode.excerpt_heartbeat htext
    have hrow : ("[lora] " ++ text).toList = "[lora] ".toList ++ text.toList := String.toList_append
    apply String.toList_injective
    rw [Ui.toList_row_of_fits, hexcerpt, horigin]
    · exact hrow.symm
    · split <;> omega
  · rw [MqttTask.Sent.wire, show m.relayed.asText = m.asText from rfl, htext]
    rfl

/-- The payload of a second heartbeat, when the port took the first frame. -/
def LoraNode.exampleBeat : Payload := ⟨[110, 111, 100, 101, 32, 104, 98, 32, 35, 49], by decide⟩

theorem heartbeat_published_second :
    ∃ m, Message.decode (LoraNode.message 1 .text LoraNode.exampleBeat .broadcast).wire = .ok m ∧
      ∀ r : Relay 16 4 32, r.seen.contains m.dedupKey = false →
        ∃ frames,
          (r.bridgeStep .lora (LoraNode.message 1 .text LoraNode.exampleBeat .broadcast).wire).1 = (some m, frames) ∧
          (Ui.row (.fromMessage m)).text = "[lora] node hb #1" ∧
          frames.filter (·.transport = .mqtt) = [⟨.mqtt, .broadcast, m.relayed⟩] ∧
          frames.filter (·.transport = .espNow) = [⟨.espNow, .broadcast, m.relayed⟩] ∧
          frames.filter (·.transport = .lora) = [] ∧
          (MqttTask.Sent.publish m.relayed).wire = Spec.publish TOPIC_DOWNLINK (asBytes "node hb #1") :=
  @heartbeat_published OpenPort _ 16 4 32 8 2 32 ⟨.lora⟩ [.heartbeat, .heartbeat] 1
    (.broadcast, (LoraNode.message 1 .text LoraNode.exampleBeat .broadcast).wire) rfl (by decide +kernel)

end RelayStar

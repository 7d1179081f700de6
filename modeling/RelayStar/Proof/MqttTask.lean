import RelayStar.Impl.MqttTask
import RelayStar.Proof.Connect
import RelayStar.Proof.MqttLoop

/-!
# The connections of the MQTT task

Over any run, whatever comes from the broker and wherever writes fail, what the
task writes on each of its connections begins with a `CONNECT`; a `SUBSCRIBE`
follows only when a `CONNACK` has accepted, and publications and `PINGREQ` packets
only when a `SUBACK` has come (`Talk.Proper`). The messages that are put into
`MQTT_OUT` are published in order, across all connections, but for the last one of
a connection, of which only a part may be written. What goes to the mesh is the
content of packets in the stream, each once and in order (`mqtt_conversations`).
-/

namespace RelayStar

namespace Mqtt

open Spec (Packet)

/-- The packet that ends the wait for the answer to a `SUBSCRIBE`. -/
theorem suback_of_done {bytes rest : List UInt8} (h : readSuback.feed bytes = (.done (), rest)) :
    ∃ p : Packet, bytes = p.wire ++ rest ∧ p.first >>> 4 = 9 := by
  obtain ⟨p, rest', rfl, hn, h⟩ := packet_of_bind h (.inl ⟨(), rfl⟩)
  dsimp only at h
  split at h
  · cases h
  · rename_i hf
    cases h
    exact ⟨p, rfl, not_not.mp hf⟩

/-- What `read_publish` reads is what a packet carries, if it is a publication. -/
theorem publish_of_done {n : Nat} {bytes rest : List UInt8} {o : Option IncomingPublish}
    (h : (readPublish n).feed bytes = (.done o, rest)) :
    ∃ p : Packet, bytes = p.wire ++ rest ∧ ∀ c, o = some c → p.Carries c := by
  obtain ⟨p, rest', rfl, hn, h⟩ := packet_of_bind h (.inl ⟨o, rfl⟩)
  dsimp only at h
  split at h
  · cases h
    exact ⟨p, rfl, fun c hc => by cases hc⟩
  · rename_i hf
    split at h
    · rename_i hi lo more hbody
      split at h
      · cases h
      · rename_i hlen
        split at h
        · cases h
        · rename_i topic htopic
          cases h
          refine ⟨p, rfl, fun c hc => ⟨not_not.mp hf, ?_⟩⟩
          cases hc
          have htake : (asBytes topic).length = hi.toNat * 256 + lo.toNat := by
            rw [asBytes_of_fromUtf8 htopic, List.length_take]
            omega
          have hhi := hi.toNat_lt
          have hlo := lo.toNat_lt
          rw [asBytes_of_fromUtf8 htopic, List.take_append_drop, hbody, ← asBytes_of_fromUtf8 htopic, htake]
          have hdiv : (hi.toNat * 256 + lo.toNat) / 256 = hi.toNat := by omega
          have hofNat : UInt8.ofNat (hi.toNat * 256 + lo.toNat) = lo := by
            rw [← UInt8.toNat_inj, UInt8.toNat_ofNat']
            omega
          rw [beBytes, hdiv, UInt8.ofNat_toNat, hofNat]
          rfl
    · cases h

end Mqtt

namespace MqttTask

open Spec (Packet)

/-! ## What is said on a connection -/

/-- What the event loop sends. -/
inductive Sent where
  | publish (m : Message)
  | ping
deriving DecidableEq

namespace Sent

def wire : Sent → List UInt8
  | publish m => Spec.publish TOPIC_DOWNLINK (asBytes (m.asText.getD "<binary>"))
  | ping => Spec.pingreq

def message : Sent → Option Message
  | publish m => some m
  | ping => none

end Sent

def CONNECT : List UInt8 := Spec.connect CLIENT_ID KEEPALIVE_SECS

def SUBSCRIBE : List UInt8 := Spec.subscribe TOPIC_UPLINK 1

/-- These are found in the stream, in order and without overlap, as publications on
the uplink topic. -/
inductive Found : List UInt8 → List (List UInt8) → Prop
  | none (bytes : List UInt8) : Found bytes []
  | next {bytes : List UInt8} {found : List (List UInt8)} (h : Found bytes found) (p : Packet) (payload : List UInt8)
      (hp : p.Carries ⟨TOPIC_UPLINK, payload⟩) (more : List UInt8) :
      Found (bytes ++ (p.wire ++ more)) (found ++ [payload])

theorem Found.append {bytes : List UInt8} {found : List (List UInt8)} (h : Found bytes found) (more : List UInt8) :
    Found (bytes ++ more) found := by
  cases h with
  | none bytes => exact .none _
  | next h p payload hp more' =>
    rw [List.append_assoc, List.append_assoc]
    exact .next h p payload hp _

/-- One connection: what arrived and what was written on it, what of that are
messages and pings, and what went to the mesh. -/
structure Talk where
  received : List UInt8
  written : List UInt8
  sent : List Sent
  uplinks : List (List UInt8)

/-- The protocol is kept, and only the last packet may be written in part. -/
inductive Talk.Proper : Talk → Prop
  | connect {received written : List UInt8} (h : written <+: CONNECT) : Proper ⟨received, written, [], []⟩
  | subscribe {written more : List UInt8} (connack : Packet) (hc : connack.Accepts) (hw : CONNECT <+: written)
      (h : written <+: CONNECT ++ SUBSCRIBE) : Proper ⟨connack.wire ++ more, written, [], []⟩
  | events {written more : List UInt8} {sent : List Sent} {uplinks : List (List UInt8)} (connack : Packet)
      (hc : connack.Accepts) (suback : Packet) (hs : suback.first >>> 4 = 9)
      (hw : CONNECT ++ SUBSCRIBE ++ sent.dropLast.flatMap Sent.wire <+: written)
      (h : written <+: CONNECT ++ SUBSCRIBE ++ sent.flatMap Sent.wire) (hu : Found more uplinks) :
      Proper ⟨connack.wire ++ (suback.wire ++ more), written, sent, uplinks⟩

/-! ## The steps of the task -/

variable {t : MqttTask} {cut : Option Nat}

/-- A write is done, or a part of it and the connection fails. -/
theorem write_cases (t : MqttTask) (bytes : List UInt8) (cut : Option Nat) (next failed : Phase) :
    t.write bytes cut next failed = { t with tx := t.tx ++ bytes, phase := next } ∨
      ∃ part, part <+: bytes ∧ t.write bytes cut next failed = { t with tx := t.tx ++ part, phase := failed } := by
  cases cut with
  | none => exact .inl rfl
  | some k =>
    rw [write]
    split
    · exact .inr ⟨_, List.take_prefix _ _, rfl⟩
    · exact .inl rfl

theorem connect_self : Mqtt.connect CLIENT_ID KEEPALIVE_SECS = .ok (CONNECT, Mqtt.readConnack) :=
  (Mqtt.connect_eq ..).trans (if_pos (by decide +kernel))

theorem subscribe_self : Mqtt.subscribe TOPIC_UPLINK 1 = .ok (SUBSCRIBE, Mqtt.readSuback) :=
  (Mqtt.subscribe_eq ..).trans (if_pos (by decide +kernel))

theorem publish_self (m : Message) :
    Mqtt.publish TOPIC_DOWNLINK (asBytes (m.asText.getD "<binary>")) = .ok (Sent.publish m).wire := by
  obtain ⟨bytes, h⟩ := MqttLoop.publish_text m
  have heq : Mqtt.publish TOPIC_DOWNLINK (asBytes (m.asText.getD "<binary>")) =
      if (Sent.publish m).wire.length ≤ Mqtt.OUT_BUF then .ok (Sent.publish m).wire else .error .tooLarge :=
    Mqtt.publish_eq ..
  rw [h] at heq ⊢
  split at heq
  · exact heq
  · cases heq

/-- What the event loop takes to send it. -/
inductive Takes (t : MqttTask) : Sent → MqttTask → Prop
  | message {addr : FrameAddr} {m : Message} {mqttOut : List (FrameAddr × Message)}
      (h : t.mqttOut = (addr, m) :: mqttOut) : Takes t (.publish m) { t with mqttOut }
  | tick (h : t.ticks ≠ 0) : Takes t .ping { t with ticks := t.ticks - 1 }

/-- A poll in the event loop. -/
inductive Turn (t : MqttTask) (reading : Reader Mqtt311Error (Option IncomingPublish)) :
    Option IncomingPublish × MqttTask → Prop
  | packet {o : Option IncomingPublish} {rx : List UInt8} (h : reading.feed t.rx = (.done o, rx)) :
      Turn t reading (o, { t with rx, phase := .running (Mqtt.readPublish PKT_BUF) })
  | left (rx : List UInt8) : Turn t reading (none, { t with rx, phase := .offline })
  | waits {k : UInt8 → Reader Mqtt311Error (Option IncomingPublish)} {rx : List UInt8}
      (h : reading.feed t.rx = (.wait k, rx)) : Turn t reading (none, { t with rx, phase := .running (.wait k) })
  | sends {k : UInt8 → Reader Mqtt311Error (Option IncomingPublish)} {rx : List UInt8}
      (h : reading.feed t.rx = (.wait k, rx)) {s : Sent} {t' : MqttTask} (ht : Takes t s t') :
      Turn t reading
        (none, { t' with rx, tx := t.tx ++ s.wire, phase := .running (Mqtt.readPublish PKT_BUF) })
  | cut (rx : List UInt8) {s : Sent} {t' : MqttTask} (ht : Takes t s t') {part : List UInt8} (hp : part <+: s.wire) :
      Turn t reading (none, { t' with rx, tx := t.tx ++ part, phase := .offline })

theorem turn_poll (t : MqttTask) (cut : Option Nat) (reading : Reader Mqtt311Error (Option IncomingPublish)) :
    Turn t reading (t.pollRunning cut reading) := by
  rw [pollRunning]
  split
  · rename_i o rx h
    exact .packet h
  · exact .left _
  · rename_i k rx h
    split
    · exact .left _
    · split
      · rename_i addr m mqttOut hout
        rw [publish_self]
        dsimp only
        rcases write_cases { t with rx, mqttOut } (Sent.publish m).wire cut (.running (Mqtt.readPublish PKT_BUF)) .offline
          with hw | ⟨part, hp, hw⟩
        · rw [hw]
          exact (Turn.sends h (Takes.message hout) :)
        · rw [hw]
          exact (Turn.cut rx (Takes.message hout) hp :)
      · rename_i hout
        split
        · exact .waits h
        · rename_i hticks
          rcases write_cases { t with rx, ticks := t.ticks - 1 } Mqtt.ping cut (.running (Mqtt.readPublish PKT_BUF))
            .offline with hw | ⟨part, hp, hw⟩
          · rw [hw]
            exact (Turn.sends h (Takes.tick hticks) :)
          · rw [hw]
            exact (Turn.cut rx (Takes.tick hticks) hp :)

/-! ## The connections of a run -/

/-- The message that an event puts into `MQTT_OUT`. -/
def Event.message : Event → Option Message
  | .outbound _ m => some m
  | _ => none

def Event.isTick : Event → Bool
  | .tick => true
  | _ => false

/-- The connection is made with this event. -/
def opens (t : MqttTask) : Event → Bool
  | .tcp up _ => match t.phase with
    | .offline => up
    | _ => false
  | _ => false

/-- The task, what has arrived on its connection, and what had arrived and was
written on the connections before. -/
structure Log where
  task : MqttTask
  received : List UInt8
  ended : List (List UInt8 × List UInt8)

namespace Log

def boot : Log := ⟨.boot, [], []⟩

def receive (l : Log) : Event → List UInt8
  | .arrive bytes => if l.task.connected && !l.task.closed then l.received ++ bytes else l.received
  | e => if l.task.opens e then [] else l.received

def step (l : Log) (e : Event) : Option (List UInt8) × Log :=
  let t := (l.task.step e).2
  ((l.task.step e).1, ⟨t, l.receive e,
    if (l.task.connected || l.task.opens e) && !t.connected then l.ended ++ [(l.receive e, t.tx)] else l.ended⟩)

/-- What arrived and was written on each connection. -/
def connections (l : Log) : List (List UInt8 × List UInt8) :=
  if l.task.connected then l.ended ++ [(l.received, l.task.tx)] else l.ended

end Log

theorem prefix_dropLast_flatMap {α β : Type} (f : α → List β) (l : List α) : l.dropLast.flatMap f <+: l.flatMap f := by
  obtain ⟨r, hr⟩ := List.dropLast_prefix l
  exact ⟨r.flatMap f, by rw [← List.flatMap_append, hr]⟩

/-- What has been said on the connection, by what the task waits for. -/
inductive Now (t : MqttTask) (received : List UInt8) : Talk → Prop
  | idle (h : t.phase = .offline ∨ t.phase = .backoff) : Now t received ⟨[], [], [], []⟩
  | connecting {reading : Reader Mqtt311Error Unit} (taken : List UInt8) (h : t.phase = .connecting reading)
      (htx : t.tx = CONNECT) (hrec : received = taken ++ t.rx) (hr : Mqtt.readConnack.feed taken = (reading, [])) :
      Now t received ⟨received, t.tx, [], []⟩
  | subscribing {reading : Reader Mqtt311Error Unit} (taken : List UInt8) (connack : Packet)
      (hc : connack.Accepts) (h : t.phase = .subscribing reading) (htx : t.tx = CONNECT ++ SUBSCRIBE)
      (hrec : received = connack.wire ++ (taken ++ t.rx)) (hr : Mqtt.readSuback.feed taken = (reading, [])) :
      Now t received ⟨received, t.tx, [], []⟩
  | running {reading : Reader Mqtt311Error (Option IncomingPublish)} (before taken : List UInt8)
      {sent : List Sent} {uplinks : List (List UInt8)} (connack : Packet) (hc : connack.Accepts) (suback : Packet)
      (hs : suback.first >>> 4 = 9) (h : t.phase = .running reading)
      (htx : t.tx = CONNECT ++ SUBSCRIBE ++ sent.flatMap Sent.wire)
      (hrec : received = connack.wire ++ (suback.wire ++ (before ++ (taken ++ t.rx)))) (hu : Found before uplinks)
      (hr : (Mqtt.readPublish PKT_BUF).feed taken = (reading, [])) :
      Now t received ⟨received, t.tx, sent, uplinks⟩

theorem connected_iff : t.connected = false ↔ t.phase = .offline ∨ t.phase = .backoff := by
  rw [connected]
  cases t.phase <;> simp

theorem Now.cases_connected {received : List UInt8} {x : Talk} (h : Now t received x) :
    t.connected = false ∧ x = ⟨[], [], [], []⟩ ∨
      t.connected = true ∧ x.received = received ∧ x.written = t.tx ∧ x.Proper := by
  cases h with
  | idle h => exact .inl ⟨connected_iff.mpr h, rfl⟩
  | connecting taken h htx hrec hr =>
    right
    rw [connected, h, htx]
    exact ⟨rfl, rfl, rfl, .connect (List.prefix_refl _)⟩
  | subscribing taken connack hc h htx hrec hr =>
    right
    rw [connected, h, htx, hrec]
    exact ⟨rfl, rfl, rfl, .subscribe connack hc (List.prefix_append _ _) (List.prefix_refl _)⟩
  | running before taken connack hc suback hs h htx hrec hu hr =>
    right
    rw [connected, h, htx, hrec]
    refine ⟨rfl, rfl, rfl, .events connack hc suback hs ?_ (List.prefix_refl _) (hu.append _)⟩
    exact (List.prefix_append_right_inj _).mpr (prefix_dropLast_flatMap _ _)

/-- What a step does to the messages, the pings and what goes to the mesh. -/
structure Moves (t : MqttTask) (x : Talk) (e : Event) (o : Option (List UInt8)) (t' : MqttTask) (x' : Talk) : Prop where
  outbound : x'.sent.filterMap Sent.message ++ t'.mqttOut.map Prod.snd =
    x.sent.filterMap Sent.message ++ t.mqttOut.map Prod.snd ++ e.message.toList
  uplinks : x'.uplinks = x.uplinks ++ o.toList
  pings : x'.sent.count .ping + t'.ticks ≤ x.sent.count .ping + t.ticks + e.isTick.toNat

/-- Nothing is sent. -/
theorem Moves.silent {t t' : MqttTask} {x x' : Talk} {e : Event} (he : e.message = none) (hout : t'.mqttOut = t.mqttOut)
    (hticks : t'.ticks ≤ t.ticks) (hsent : x'.sent = x.sent) (hup : x'.uplinks = x.uplinks) : Moves t x e none t' x' := by
  refine ⟨?_, ?_, ?_⟩
  · rw [he, hout, hsent, Option.toList_none, List.append_nil]
  · rw [hup, Option.toList_none, List.append_nil]
  · rw [hsent]
    omega

/-- Something may go to the mesh. -/
theorem Moves.uplink {t t' : MqttTask} {x x' : Talk} {cut : Option Nat} {o : Option (List UInt8)}
    (hout : t'.mqttOut = t.mqttOut) (hticks : t'.ticks = t.ticks) (hsent : x'.sent = x.sent)
    (hup : x'.uplinks = x.uplinks ++ o.toList) : Moves t x (.poll cut) o t' x' := by
  refine ⟨?_, hup, ?_⟩
  · rw [hout, hsent]
    exact (List.append_nil _).symm
  · rw [hsent, hticks]
    exact Nat.le_add_right _ _

/-- One packet is sent, in whole or in part. -/
theorem Moves.sends {t t' t'' : MqttTask} {x x' : Talk} {s : Sent} (ht : Takes t s t') (hout : t''.mqttOut = t'.mqttOut)
    (hticks : t''.ticks = t'.ticks) (hsent : x'.sent = x.sent ++ [s]) (hup : x'.uplinks = x.uplinks) {cut : Option Nat} :
    Moves t x (.poll cut) none t'' x' := by
  cases ht with
  | message h =>
    refine ⟨?_, ?_, ?_⟩
    · rw [hout, hsent, h, List.filterMap_append]
      simp [Sent.message, Event.message]
    · rw [hup, Option.toList_none, List.append_nil]
    · rw [hsent, hticks]
      simp [List.count_append]
  | tick h =>
    refine ⟨?_, ?_, ?_⟩
    · rw [hout, hsent, List.filterMap_append]
      simp [Sent.message, Event.message]
    · rw [hup, Option.toList_none, List.append_nil]
    · rw [hsent, hticks, List.count_append, List.count_singleton_self]
      show _ + 1 + (t.ticks - 1) ≤ _
      omega

/-- What a step does to the connection: it goes on, or there is none; or it ends. -/
inductive Next (l : Log) (x : Talk) (e : Event) (o : Option (List UInt8)) (l' : Log) : Prop
  | goesOn {x' : Talk} (hended : l'.ended = l.ended) (hnow : Now l'.task l'.received x')
      (hm : Moves l.task x e o l'.task x')
  | ends {x' : Talk} (hended : l'.ended = l.ended ++ [(x'.received, x'.written)])
      (hidle : l'.task.phase = .offline ∨ l'.task.phase = .backoff) (hp : x'.Proper) (hm : Moves l.task x e o l'.task x')

variable {l : Log} {x x' : Talk} {e : Event} {o : Option (List UInt8)}

/-- A step after which there is a connection, or was none before. -/
theorem next_goesOn {t' : MqttTask} (hs : l.task.step e = (o, t'))
    (hc : t'.connected = true ∨ l.task.connected = false ∧ l.task.opens e = false) (hnow : Now t' (l.receive e) x')
    (hm : Moves l.task x e o t' x') : Next l x e (l.step e).1 (l.step e).2 := by
  rw [Log.step, hs]
  refine .goesOn ?_ hnow hm
  dsimp only
  rcases hc with hc | ⟨hc, ho⟩
  · rw [hc, Bool.not_true, Bool.and_false, if_neg (by decide)]
  · rw [hc, ho, if_neg (by simp)]

/-- A step with which the connection ends. -/
theorem next_ends {t' : MqttTask} (hs : l.task.step e = (o, t')) (hc : l.task.connected = true ∨ l.task.opens e = true)
    (hidle : t'.phase = .offline ∨ t'.phase = .backoff) (hrec : x'.received = l.receive e) (hw : x'.written = t'.tx)
    (hp : x'.Proper) (hm : Moves l.task x e o t' x') : Next l x e (l.step e).1 (l.step e).2 := by
  rw [Log.step, hs]
  refine .ends ?_ hidle hp hm
  dsimp only
  rw [connected_iff.mpr hidle, hrec, hw, if_pos]
  rcases hc with hc | hc <;> rw [hc] <;> simp

/-! ## A poll -/

/-- The answer to the `CONNECT` is waited for. -/
theorem next_connecting {reading : Reader Mqtt311Error Unit} {taken : List UInt8} (h : l.task.phase = .connecting reading)
    (htx : l.task.tx = CONNECT) (hrec : l.received = taken ++ l.task.rx)
    (hr : Mqtt.readConnack.feed taken = (reading, [])) (cut : Option Nat) :
    Next l ⟨l.received, l.task.tx, [], []⟩ (.poll cut) (l.step (.poll cut)).1 (l.step (.poll cut)).2 := by
  have hfeed : Mqtt.readConnack.feed l.received = reading.feed l.task.rx := by
    rw [hrec, Reader.feed_append, hr, List.nil_append]
  have hconn : l.task.connected = true := by rw [connected, h]
  have hfails : Talk.Proper ⟨l.received, l.task.tx, [], []⟩ := .connect (htx ▸ List.prefix_refl _)
  have hstep : l.task.step (.poll cut) = ((l.task.poll cut).1.bind uplink, (l.task.poll cut).2) := rfl
  rw [poll, h] at hstep
  dsimp only at hstep
  split at hstep
  · rename_i k rx hk
    obtain rfl := Reader.rest_of_wait hk
    by_cases hcl : l.task.closed = true
    · rw [if_pos hcl] at hstep
      exact next_ends hstep (.inl hconn) (.inr rfl) rfl rfl hfails (.silent rfl rfl (Nat.le_refl _) rfl rfl)
    · rw [if_neg hcl] at hstep
      exact next_goesOn hstep (.inl rfl)
        (.connecting l.received rfl htx (List.append_nil _).symm (hfeed.trans hk))
        (.silent rfl rfl (Nat.le_refl _) rfl rfl)
  · exact next_ends hstep (.inl hconn) (.inr rfl) rfl rfl hfails (.silent rfl rfl (Nat.le_refl _) rfl rfl)
  · rename_i rx hk
    obtain ⟨connack, hwire, -, hc⟩ := Mqtt.accepts_of_done (hfeed.trans hk)
    rw [subscribe_self] at hstep
    dsimp only at hstep
    rcases write_cases ⟨.connecting reading, rx, l.task.closed, l.task.tx, l.task.mqttOut, l.task.ticks⟩ SUBSCRIBE cut
      (.subscribing Mqtt.readSuback) .backoff with hw | ⟨part, hp, hw⟩
    · rw [hw] at hstep
      refine next_goesOn hstep (.inl rfl) (.subscribing [] connack hc rfl ?_ hwire (Reader.feed_nil _))
        (.silent rfl rfl (Nat.le_refl _) rfl rfl)
      rw [htx]
    · rw [hw] at hstep
      have hcut : Talk.Proper ⟨l.received, l.task.tx ++ part, [], []⟩ := by
        rw [htx, hwire]
        exact .subscribe connack hc (List.prefix_append _ _) ((List.prefix_append_right_inj _).mpr hp)
      refine next_ends hstep (.inl hconn) (.inr rfl) ?_ ?_ hcut (.silent rfl rfl (Nat.le_refl _) rfl rfl)
      · rfl
      · rfl

/-- The answer to the `SUBSCRIBE` is waited for. -/
theorem next_subscribing {reading : Reader Mqtt311Error Unit} {taken : List UInt8} (connack : Packet)
    (hc : connack.Accepts) (h : l.task.phase = .subscribing reading) (htx : l.task.tx = CONNECT ++ SUBSCRIBE)
    (hrec : l.received = connack.wire ++ (taken ++ l.task.rx)) (hr : Mqtt.readSuback.feed taken = (reading, []))
    (cut : Option Nat) :
    Next l ⟨l.received, l.task.tx, [], []⟩ (.poll cut) (l.step (.poll cut)).1 (l.step (.poll cut)).2 := by
  have hfeed : Mqtt.readSuback.feed (taken ++ l.task.rx) = reading.feed l.task.rx := by
    rw [Reader.feed_append, hr, List.nil_append]
  have hconn : l.task.connected = true := by rw [connected, h]
  have hfails : Talk.Proper ⟨l.received, l.task.tx, [], []⟩ := by
    rw [hrec, htx]
    exact .subscribe connack hc (List.prefix_append _ _) (List.prefix_refl _)
  have hstep : l.task.step (.poll cut) = ((l.task.poll cut).1.bind uplink, (l.task.poll cut).2) := rfl
  rw [poll, h] at hstep
  dsimp only at hstep
  split at hstep
  · rename_i k rx hk
    obtain rfl := Reader.rest_of_wait hk
    by_cases hcl : l.task.closed = true
    · rw [if_pos hcl] at hstep
      exact next_ends hstep (.inl hconn) (.inr rfl) rfl rfl hfails (.silent rfl rfl (Nat.le_refl _) rfl rfl)
    · rw [if_neg hcl] at hstep
      refine next_goesOn hstep (.inl rfl) (.subscribing (taken ++ l.task.rx) connack hc rfl htx ?_ (hfeed.trans hk))
        (.silent rfl rfl (Nat.le_refl _) rfl rfl)
      exact hrec.trans (by rw [List.append_nil])
  · exact next_ends hstep (.inl hconn) (.inr rfl) rfl rfl hfails (.silent rfl rfl (Nat.le_refl _) rfl rfl)
  · rename_i rx hk
    obtain ⟨suback, hwire, hs⟩ := Mqtt.suback_of_done (hfeed.trans hk)
    refine next_goesOn hstep (.inl rfl) (.running [] [] connack hc suback hs rfl ?_ ?_ (.none _) (Reader.feed_nil _))
      (.silent rfl rfl (Nat.zero_le _) rfl rfl)
    · rw [htx, List.flatMap_nil, List.append_nil]
    · exact hrec.trans (by rw [hwire]; rfl)

/-- The event loop. -/
theorem next_running {reading : Reader Mqtt311Error (Option IncomingPublish)} {before taken : List UInt8}
    {sent : List Sent} {uplinks : List (List UInt8)} (connack : Packet) (hc : connack.Accepts) (suback : Packet)
    (hs : suback.first >>> 4 = 9) (h : l.task.phase = .running reading)
    (htx : l.task.tx = CONNECT ++ SUBSCRIBE ++ sent.flatMap Sent.wire)
    (hrec : l.received = connack.wire ++ (suback.wire ++ (before ++ (taken ++ l.task.rx)))) (hu : Found before uplinks)
    (hr : (Mqtt.readPublish PKT_BUF).feed taken = (reading, [])) (cut : Option Nat) :
    Next l ⟨l.received, l.task.tx, sent, uplinks⟩ (.poll cut) (l.step (.poll cut)).1 (l.step (.poll cut)).2 := by
  have hfeed : (Mqtt.readPublish PKT_BUF).feed (taken ++ l.task.rx) = reading.feed l.task.rx := by
    rw [Reader.feed_append, hr, List.nil_append]
  have hconn : l.task.connected = true := by rw [connected, h]
  have hstep : l.task.step (.poll cut) = ((l.task.poll cut).1.bind uplink, (l.task.poll cut).2) := rfl
  rw [poll, h] at hstep
  dsimp only at hstep
  have hfails : Talk.Proper ⟨l.received, l.task.tx, sent, uplinks⟩ := by
    rw [hrec, htx]
    exact .events connack hc suback hs ((List.prefix_append_right_inj _).mpr (prefix_dropLast_flatMap _ _))
      (List.prefix_refl _) (hu.append _)
  have hturn := turn_poll l.task cut reading
  generalize l.task.pollRunning cut reading = out at hturn hstep
  cases hturn with
  | packet hk =>
    rename_i o rx
    obtain ⟨p, hwire, hp⟩ := Mqtt.publish_of_done (hfeed.trans hk)
    have hrec' (bytes : List UInt8) : connack.wire ++ (suback.wire ++ (before ++ (p.wire ++ bytes))) =
        connack.wire ++ (suback.wire ++ (before ++ (p.wire ++ []) ++ ([] ++ bytes))) := by
      simp only [List.append_assoc, List.nil_append]
    rw [hwire, hrec'] at hrec
    cases hup : o.bind uplink with
    | none =>
      rw [hup] at hstep
      exact next_goesOn hstep (.inl rfl) (.running _ [] connack hc suback hs rfl htx hrec (hu.append _) (Reader.feed_nil _))
        (.silent rfl rfl (Nat.le_refl _) rfl rfl)
    | some payload =>
      rw [hup] at hstep
      obtain ⟨c, rfl, hpay⟩ := Option.bind_eq_some_iff.mp hup
      rw [uplink] at hpay
      split at hpay
      · rename_i htopic
        cases hpay
        refine next_goesOn hstep (.inl rfl) (.running _ [] connack hc suback hs rfl htx hrec (.next hu p c.payload ?_ [])
          (Reader.feed_nil _)) (.uplink rfl rfl rfl rfl)
        rw [← htopic]
        exact hp c rfl
      · cases hpay
  | left rx =>
    exact next_ends hstep (.inl hconn) (.inl rfl) rfl rfl hfails (.silent rfl rfl (Nat.le_refl _) rfl rfl)
  | waits hk =>
    obtain rfl := Reader.rest_of_wait hk
    refine next_goesOn hstep (.inl rfl) (.running before (taken ++ l.task.rx) connack hc suback hs rfl htx ?_ hu
      (hfeed.trans hk)) (.silent rfl rfl (Nat.le_refl _) rfl rfl)
    exact hrec.trans (by rw [List.append_nil])
  | sends hk ht =>
    obtain rfl := Reader.rest_of_wait hk
    rename_i s t'
    have hnow : Now { t' with rx := [], tx := l.task.tx ++ s.wire, phase := .running (Mqtt.readPublish PKT_BUF) }
        l.received ⟨l.received, l.task.tx ++ s.wire, sent ++ [s], uplinks⟩ := by
      refine .running (before ++ (taken ++ l.task.rx)) [] connack hc suback hs rfl ?_ ?_ (hu.append _) (Reader.feed_nil _)
      · rw [htx, List.flatMap_append, List.flatMap_singleton]
        exact List.append_assoc ..
      · rw [hrec]
        simp only [List.append_nil]
    refine next_goesOn hstep (.inl rfl) hnow (.sends ht ?_ ?_ ?_ ?_) <;> rfl
  | cut rx ht hp =>
    rename_i s t' part
    have hcut : Talk.Proper ⟨l.received, l.task.tx ++ part, sent ++ [s], uplinks⟩ := by
      rw [htx, hrec]
      refine .events connack hc suback hs ?_ ?_ (hu.append _)
      · rw [List.dropLast_concat]
        exact List.prefix_append _ _
      · rw [List.flatMap_append, List.flatMap_singleton, ← List.append_assoc]
        exact (List.prefix_append_right_inj _).mpr hp
    refine next_ends hstep (.inl hconn) (.inl rfl) rfl rfl hcut (.sends ht ?_ ?_ ?_ ?_) <;> rfl

/-! ## Any step -/

theorem Now.congr {t t' : MqttTask} {received : List UInt8} (h : Now t received x) (hphase : t'.phase = t.phase)
    (hrx : t'.rx = t.rx) (htx : t'.tx = t.tx) : Now t' received x := by
  cases h with
  | idle h => exact .idle (hphase ▸ h)
  | connecting taken h htx' hrec hr =>
    rw [← htx]
    exact .connecting taken (hphase.trans h) (htx.trans htx') (hrx ▸ hrec) hr
  | subscribing taken connack hc h htx' hrec hr =>
    rw [← htx]
    exact .subscribing taken connack hc (hphase.trans h) (htx.trans htx') (hrx ▸ hrec) hr
  | running before taken connack hc suback hs h htx' hrec hu hr =>
    rw [← htx]
    exact .running before taken connack hc suback hs (hphase.trans h) (htx.trans htx') (hrx ▸ hrec) hu hr

/-- Bytes arrive on the connection. -/
theorem Now.arrive {received : List UInt8} (h : Now t received x) (hc : t.connected = true) (bytes : List UInt8) :
    Now { t with rx := t.rx ++ bytes } (received ++ bytes) { x with received := received ++ bytes } := by
  cases h with
  | idle h => exact absurd (connected_iff.mpr h) (by rw [hc]; decide)
  | connecting taken h htx hrec hr =>
    exact .connecting taken h htx (by rw [hrec, List.append_assoc]) hr
  | subscribing taken connack hc h htx hrec hr =>
    exact .subscribing taken connack hc h htx (by simp only [hrec, List.append_assoc]) hr
  | running before taken connack hc suback hs h htx hrec hu hr =>
    exact .running before taken connack hc suback hs h htx (by simp only [hrec, List.append_assoc]) hu hr

/-- A step that does nothing on the connection. -/
theorem Now.next_same {t' : MqttTask} (h : Now l.task l.received x) (hs : l.task.step e = (o, t'))
    (hphase : t'.phase = l.task.phase) (hrx : t'.rx = l.task.rx) (htx : t'.tx = l.task.tx)
    (hrec : l.receive e = l.received) (ho : l.task.opens e = false) (hm : Moves l.task x e o t' x) :
    Next l x e (l.step e).1 (l.step e).2 := by
  refine next_goesOn hs ?_ (hrec ▸ h.congr hphase hrx htx) hm
  have hc : t'.connected = l.task.connected := by rw [connected, connected, hphase]
  rw [hc]
  cases l.task.connected with
  | true => exact .inl rfl
  | false => exact .inr ⟨rfl, ho⟩

/-- A TCP connection is made: the `CONNECT` is written. -/
theorem next_opens (h : l.task.phase = .offline) (cut : Option Nat) :
    Next l ⟨[], [], [], []⟩ (.tcp true cut) (l.step (.tcp true cut)).1 (l.step (.tcp true cut)).2 := by
  have hopens : l.task.opens (.tcp true cut) = true := by rw [opens, h]
  have hrec : l.receive (.tcp true cut) = [] := by rw [Log.receive, if_pos hopens]; exact fun bytes hb => by cases hb
  have hstep : l.task.step (.tcp true cut) = (none, write { l.task with rx := [], closed := false, tx := [] } CONNECT cut
      (.connecting Mqtt.readConnack) .backoff) := by
    rw [MqttTask.step, h, connect_self]
    rfl
  rcases write_cases { l.task with rx := [], closed := false, tx := [] } CONNECT cut (.connecting Mqtt.readConnack) .backoff
    with hw | ⟨part, hp, hw⟩
  · rw [hw] at hstep
    refine next_goesOn hstep (.inl rfl) (.connecting [] rfl rfl hrec (Reader.feed_nil _))
      (.silent rfl rfl (Nat.le_refl _) rfl rfl)
  · rw [hw] at hstep
    exact next_ends hstep (.inr hopens) (.inr rfl) hrec.symm rfl (.connect hp) (.silent rfl rfl (Nat.le_refl _) rfl rfl)

/-- Where there is no connection, nothing has been said on it. -/
theorem Now.eq_of_idle {received : List UInt8} (h : Now t received x) (hidle : t.phase = .offline ∨ t.phase = .backoff) :
    x = ⟨[], [], [], []⟩ := by
  rcases h.cases_connected with ⟨-, hx⟩ | ⟨hc, -⟩
  · exact hx
  · rw [connected_iff.mpr hidle] at hc
    cases hc

theorem Now.next_poll (h : Now l.task l.received x) (cut : Option Nat) :
    Next l x (.poll cut) (l.step (.poll cut)).1 (l.step (.poll cut)).2 := by
  cases h with
  | idle h =>
    have hpoll : l.task.step (.poll cut) = (none, l.task) := by
      show ((l.task.poll cut).1.bind uplink, (l.task.poll cut).2) = _
      rw [poll]
      rcases h with h | h <;> rw [h] <;> rfl
    exact next_goesOn hpoll (.inr ⟨connected_iff.mpr h, rfl⟩) (.idle h) (.silent rfl rfl (Nat.le_refl _) rfl rfl)
  | connecting taken h htx hrec hr => exact next_connecting h htx hrec hr cut
  | subscribing taken connack hc h htx hrec hr => exact next_subscribing connack hc h htx hrec hr cut
  | running before taken connack hc suback hs h htx hrec hu hr =>
    exact next_running connack hc suback hs h htx hrec hu hr cut

theorem Now.next_tcp (h : Now l.task l.received x) (up : Bool) (cut : Option Nat) :
    Next l x (.tcp up cut) (l.step (.tcp up cut)).1 (l.step (.tcp up cut)).2 := by
  by_cases hoff : l.task.phase = .offline
  · obtain rfl := h.eq_of_idle (.inl hoff)
    cases up with
    | true => exact next_opens hoff cut
    | false =>
      have hstep : l.task.step (.tcp false cut) = (none, { l.task with phase := .backoff }) := by
        rw [MqttTask.step, hoff]
        rfl
      exact next_goesOn hstep (.inr ⟨connected_iff.mpr (.inl hoff), by rw [opens, hoff]⟩) (.idle (.inr rfl))
        (.silent rfl rfl (Nat.le_refl _) rfl rfl)
  · have hopens : l.task.opens (.tcp up cut) = false := by
      rw [opens]
      split
      · exact absurd (by assumption) hoff
      · rfl
    have hstep : l.task.step (.tcp up cut) = (none, l.task) := by
      rw [MqttTask.step]
      split
      · exact absurd (by assumption) hoff
      · rfl
    refine h.next_same hstep rfl rfl rfl ?_ hopens (.silent rfl rfl (Nat.le_refl _) rfl rfl)
    rw [Log.receive, hopens]
    · rfl
    · exact fun bytes hb => by cases hb

theorem Now.next_arrive (h : Now l.task l.received x) (bytes : List UInt8) :
    Next l x (.arrive bytes) (l.step (.arrive bytes)).1 (l.step (.arrive bytes)).2 := by
  have hstep : l.task.step (.arrive bytes) =
      (none, if l.task.connected && !l.task.closed then { l.task with rx := l.task.rx ++ bytes } else l.task) := rfl
  have hrec : l.receive (.arrive bytes) =
      if l.task.connected && !l.task.closed then l.received ++ bytes else l.received := rfl
  by_cases hopen : (l.task.connected && !l.task.closed) = true
  · rw [if_pos hopen] at hstep hrec
    have hc := (Bool.and_eq_true_iff.mp hopen).1
    have hnow := h.arrive hc bytes
    rw [← hrec] at hnow
    exact next_goesOn hstep (.inl hc) hnow (.silent rfl rfl (Nat.le_refl _) rfl rfl)
  · rw [if_neg hopen] at hstep hrec
    exact h.next_same hstep rfl rfl rfl hrec rfl (.silent rfl rfl (Nat.le_refl _) rfl rfl)

theorem Now.next_resume (h : Now l.task l.received x) : Next l x .resume (l.step .resume).1 (l.step .resume).2 := by
  by_cases hback : l.task.phase = .backoff
  · have hstep : l.task.step .resume = (none, { l.task with phase := .offline }) := by
      rw [MqttTask.step, hback]
    obtain rfl := h.eq_of_idle (.inr hback)
    exact next_goesOn hstep (.inr ⟨connected_iff.mpr (.inr hback), rfl⟩) (.idle (.inl rfl))
      (.silent rfl rfl (Nat.le_refl _) rfl rfl)
  · have hstep : l.task.step .resume = (none, l.task) := by
      rw [MqttTask.step]
      split
      · exact absurd (by assumption) hback
      · rfl
    exact h.next_same hstep rfl rfl rfl rfl rfl (.silent rfl rfl (Nat.le_refl _) rfl rfl)

theorem Now.step (h : Now l.task l.received x) (e : Event) : Next l x e (l.step e).1 (l.step e).2 := by
  cases e with
  | poll cut => exact h.next_poll cut
  | tcp up cut => exact h.next_tcp up cut
  | arrive bytes => exact h.next_arrive bytes
  | resume => exact h.next_resume
  | close =>
    have hstep : l.task.step .close = (none, { l.task with closed := true }) := rfl
    exact h.next_same hstep rfl rfl rfl rfl rfl (.silent rfl rfl (Nat.le_refl _) rfl rfl)
  | outbound addr m =>
    have hstep : l.task.step (.outbound addr m) = (none, { l.task with mqttOut := l.task.mqttOut ++ [(addr, m)] }) := rfl
    refine h.next_same hstep rfl rfl rfl rfl rfl ⟨?_, (List.append_nil _).symm, Nat.le_refl _⟩
    rw [List.map_append, List.append_assoc]
    rfl
  | tick =>
    have hstep : l.task.step .tick = (none, { l.task with ticks := l.task.ticks + 1 }) := rfl
    exact h.next_same hstep rfl rfl rfl rfl rfl ⟨(List.append_nil _).symm, (List.append_nil _).symm, Nat.le_refl _⟩

/-! ## A run -/

/-- After a run: the connections that have ended, and the one there is. -/
structure Held (es : List Event) (os : List (Option (List UInt8))) (l : Log) (past : List Talk) (x : Talk) : Prop where
  ended : past.map (fun y => (y.received, y.written)) = l.ended
  proper : ∀ y ∈ past, y.Proper
  now : Now l.task l.received x
  outbound : (past ++ [x]).flatMap (·.sent.filterMap Sent.message) ++ l.task.mqttOut.map Prod.snd =
    es.filterMap Event.message
  uplinks : (past ++ [x]).flatMap (·.uplinks) = os.filterMap id
  pings : ((past ++ [x]).flatMap (·.sent)).count .ping + l.task.ticks ≤ es.countP Event.isTick

theorem Held.step {es : List Event} {os : List (Option (List UInt8))} {past : List Talk} (h : Held es os l past x)
    (e : Event) : ∃ past' x', Held (es ++ [e]) (os ++ [(l.step e).1]) (l.step e).2 past' x' := by
  have hmove {x' : Talk} {o : Option (List UInt8)} {t' : MqttTask} (hm : Moves l.task x e o t' x') :
      (past ++ [x']).flatMap (·.sent.filterMap Sent.message) ++ t'.mqttOut.map Prod.snd =
          (es ++ [e]).filterMap Event.message ∧
        (past ++ [x']).flatMap (·.uplinks) = (os ++ [o]).filterMap id ∧
        ((past ++ [x']).flatMap (·.sent)).count .ping + t'.ticks ≤ (es ++ [e]).countP Event.isTick := by
    refine ⟨?_, ?_, ?_⟩
    · have hout := h.outbound
      rw [List.flatMap_append, List.flatMap_singleton, List.append_assoc] at hout ⊢
      rw [hm.outbound, List.filterMap_append, ← hout]
      cases hmsg : e.message <;> simp [hmsg]
    · have hup := h.uplinks
      rw [List.flatMap_append, List.flatMap_singleton] at hup ⊢
      rw [hm.uplinks, List.filterMap_append, ← hup]
      cases o <;> simp
    · have hping := h.pings
      have := hm.pings
      rw [List.flatMap_append, List.flatMap_singleton, List.count_append] at hping ⊢
      rw [List.countP_append, show [e].countP Event.isTick = e.isTick.toNat by cases e <;> rfl]
      omega
  cases h.now.step e with
  | goesOn hended hnow hm =>
    obtain ⟨hout, hup, hping⟩ := hmove hm
    exact ⟨past, _, h.ended.trans hended.symm, h.proper, hnow, hout, hup, hping⟩
  | ends hended hidle hp hm =>
    rename_i x'
    obtain ⟨hout, hup, hping⟩ := hmove hm
    refine ⟨past ++ [x'], ⟨[], [], [], []⟩, ?_, ?_, .idle hidle, ?_, ?_, ?_⟩
    · rw [List.map_append, h.ended, hended]
      rfl
    · intro y hy
      rcases List.mem_append.mp hy with hy | hy
      · exact h.proper y hy
      · rwa [List.mem_singleton.mp hy]
    · rw [List.flatMap_append, List.flatMap_singleton, List.filterMap_nil, List.append_nil]
      exact hout
    · rw [List.flatMap_append, List.flatMap_singleton, List.append_nil]
      exact hup
    · rw [List.flatMap_append, List.flatMap_singleton, List.append_nil]
      exact hping

theorem held_run (events : List Event) : ∃ past x, Held events (run Log.step .boot events).1 (run Log.step .boot events).2
    past x :=
  @run_history _ _ _ Log.step (fun es os l => ∃ past x, Held es os l past x)
    (fun _ _ _ e ⟨_, _, h⟩ => h.step e) .boot
    ⟨[], ⟨[], [], [], []⟩, rfl, fun y hy => (by cases hy), .idle (.inl rfl), rfl, rfl, Nat.le_refl _⟩ events

theorem messages_flatMap (talks : List Talk) :
    (talks.flatMap (·.sent)).filterMap Sent.message = talks.flatMap (·.sent.filterMap Sent.message) :=
  List.filterMap_flatMap ..

/-- The connections so far, with what was said on them. -/
theorem Held.talks {es : List Event} {os : List (Option (List UInt8))} {l : Log} {past : List Talk} {x : Talk}
    (h : Held es os l past x) : ∃ talks : List Talk, talks.map (fun x => (x.received, x.written)) = l.connections ∧
      (∀ x ∈ talks, x.Proper) ∧ talks.flatMap (·.sent) = (past ++ [x]).flatMap (·.sent) ∧
      talks.flatMap (·.uplinks) = (past ++ [x]).flatMap (·.uplinks) := by
  rcases h.now.cases_connected with ⟨hc, rfl⟩ | ⟨hc, hrec, hw, hp⟩
  · refine ⟨past, ?_, h.proper, by simp, by simp⟩
    rw [Log.connections, hc]
    exact h.ended
  · refine ⟨past ++ [x], ?_, fun y hy => ?_, rfl, rfl⟩
    · rw [Log.connections, hc, List.map_append, h.ended, if_pos rfl]
      rw [show [x].map (fun x => (x.received, x.written)) = [(x.received, x.written)] from rfl, hrec, hw]
    · rcases List.mem_append.mp hy with hy | hy
      · exact h.proper y hy
      · rwa [List.mem_singleton.mp hy]

end MqttTask

/-- In any run of the MQTT task, from the start: on each connection so far, what
was written keeps the protocol with what had arrived; the messages put into
`MQTT_OUT` are those that were published, in order over all connections, and those
still in it; what went to the mesh was published on the uplink topic; and there are
no more pings than ticks. -/
theorem mqtt_conversations (events : List MqttTask.Event) :
    let out := run MqttTask.Log.step .boot events
    ∃ talks : List MqttTask.Talk,
      talks.map (fun x => (x.received, x.written)) = out.2.connections ∧ (∀ x ∈ talks, x.Proper) ∧
      talks.flatMap (·.sent.filterMap MqttTask.Sent.message) ++ out.2.task.mqttOut.map Prod.snd =
        events.filterMap MqttTask.Event.message ∧
      talks.flatMap (·.uplinks) = out.1.filterMap id ∧
      (talks.flatMap (·.sent)).count .ping ≤ events.countP MqttTask.Event.isTick := by
  intro out
  obtain ⟨past, x, h⟩ := MqttTask.held_run events
  obtain ⟨talks, hconn, hp, hsent, hup⟩ := h.talks
  refine ⟨talks, hconn, hp, ?_, hup.trans h.uplinks, ?_⟩
  · rw [← MqttTask.messages_flatMap, hsent, MqttTask.messages_flatMap]
    exact h.outbound
  · rw [hsent]
    have := h.pings
    omega

end RelayStar

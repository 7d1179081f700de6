import Mathlib.Data.List.ReduceOption
import RelayStar.Proof.MqttTask

/-!
# The event loop within the MQTT task

From the answer to the `SUBSCRIBE` on, the task is the event loop on what has
arrived by then, as long as the connection lasts (`Runs.step`). So all publications
on the uplink topic that the broker sends go to the mesh, each once and in order, if
nothing else is handled while a packet has arrived in part (`uplinks_delivered`).
-/

namespace RelayStar

open Spec (Incoming)

namespace MqttTask

/-- The event of the loop, on a connection whose writes do not fail. -/
def ofLoop : MqttEvent → Event
  | .arrive bytes => .arrive bytes
  | .outbound addr m => .outbound addr m
  | .tick => .tick
  | .poll => .poll none

/-- The event loop as the task enters it. -/
def entered (t : MqttTask) : MqttLoop := ⟨t.rx, Mqtt.readPublish PKT_BUF, t.mqttOut, t.ticks, [], false⟩

/-- What goes to the mesh of what `read_publish` returns. -/
def forMesh : Except Mqtt311Error (Option IncomingPublish) → Option (List UInt8)
  | .ok (some p) => uplink p
  | _ => none

/-- The task is in the event loop, or it has left the loop for a new connection;
`before` was written before the loop was entered. -/
inductive Runs (before : List UInt8) (t : MqttTask) (l : MqttLoop) : Prop
  | inside (hl : l.failed = false) (phase : t.phase = .running l.reading) (closed : t.closed = false) (rx : t.rx = l.rx)
      (mqttOut : t.mqttOut = l.mqttOut) (ticks : t.ticks = l.ticks) (tx : t.tx = before ++ l.tx)
  | left (hl : l.failed = true) (phase : t.phase = .offline) (tx : t.tx = before ++ l.tx)

variable {before : List UInt8} {t : MqttTask} {l : MqttLoop}

theorem Runs.poll (hl : l.failed = false) (phase : t.phase = .running l.reading) (closed : t.closed = false)
    (rx : t.rx = l.rx) (mqttOut : t.mqttOut = l.mqttOut) (ticks : t.ticks = l.ticks) (tx : t.tx = before ++ l.tx) :
    (t.poll none).1.bind uplink = l.poll.1.bind forMesh ∧ Runs before (t.poll none).2 l.poll.2 := by
  rw [MqttTask.poll, phase]
  dsimp only
  rw [pollRunning, MqttLoop.poll, hl, rx]
  simp only [Bool.false_eq_true, if_false]
  cases hfeed : l.reading.feed l.rx with
  | mk r rest =>
    cases r with
    | done p =>
      refine ⟨?_, .inside rfl rfl closed rfl mqttOut ticks tx⟩
      cases p <;> rfl
    | error e => exact ⟨rfl, .left rfl rfl tx⟩
    | wait k =>
      dsimp only
      rw [closed, mqttOut]
      cases hout : l.mqttOut with
      | cons c out =>
        dsimp only
        obtain ⟨bytes, hb⟩ := MqttLoop.publish_text c.2
        rw [hb]
        refine ⟨rfl, .inside rfl rfl rfl rfl rfl ticks ?_⟩
        show t.tx ++ bytes = before ++ (l.tx ++ bytes)
        rw [tx, List.append_assoc]
      | nil =>
        dsimp only
        rw [ticks]
        by_cases ht : l.ticks = 0
        · rw [if_pos ht, if_pos ht]
          exact ⟨rfl, .inside rfl rfl rfl rfl rfl rfl tx⟩
        · rw [if_neg ht, if_neg ht]
          refine ⟨rfl, .inside rfl rfl rfl rfl rfl rfl ?_⟩
          show t.tx ++ Mqtt.ping = before ++ (l.tx ++ Mqtt.ping)
          rw [tx, List.append_assoc]

/-- The task does what the loop does. -/
theorem Runs.step (h : Runs before t l) (e : MqttEvent) :
    (t.step (ofLoop e)).1 = (l.step e).1.bind forMesh ∧ Runs before (t.step (ofLoop e)).2 (l.step e).2 := by
  cases h with
  | inside hl phase closed rx mqttOut ticks tx =>
    have hconn : t.connected = true := by rw [connected, phase]
    cases e with
    | arrive bytes =>
      rw [ofLoop, MqttTask.step, hconn, closed]
      exact ⟨rfl, .inside hl phase rfl (congrArg (· ++ bytes) rx) mqttOut ticks tx⟩
    | outbound addr m => exact ⟨rfl, .inside hl phase closed rx (congrArg (· ++ [(addr, m)]) mqttOut) ticks tx⟩
    | tick => exact ⟨rfl, .inside hl phase closed rx mqttOut (congrArg (· + 1) ticks) tx⟩
    | poll => exact Runs.poll hl phase closed rx mqttOut ticks tx
  | left hl phase tx =>
    have hconn : t.connected = false := connected_iff.mpr (.inl phase)
    cases e with
    | arrive bytes =>
      rw [ofLoop, MqttTask.step, hconn]
      exact ⟨rfl, .left hl phase tx⟩
    | outbound addr m => exact ⟨rfl, .left hl phase tx⟩
    | tick => exact ⟨rfl, .left hl phase tx⟩
    | poll =>
      have hpoll : l.poll = (none, l) := by rw [MqttLoop.poll, if_pos hl]
      show (t.poll none).1.bind uplink = l.poll.1.bind forMesh ∧ Runs before (t.poll none).2 l.poll.2
      rw [hpoll, MqttTask.poll, phase]
      exact ⟨rfl, .left hl phase tx⟩

/-- What goes to the mesh in a run of these events. -/
def toMesh (t : MqttTask) (es : List MqttEvent) : List (List UInt8) :=
  (run step t (es.map ofLoop)).1.reduceOption

/-- It is what the event loop obtains. -/
theorem toMesh_eq (hphase : t.phase = .running (Mqtt.readPublish PKT_BUF)) (hopen : t.closed = false)
    (es : List MqttEvent) : t.toMesh es = (t.entered.obtained es).filterMap forMesh := by
  have hentered : Runs t.tx t t.entered := .inside rfl hphase hopen rfl rfl rfl (List.append_nil _).symm
  have h := @run_refines _ _ _ (fun t e => step t (ofLoop e)) _
    (fun l e => ((MqttLoop.step l e).1.bind forMesh, (MqttLoop.step l e).2)) _ (fun _ _ e h => h.step e) _ _ hentered es
  rw [toMesh, run_map, h.1, run_output MqttLoop.step (·.bind forMesh), MqttLoop.obtained, List.reduceOption,
    List.filterMap_map, List.filterMap_filterMap]
  rfl

end MqttTask

/-- What goes to the mesh of a packet of the broker. -/
def Spec.Incoming.uplink (p : Incoming) : Option (List UInt8) := p.content.bind MqttTask.uplink

/-- A connection is subscribed, and behind the answer to that the broker sends
packets that fit the buffer, of any types; no write fails, and nothing else is handled
while a packet has arrived in part. Then what goes to the mesh are the payloads of the
packets on the uplink topic, from the first packet on, in order and each once; and
once all packets have arrived, every further poll handles the next one. -/
theorem uplinks_delivered (t : MqttTask) (hphase : t.phase = .running (Mqtt.readPublish PKT_BUF))
    (hopen : t.closed = false) (ps : List Incoming) (hfit : ∀ p ∈ ps, p.packet.body.length ≤ PKT_BUF)
    (es : List MqttEvent) (rest : List UInt8)
    (harr : t.rx ++ (MqttLoop.arrived es ++ rest) = Spec.wires (ps.map Incoming.packet))
    (hes : t.entered.Undisturbed es) :
    ∃ k ≤ ps.length, t.toMesh es = (ps.take k).filterMap Incoming.uplink ∧
      (rest = [] → ∀ es', MqttLoop.arrived es' = [] →
        t.toMesh (es ++ es') = (ps.take (k + es'.count .poll)).filterMap Incoming.uplink) := by
  let todo := ps.map fun p => (p.packet.wire, p.content)
  have huplink (l : List Incoming) :
      (MqttLoop.carried (l.map fun p => (p.packet.wire, p.content))).filterMap MqttTask.forMesh =
        l.filterMap Incoming.uplink := by
    rw [MqttLoop.carried, List.map_map, List.filterMap_map]
    refine congrArg (l.filterMap ·) (funext fun p => ?_)
    cases h : p.content <;> simp [Incoming.uplink, MqttTask.forMesh, h]
  have h : MqttLoop.InSync todo (MqttLoop.arrived es ++ rest) t.entered := by
    refine ⟨rfl, fun c hc => ?_, [], Reader.feed_nil _, ?_⟩
    · obtain ⟨p, hp, rfl⟩ := List.mem_map.mp hc
      exact Mqtt.reads_incoming p (hfit p hp)
    · rw [List.flatMap_map, ← List.flatMap_map Incoming.packet]
      exact harr
  obtain ⟨k, hk, hgot, hall⟩ := h.run_drain hes
  refine ⟨k, by rwa [List.length_map] at hk, ?_, fun hrest es' hes' => ?_⟩
  · rw [MqttTask.toMesh_eq hphase hopen, hgot, ← List.map_take, huplink]
  · rw [MqttTask.toMesh_eq hphase hopen, hall hrest es' hes', ← List.map_take, huplink]

/-- A connection on which the broker accepts and answers the `SUBSCRIBE`. -/
def exampleHandshake : List MqttTask.Event :=
  [.tcp true none, .arrive [0x20, 2, 0, 0], .poll none, .arrive [0x90, 3, 0, 1, 0], .poll none]

theorem run_exampleHandshake : (run MqttTask.step .boot exampleHandshake).2 =
    ⟨.running (Mqtt.readPublish PKT_BUF), [], false, MqttTask.CONNECT ++ MqttTask.SUBSCRIBE, [], 0⟩ := by
  have hconnack : Mqtt.readConnack.feed [0x20, 2, 0, 0] = (.done (), []) := rfl
  have hsuback : Mqtt.readSuback.feed [0x90, 3, 0, 1, 0] = (.done (), []) := rfl
  simp only [exampleHandshake, run_cons, run_nil, MqttTask.boot, MqttTask.step, MqttTask.poll, MqttTask.write,
    MqttTask.connected, MqttTask.connect_self, MqttTask.subscribe_self, hconnack, hsuback, if_true, List.nil_append,
    Bool.not_false, Bool.and_self]

/-- The answer to a ping, and `hi` for the mesh. -/
def exampleIncoming : List Incoming := [.pingresp, .ofPublish examplePublish (by decide +kernel)]

/-- A ping is sent before they arrive in three chunks. -/
def exampleSession : List MqttEvent :=
  [.tick, .poll, .arrive [0xD0], .poll, .arrive (0x00 :: examplePublish.wire.take 5), .poll, .poll,
    .arrive (examplePublish.wire.drop 5), .poll]

theorem undisturbed_exampleSession : MqttLoop.Undisturbed .start exampleSession := by
  simp only [exampleSession, MqttLoop.undisturbed_cons, reduceCtorEq, false_implies, true_and, true_implies]
  refine ⟨fun h => h.2.1 ⟨rfl, rfl⟩, fun h => ?_, fun h => ?_, fun h => ?_, fun h => ?_, MqttLoop.undisturbed_nil _⟩
  all_goals exact h.1.elim (fun hn => hn rfl) (fun hn => hn rfl)

theorem uplinks_delivered_handshake :
    ∃ k ≤ exampleIncoming.length,
      (run MqttTask.step .boot exampleHandshake).2.toMesh exampleSession =
        (exampleIncoming.take k).filterMap Incoming.uplink ∧
      (([] : List UInt8) = [] → ∀ es', MqttLoop.arrived es' = [] →
        (run MqttTask.step .boot exampleHandshake).2.toMesh (exampleSession ++ es') =
          (exampleIncoming.take (k + es'.count .poll)).filterMap Incoming.uplink) :=
  uplinks_delivered _ (by rw [run_exampleHandshake]) (by rw [run_exampleHandshake]) exampleIncoming
    (by decide +kernel) exampleSession [] (by rw [run_exampleHandshake]; decide +kernel)
    (by rw [run_exampleHandshake]; exact undisturbed_exampleSession)

end RelayStar

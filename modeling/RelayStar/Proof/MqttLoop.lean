import RelayStar.Framework.Machine
import RelayStar.Impl.MqttLoop
import RelayStar.Proof.Mqtt

/-!
# The MQTT event loop and the packets of the broker

The broker sends packets, and their bytes arrive in any chunks. As long as nothing
else is handled while a packet has arrived in part, the loop obtains what they carry,
one after the other (`InSync.run`): what the pending `read_publish` has read and what
is unread begin at the next packet (`InSync`). For `PUBLISH` packets this is
`packets_in_sync`. When a tick is handled while a packet has arrived in part, what has
been read of it is lost, and the rest is taken for other packets (`packet_torn`).
-/

namespace RelayStar

open Spec (Publish)

namespace MqttLoop

/-- A message or a tick is to be handled. -/
def Contended (l : MqttLoop) : Prop := l.mqttOut ≠ [] ∨ l.ticks ≠ 0

/-- A packet has begun to arrive, and not all of it is there. -/
def Torn (l : MqttLoop) : Prop :=
  ¬ (l.reading = Mqtt.readPublish PKT_BUF ∧ l.rx = []) ∧ ∃ k, (l.reading.feed l.rx).1 = .wait k

/-- In the run nothing else is handled while a packet has arrived in part. -/
def Undisturbed (l : MqttLoop) (es : List MqttEvent) : Prop :=
  ∀ pre post, es = pre ++ .poll :: post → ¬ ((run step l pre).2.Contended ∧ (run step l pre).2.Torn)

/-- The bytes that arrive in a run. -/
def arrived (es : List MqttEvent) : List UInt8 :=
  es.flatMap fun | .arrive bytes => bytes | _ => []

/-- What the loop obtains from `read_publish` in a run. -/
def obtained (l : MqttLoop) (es : List MqttEvent) : List (Except Mqtt311Error (Option IncomingPublish)) :=
  (run step l es).1.filterMap id

/-- `read_publish` has read some bytes, and these, what is unread and what is
still to arrive are the packets to come: the bytes of each, and what is read from
them. -/
structure InSync (todo : List (List UInt8 × Option IncomingPublish)) (future : List UInt8) (l : MqttLoop) : Prop where
  running : l.failed = false
  reads : ∀ c ∈ todo, (Mqtt.readPublish PKT_BUF).Reads c.1 c.2
  stream : ∃ taken, (Mqtt.readPublish PKT_BUF).feed taken = (l.reading, []) ∧
    taken ++ (l.rx ++ future) = todo.flatMap Prod.fst

variable {todo : List (List UInt8 × Option IncomingPublish)} {future : List UInt8} {l : MqttLoop}

/-- What `read_publish` makes of the bytes that are there: it ends with the next
packet, or all bytes that are there begin that packet. -/
theorem InSync.feed (h : InSync todo future l) :
    (∃ c todo' rx, todo = c :: todo' ∧ l.reading.feed l.rx = (.done c.2, rx) ∧ rx ++ future = todo'.flatMap Prod.fst) ∨
      (∃ k, l.reading.feed l.rx = (.wait k, [])) ∧ (future = [] → todo = [] ∧ ¬ l.Torn) := by
  obtain ⟨taken, htaken, hstream⟩ := h.stream
  have hfeed : l.reading.feed l.rx = (Mqtt.readPublish PKT_BUF).feed (taken ++ l.rx) := by
    rw [Reader.feed_append, htaken, List.nil_append]
  rw [← List.append_assoc] at hstream
  cases todo with
  | nil =>
    obtain ⟨hnil, hfuture⟩ := List.append_eq_nil_iff.mp hstream
    obtain ⟨rfl, hrx⟩ := List.append_eq_nil_iff.mp hnil
    rw [Reader.feed_nil] at htaken
    refine Or.inr ⟨⟨_, by rw [hfeed, hnil, Reader.feed_nil]; rfl⟩, fun _ => ⟨rfl, fun ht => ht.1 ⟨?_, hrx⟩⟩⟩
    exact (Prod.mk.inj htaken).1.symm
  | cons c todo =>
    have hreads := h.reads c List.mem_cons_self
    rw [List.flatMap_cons] at hstream
    rcases prefix_append_cases ⟨future, hstream⟩ with ⟨hp, hne⟩ | ⟨rx, hrx, -⟩
    · obtain ⟨k, hk⟩ := hreads.wait hp hne
      refine Or.inr ⟨⟨k, hfeed.trans hk⟩, fun hf => ?_⟩
      rw [hf, List.append_nil] at hstream
      exact absurd (hp.eq_of_length_le (by rw [hstream, List.length_append]; omega)) hne
    · rw [hrx, List.append_assoc, List.append_cancel_left_eq] at hstream
      refine Or.inl ⟨c, todo, rx, rfl, ?_, hstream⟩
      rw [hfeed, hrx]
      exact hreads.feed rx

/-! ## One step -/

/-- A message of the mesh always fits an outbound packet. -/
theorem publish_text (m : Message) :
    ∃ bytes, Mqtt.publish TOPIC_DOWNLINK (asBytes (m.asText.getD "<binary>")) = .ok bytes := by
  have htext : (asBytes (m.asText.getD "<binary>")).length ≤ MAX_PAYLOAD := by
    cases h : m.asText with
    | none => decide +kernel
    | some s =>
      rw [Option.getD_some, asBytes_of_fromUtf8 h]
      exact m.payload.length_le
  have htopic : (asBytes TOPIC_DOWNLINK).length = 18 := by decide +kernel
  have hlen := Wire.length_putVarint_le 4 (Mqtt.beBytes (asBytes TOPIC_DOWNLINK).length ++
    (asBytes TOPIC_DOWNLINK ++ asBytes (m.asText.getD "<binary>"))).length
  refine ⟨_, (Mqtt.publish_eq _ _).trans (if_pos ?_)⟩
  rw [List.length_cons, List.length_append, List.length_append, List.length_append, htopic]
  rw [List.length_append, List.length_append, htopic] at hlen
  have hbe : (Mqtt.beBytes 18).length = 2 := rfl
  rw [hbe] at hlen ⊢
  simp only [MAX_PAYLOAD, Mqtt.OUT_BUF] at htext ⊢
  omega

/-- While `read_publish` waits, the loop handles a message or a tick, and starts
it over, or lets it go on. -/
theorem poll_wait (hl : l.failed = false) {k : UInt8 → Reader Mqtt311Error (Option IncomingPublish)}
    (h : l.reading.feed l.rx = (.wait k, [])) :
    l.poll.1 = none ∧ l.poll.2.failed = false ∧ l.poll.2.rx = [] ∧
      (l.Contended ∧ l.poll.2.reading = Mqtt.readPublish PKT_BUF ∨ ¬ l.Contended ∧ l.poll.2.reading = .wait k) := by
  unfold poll Contended
  rw [hl, h]
  simp only [Bool.false_eq_true, if_false]
  cases hout : l.mqttOut with
  | cons c out =>
    obtain ⟨bytes, hb⟩ := publish_text c.2
    simp only [hb]
    exact ⟨trivial, trivial, trivial, Or.inl ⟨Or.inl (List.cons_ne_nil _ _), trivial⟩⟩
  | nil =>
    by_cases ht : l.ticks = 0
    · simp only [if_pos ht]
      exact ⟨trivial, trivial, trivial, Or.inr ⟨fun hc => hc.elim (absurd rfl) (absurd ht), trivial⟩⟩
    · simp only [if_neg ht]
      exact ⟨trivial, trivial, trivial, Or.inl ⟨Or.inr ht, trivial⟩⟩

/-- A poll gives the next packet, or nothing; nothing only if not all of that
packet has arrived. -/
theorem InSync.step_poll (h : InSync todo future l) (hwhole : ¬ (l.Contended ∧ l.Torn)) :
    (∃ c todo', todo = c :: todo' ∧ (l.step .poll).1 = some (.ok c.2) ∧ InSync todo' future (l.step .poll).2) ∨
      (l.step .poll).1 = none ∧ InSync todo future (l.step .poll).2 ∧ (future = [] → todo = []) := by
  show (∃ c todo', todo = c :: todo' ∧ l.poll.1 = _ ∧ InSync todo' future l.poll.2) ∨
    l.poll.1 = none ∧ InSync todo future l.poll.2 ∧ _
  rcases h.feed with ⟨c, todo', rx, rfl, hfeed, hstream⟩ | ⟨⟨k, hfeed⟩, hall⟩
  · refine Or.inl ⟨c, todo', rfl, ?_⟩
    unfold poll
    rw [h.running, hfeed]
    exact ⟨rfl, rfl, fun c hc => h.reads c (List.mem_cons_of_mem _ hc), [], Reader.feed_nil _, hstream⟩
  · obtain ⟨hnone, hrun, hrx, hreading⟩ := poll_wait h.running hfeed
    obtain ⟨taken, htaken, hstream⟩ := h.stream
    refine Or.inr ⟨hnone, ⟨hrun, h.reads, ?_⟩, fun hf => (hall hf).1⟩
    rcases hreading with ⟨hc, hstart⟩ | ⟨-, hwait⟩
    · -- nothing of a packet was there to be lost
      have hfresh : l.reading = Mqtt.readPublish PKT_BUF ∧ l.rx = [] := by
        by_contra hn
        exact hwhole ⟨hc, hn, k, by rw [hfeed]⟩
      rw [hfresh.2] at hstream
      exact ⟨taken, by rw [htaken, hfresh.1, hstart], by rw [hrx]; exact hstream⟩
    · refine ⟨taken ++ l.rx, ?_, by rw [hrx, List.append_assoc]; exact hstream⟩
      rw [Reader.feed_append, htaken, List.nil_append, hfeed, hwait]

/-- Once all bytes have arrived no packet is there in part. -/
theorem InSync.not_torn (h : InSync todo [] l) : ¬ l.Torn := by
  rcases h.feed with ⟨c, todo', rx, -, hfeed, -⟩ | ⟨-, hall⟩
  · rintro ⟨-, k, hk⟩
    rw [hfeed] at hk
    cases hk
  · exact (hall rfl).2

/-- Nothing but a poll gives a packet, and what arrives is to be read. -/
theorem InSync.step {e : MqttEvent} (h : InSync todo (arrived [e] ++ future) l) (he : e ≠ .poll) :
    (l.step e).1 = none ∧ InSync todo future (l.step e).2 := by
  obtain ⟨taken, htaken, hstream⟩ := h.stream
  cases e with
  | arrive bytes =>
    refine ⟨rfl, h.running, h.reads, taken, htaken, ?_⟩
    rw [arrived, List.flatMap_singleton] at hstream
    show taken ++ ((l.rx ++ bytes) ++ future) = _
    rw [List.append_assoc]
    exact hstream
  | outbound addr m => exact ⟨rfl, h.running, h.reads, taken, htaken, hstream⟩
  | tick => exact ⟨rfl, h.running, h.reads, taken, htaken, hstream⟩
  | poll => exact absurd rfl he

/-! ## A run -/

/-- The packets, as the loop obtains them. -/
def carried (todo : List (List UInt8 × Option IncomingPublish)) : List (Except Mqtt311Error (Option IncomingPublish)) :=
  todo.map fun c => .ok c.2

/-- `PUBLISH` packets, as the loop obtains them. -/
def contents (ps : List Publish) : List (Except Mqtt311Error (Option IncomingPublish)) :=
  ps.map fun p => .ok (some p.content)

theorem arrived_cons (e : MqttEvent) (es : List MqttEvent) : arrived (e :: es) = arrived [e] ++ arrived es := by
  rw [arrived, List.flatMap_cons, arrived, arrived, List.flatMap_singleton]

theorem obtained_of_some {e : MqttEvent} {o : Except Mqtt311Error (Option IncomingPublish)}
    (h : (l.step e).1 = some o) (es : List MqttEvent) :
    obtained l (e :: es) = o :: obtained (l.step e).2 es := by
  rw [obtained, run_cons]
  exact List.filterMap_cons_some h

theorem obtained_of_none {e : MqttEvent} (h : (l.step e).1 = none) (es : List MqttEvent) :
    obtained l (e :: es) = obtained (l.step e).2 es := by
  rw [obtained, run_cons]
  exact List.filterMap_cons_none h

theorem obtained_append (l : MqttLoop) (es es' : List MqttEvent) :
    obtained l (es ++ es') = obtained l es ++ obtained (run step l es).2 es' := by
  rw [obtained, run_append, List.filterMap_append]
  rfl

theorem undisturbed_nil (l : MqttLoop) : Undisturbed l [] := fun pre _ h => by cases pre <;> cases h

theorem undisturbed_cons {e : MqttEvent} {es : List MqttEvent} :
    Undisturbed l (e :: es) ↔ (e = .poll → ¬ (l.Contended ∧ l.Torn)) ∧ Undisturbed (l.step e).2 es := by
  constructor
  · intro h
    exact ⟨fun he => h [] es (he ▸ rfl), fun pre post hes => h (e :: pre) post (congrArg (e :: ·) hes)⟩
  · rintro ⟨he, hes⟩ pre post h
    cases pre with
    | nil => exact he (List.cons.inj h).1
    | cons e' pre =>
      obtain ⟨rfl, h'⟩ := List.cons.inj h
      exact hes pre post h'

/-- A run in which nothing is handled while a packet is there in part gives the
next packets. -/
theorem InSync.run {es : List MqttEvent} (h : InSync todo (arrived es ++ future) l) (hes : Undisturbed l es) :
    ∃ k ≤ todo.length, obtained l es = carried (todo.take k) ∧
      InSync (todo.drop k) future (RelayStar.run MqttLoop.step l es).2 := by
  induction es generalizing todo l with
  | nil => exact ⟨0, Nat.zero_le _, rfl, h⟩
  | cons e es ih =>
    obtain ⟨hwhole, hes⟩ := undisturbed_cons.mp hes
    rw [arrived_cons, List.append_assoc] at h
    by_cases he : e = .poll
    · subst he
      rcases h.step_poll (hwhole rfl) with ⟨c, todo', rfl, hout, h'⟩ | ⟨hout, h', -⟩
      · obtain ⟨k, hk, hgot, hsync⟩ := ih h' hes
        refine ⟨k + 1, Nat.succ_le_succ hk, ?_, hsync⟩
        rw [obtained_of_some hout]
        exact congrArg _ hgot
      · obtain ⟨k, hk, hgot, hsync⟩ := ih h' hes
        exact ⟨k, hk, by rw [obtained_of_none hout]; exact hgot, hsync⟩
    · obtain ⟨hout, h'⟩ := h.step he
      obtain ⟨k, hk, hgot, hsync⟩ := ih h' hes
      exact ⟨k, hk, by rw [obtained_of_none hout]; exact hgot, hsync⟩

/-- Once all bytes have arrived every poll gives one more packet, whatever else
is to be handled. -/
theorem InSync.drain {es : List MqttEvent} (h : InSync todo [] l) (hes : arrived es = []) :
    obtained l es = carried (todo.take (es.count .poll)) := by
  induction es generalizing todo l with
  | nil => rfl
  | cons e es ih =>
    rw [arrived_cons] at hes
    obtain ⟨he, hes⟩ := List.append_eq_nil_iff.mp hes
    by_cases hp : e = .poll
    · subst hp
      rw [List.count_cons_self]
      rcases h.step_poll (fun hc => h.not_torn hc.2) with ⟨c, todo', rfl, hout, h'⟩ | ⟨hout, h', hall⟩
      · rw [obtained_of_some hout]
        exact congrArg _ (ih h' hes)
      · rw [obtained_of_none hout, ih h' hes, hall rfl, List.take_nil, List.take_nil]
    · have h : InSync todo (arrived [e] ++ []) l := by rw [he]; exact h
      obtain ⟨hout, h'⟩ := h.step hp
      rw [obtained_of_none hout, ih h' hes, List.count_cons_of_ne hp]

/-- Both parts of a run: before and after all bytes have arrived. -/
theorem InSync.run_drain {es : List MqttEvent} (h : InSync todo (arrived es ++ future) l) (hes : Undisturbed l es) :
    ∃ k ≤ todo.length, obtained l es = carried (todo.take k) ∧
      (future = [] → ∀ es', arrived es' = [] →
        obtained l (es ++ es') = carried (todo.take (k + es'.count .poll))) := by
  obtain ⟨k, hk, hgot, hsync⟩ := h.run hes
  refine ⟨k, hk, hgot, fun hf es' hes' => ?_⟩
  subst hf
  rw [obtained_append, hgot, hsync.drain hes', List.take_add, carried, carried, carried, List.map_append]

end MqttLoop

/-- The broker sends packets that fit the buffer, and in the run nothing else is
handled while one of them has arrived in part. Then the loop obtains the packets,
from the first on, and nothing else; and once they have all arrived, every
further poll gives the next one, until there is none left. -/
theorem packets_in_sync (ps : List Publish) (hfit : ∀ p ∈ ps, p.body.length ≤ PKT_BUF) (es : List MqttEvent)
    (rest : List UInt8) (harr : MqttLoop.arrived es ++ rest = ps.flatMap Publish.wire)
    (hes : MqttLoop.Undisturbed .start es) :
    ∃ k ≤ ps.length, MqttLoop.obtained .start es = MqttLoop.contents (ps.take k) ∧
      (rest = [] → ∀ es', MqttLoop.arrived es' = [] →
        MqttLoop.obtained .start (es ++ es') = MqttLoop.contents (ps.take (k + es'.count .poll))) := by
  let todo := ps.map fun p => (p.wire, some p.content)
  have hcarried (l : List Publish) : MqttLoop.carried (l.map fun p => (p.wire, some p.content)) = MqttLoop.contents l :=
    List.map_map ..
  have h : MqttLoop.InSync todo (MqttLoop.arrived es ++ rest) .start := by
    refine ⟨rfl, fun c hc => ?_, [], Reader.feed_nil _, ?_⟩
    · obtain ⟨p, hp, rfl⟩ := List.mem_map.mp hc
      exact Mqtt.reads_publish p (hfit p hp) (Nat.lt_of_le_of_lt (hfit p hp) (by decide))
    · rw [List.flatMap_map]
      exact harr
  obtain ⟨k, hk, hgot, hall⟩ := h.run_drain hes
  refine ⟨k, by rwa [List.length_map] at hk, by rw [hgot, ← List.map_take, hcarried], fun hrest es' hes' => ?_⟩
  rw [hall hrest es' hes', ← List.map_take, hcarried]

/-- `hi` for the mesh. -/
def examplePublish : Publish where
  first := 0x30
  topic := "relaystar/uplink"
  payload := [104, 105]
  type_eq := by decide
  topic_lt := by decide +kernel

/-- A tick is handled before the packet arrives in two chunks. -/
def exampleEvents : List MqttEvent :=
  [.tick, .poll, .arrive (examplePublish.wire.take 5), .poll, .arrive (examplePublish.wire.drop 5), .poll]

theorem undisturbed_exampleEvents : MqttLoop.Undisturbed .start exampleEvents := by
  simp only [exampleEvents, MqttLoop.undisturbed_cons, reduceCtorEq, false_implies, true_and, true_implies]
  refine ⟨fun h => h.2.1 ⟨rfl, rfl⟩, fun h => ?_, fun h => ?_, MqttLoop.undisturbed_nil _⟩
  · exact h.1.elim (fun hn => hn rfl) (fun hn => hn rfl)
  · exact h.1.elim (fun hn => hn rfl) (fun hn => hn rfl)

theorem packets_in_sync_chunks :
    ∃ k ≤ [examplePublish].length,
      MqttLoop.obtained .start exampleEvents = MqttLoop.contents ([examplePublish].take k) ∧
      (([] : List UInt8) = [] → ∀ es', MqttLoop.arrived es' = [] →
        MqttLoop.obtained .start (exampleEvents ++ es') =
          MqttLoop.contents ([examplePublish].take (k + es'.count .poll))) :=
  packets_in_sync [examplePublish] (by decide +kernel) exampleEvents [] (by decide +kernel) undisturbed_exampleEvents

/-- A tick is handled when one byte of the packet has been read: the next byte is
taken for the first one of a packet, and the packet is never obtained. -/
theorem packet_torn :
    MqttLoop.arrived [.arrive (examplePublish.wire.take 1), .tick, .poll, .arrive (examplePublish.wire.drop 1), .poll,
        .poll, .poll] = [examplePublish].flatMap Publish.wire ∧
      (∀ p ∈ [examplePublish], p.body.length ≤ PKT_BUF) ∧
      MqttLoop.obtained .start [.arrive (examplePublish.wire.take 1), .tick, .poll,
        .arrive (examplePublish.wire.drop 1), .poll, .poll, .poll] = [.ok none] := by
  decide +kernel

end RelayStar

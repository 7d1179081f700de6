import Mathlib.Algebra.Order.BigOperators.Group.Finset
import RelayStar.Framework.Machine
import RelayStar.Impl.Card
import RelayStar.Proof.Outbound

/-!
# The channels between the tasks

Whatever order the tasks of the terminal run in, a received frame is ingested
once, in its turn among those of its transport, and a frame that was queued is
taken once, in its turn (`frames_conserved`). A frame is dropped on the way out
only where its queue is full (`dropped_full`). Nothing that the transmitters do
is needed to ingest what was received: at most 14 moves of the loops and of the
bridge are left for it (`inbound_settles`).
-/

namespace RelayStar

namespace Bridge

variable {NR NA NF : Nat}

/-! ## One turn -/

/-- The relay after a turn, and the frames that are put into the queues. -/
theorem turn_eq (b : Bridge NR NA NF) (raw : RawFrame) :
    (b.turn raw).relay = (b.relay.bridgeStep raw.source raw.bytes.toList).2 ∧
      ∀ t, (b.turn raw).queue t =
        ((b.relay.bridgeStep raw.source raw.bytes.toList).1.2.foldl enqueue b).queue t := by
  have hfan (b b' : Bridge NR NA NF) (r : Relay NR NA NF) (hr : b'.relay = r) (hq : ∀ t, b'.queue t = b.queue t)
      (msg : Message) (skip : Transport) :
      (b'.fanoutForward msg skip).relay = (r.fanoutForward msg skip).2 ∧
        ∀ t, (b'.fanoutForward msg skip).queue t = ((r.fanoutForward msg skip).1.foldl enqueue b).queue t := by
    subst hr
    rw [fanoutForward, fanoutTargets_eq]
    refine ⟨rfl, fun t => ?_⟩
    rw [queue_withRelay]
    apply HVec.ext
    rw [queue_foldl_enqueue, queue_foldl_enqueue, hq]
    rfl
  rw [turn, Relay.bridgeStep]
  cases b.relay.ingest raw.source raw.bytes.toList with
  | mk res r =>
    have hq (t : Transport) : ({ b with relay := r } : Bridge NR NA NF).queue t = b.queue t := by cases t <;> rfl
    cases res with
    | error e => exact ⟨rfl, hq⟩
    | ok o =>
      cases o with
      | complete msg =>
        have hq' (line : DisplayLine) (t : Transport) :
            ({ b with relay := r, uiIn := trySend b.uiIn line } : Bridge NR NA NF).queue t = b.queue t := by
          cases t <;> rfl
        dsimp only
        split
        · exact hfan b _ r rfl (hq' _) msg raw.source
        · exact ⟨rfl, hq' _⟩
      | notForMe msg => exact hfan b _ r rfl hq msg raw.source
      | duplicate => exact ⟨rfl, hq⟩
      | buffered => exact ⟨rfl, hq⟩
      | dropped reason => exact ⟨rfl, hq⟩

theorem sendLocalText_eq (b : Bridge NR NA NF) (text : String) :
    (b.sendLocalText text).relay = (b.relay.planSend .text (asBytes text) .broadcast).2 ∧
      ∀ t, (b.sendLocalText text).queue t =
        ((Relay.plannedFrames (b.relay.planSend .text (asBytes text) .broadcast).1).foldl enqueue b).queue t := by
  refine ⟨?_, fun t => HVec.ext (by rw [queue_sendLocalText, queue_foldl_enqueue])⟩
  have hrelay (l : List PlannedFrame) (b : Bridge NR NA NF) : (l.foldl enqueue b).relay = b.relay := by
    induction l generalizing b with
    | nil => rfl
    | cons f l ih =>
      rw [List.foldl_cons, ih]
      obtain ⟨t, addr, m⟩ := f
      cases t <;> rfl
  rw [sendLocalText]
  cases b.relay.planSend .text (asBytes text) .broadcast with
  | mk res r =>
    cases res with
    | error e => rfl
    | ok plan =>
      dsimp only
      rw [hrelay]
      split <;> rfl

theorem dequeue_eq {b b' : Bridge NR NA NF} {t : Transport} {f : OutFrame} (h : b.dequeue t = some (f, b')) :
    (b.queue t).toList = f :: (b'.queue t).toList ∧ b'.relay = b.relay ∧ ∀ t', t' ≠ t → b'.queue t' = b.queue t' := by
  cases t <;>
  · obtain ⟨⟨f', q⟩, hpop, heq⟩ := Option.map_eq_some_iff.mp h
    cases heq
    refine ⟨HVec.popFront_eq_some.mp hpop, rfl, fun t' ht => ?_⟩
    cases t' <;> first | rfl | exact absurd rfl ht

theorem uplinkFrame_queue (b : Bridge NR NA NF) (text : String) (t : Transport) :
    (b.uplinkFrame text).2.queue t = b.queue t := by
  have hq : ({ b with relay := b.relay.nextId.2 } : Bridge NR NA NF).queue t = b.queue t := by cases t <;> rfl
  rw [uplinkFrame]
  dsimp only
  split
  · exact hq
  · split
    · exact hq
    · split <;> exact hq

theorem relay_uplinkFrame (b : Bridge NR NA NF) (text : String) : (b.uplinkFrame text).2.relay = b.relay.nextId.2 := by
  rw [uplinkFrame]
  dsimp only
  split
  · rfl
  · split
    · rfl
    · split <;> rfl

theorem source_uplinkFrame {b : Bridge NR NA NF} {text : String} {raw : RawFrame}
    (h : (b.uplinkFrame text).1 = some raw) : raw.source = .mqtt := by
  rw [uplinkFrame] at h
  dsimp only at h
  split at h
  · cases h
  · split at h
    · cases h
    · split at h
      · cases h
      · cases h
        rfl

end Bridge

namespace Card

variable {NR NA NF : Nat}

/-! ## What is seen -/

/-- The frames that the loop of a transport has for the relay. -/
def received (es : List Effect) : List RawFrame := es.filterMap fun | .received raw => some raw | _ => none

def ingested (es : List Effect) : List RawFrame := es.filterMap fun | .ingested raw => some raw | _ => none

/-- The frames that are put into the queue of a transport. -/
def queuedFor (t : Transport) (es : List Effect) : List OutFrame :=
  es.filterMap fun
    | .queued f => if f.transport = t then some (f.addr, f.message) else none
    | _ => none

/-- The frames that the loop of a transport takes. -/
def takenFor (t : Transport) (es : List Effect) : List OutFrame :=
  es.filterMap fun
    | .taken t' f => if t' = t then some f else none
    | _ => none

theorem enqueued_cons (f : PlannedFrame) (fs : List PlannedFrame) (b : Bridge NR NA NF) :
    enqueued (f :: fs) b =
      (if ((b.queue f.transport).push (f.addr, f.message)).isNone then .dropped f else .queued f) ::
        enqueued fs (b.enqueue f) := by
  obtain ⟨t, addr, m⟩ := f
  cases t <;> rfl

/-- The frames that find room are in their queue, in order. -/
theorem queue_enqueued (fs : List PlannedFrame) (b : Bridge NR NA NF) (t : Transport) :
    ((fs.foldl Bridge.enqueue b).queue t).toList = (b.queue t).toList ++ queuedFor t (enqueued fs b) := by
  induction fs generalizing b with
  | nil => exact (List.append_nil _).symm
  | cons f fs ih =>
    rw [List.foldl_cons, ih, enqueued_cons, Bridge.queue_enqueue, trySend]
    cases hp : (b.queue f.transport).push (f.addr, f.message) with
    | none =>
      split
      · rename_i ht
        subst ht
        rw [hp]
        rfl
      · rfl
    | some q =>
      rw [HVec.push_eq_some] at hp
      by_cases ht : f.transport = t
      · subst ht
        rw [if_pos rfl, HVec.push_eq_some.mpr hp, Option.getD_some, hp, List.append_assoc]
        simp [queuedFor]
      · rw [if_neg ht]
        simp [queuedFor, ht]

theorem enqueued_cases {fs : List PlannedFrame} {b : Bridge NR NA NF} {e : Effect} (h : e ∈ enqueued fs b) :
    (∃ f ∈ fs, e = .queued f) ∨ ∃ f ∈ fs, e = .dropped f ∧ ((fs.foldl Bridge.enqueue b).queue f.transport).len = 8 := by
  induction fs generalizing b with
  | nil => cases h
  | cons f fs ih =>
    rw [enqueued_cons] at h
    rcases List.mem_cons.mp h with rfl | h
    · split
      · rename_i hfull
        refine .inr ⟨f, List.mem_cons_self, rfl, ?_⟩
        rw [Option.isNone_iff_eq_none, HVec.push_eq, HVec.extendFromSlice_eq_none, List.length_append,
          List.length_singleton] at hfull
        rw [HVec.len, Bridge.queue_foldl_enqueue, List.length_take, List.length_append]
        omega
      · exact .inl ⟨f, List.mem_cons_self, rfl⟩
    · rcases ih h with ⟨f', hf', rfl⟩ | ⟨f', hf', rfl, hlen⟩
      · exact .inl ⟨f', List.mem_cons_of_mem _ hf', rfl⟩
      · exact .inr ⟨f', List.mem_cons_of_mem _ hf', rfl, hlen⟩

/-- Putting frames into the queues is seen as nothing else. -/
theorem enqueued_only (fs : List PlannedFrame) (b : Bridge NR NA NF) :
    received (enqueued fs b) = [] ∧ ingested (enqueued fs b) = [] ∧ ∀ t, takenFor t (enqueued fs b) = [] := by
  refine ⟨?_, ?_, fun t => ?_⟩ <;>
  · refine List.filterMap_eq_nil_iff.mpr fun e he => ?_
    rcases enqueued_cases he with ⟨f, -, rfl⟩ | ⟨f, -, rfl, -⟩ <;> rfl

/-! ## One step -/

/-- The frame that the loop of a transport has after an event. -/
inductive Arrives (c : Card NR NA NF) : Event → RawFrame → Prop
  | lora (raw : RawFrame) (h : raw.source = .lora) : Arrives c (.loraRx raw.bytes.toList) raw
  | espNow (raw : RawFrame) (h : raw.source = .espNow) : Arrives c (.espnowRx raw.bytes.toList) raw
  | uplink {payload : List UInt8} {raw : RawFrame}
      (h : (c.bridge.uplinkFrame ((fromUtf8 payload).getD "<binary>")).1 = some raw) : Arrives c (.uplink payload) raw

/-- Only the bridge and the user put frames into the queues, and only the bridge
ingests. -/
inductive Outcome (c : Card NR NA NF) : Event → List Effect × Card NR NA NF → Prop
  | bridge {raw : RawFrame} {inbound : Mailbox Transport RawFrame 8} (h : c.inbound.take = some (raw, inbound)) :
      Outcome c .bridge
        (.ingested raw :: enqueued (c.bridge.relay.bridgeStep raw.source raw.bytes.toList).1.2 c.bridge,
          ⟨c.bridge.turn raw, inbound⟩)
  | compose (text : String) : Outcome c (.compose text)
      (enqueued (Relay.plannedFrames (c.bridge.relay.planSend .text (asBytes text) .broadcast).1) c.bridge,
        { c with bridge := c.bridge.sendLocalText text })
  | other {e : Event} {es : List Effect} {c' : Card NR NA NF}
      (hes : ∀ x ∈ es, (∃ raw, x = .received raw ∧ Arrives c e raw) ∨ (∃ t f, x = .taken t f) ∨ ∃ line, x = .shown line)
      (hrelay : c.bridge.relay.OnlyIds c'.bridge.relay) : Outcome c e (es, c')

theorem outcome_receive (c : Card NR NA NF) {e : Event} {t : Transport} {data : List UInt8}
    (h : ∀ raw : RawFrame, raw.source = t → raw.bytes.toList = data → Arrives c e raw) :
    Outcome c e (c.receive t data) := by
  rw [receive]
  split
  · exact .other (by simp) (.refl _)
  · split
    · exact .other (by simp) (.refl _)
    · rename_i bytes hb
      have hdata : bytes.toList = data := by simpa using HVec.extendFromSlice_eq_some.mp hb
      exact .other (by simpa using h ⟨t, bytes⟩ rfl hdata) (.refl _)

theorem outcome_step (c : Card NR NA NF) (e : Event) : Outcome c e (c.step e) := by
  cases e with
  | loraRx data => exact c.outcome_receive fun raw hs hb => hb ▸ .lora raw hs
  | espnowRx data => exact c.outcome_receive fun raw hs hb => hb ▸ .espNow raw hs
  | uplink payload =>
    rw [step]
    have hrelay := c.bridge.relay_uplinkFrame ((fromUtf8 payload).getD "<binary>")
    split
    · exact .other (by simp) (.refl _)
    · split
      · rename_i bridge hu
        rw [hu] at hrelay
        exact .other (by simp) (hrelay ▸ .nextId _)
      · rename_i raw bridge hu
        rw [hu] at hrelay
        exact .other (by simpa using Arrives.uplink (congrArg Prod.fst hu)) (hrelay ▸ .nextId _)
  | deposit t =>
    rw [step]
    split <;> exact .other (by simp) (.refl _)
  | bridge =>
    rw [step]
    split
    · exact .other (by simp) (.refl _)
    · rename_i raw inbound htake
      exact .bridge htake
  | transmit t =>
    rw [step]
    split
    · exact .other (by simp) (.refl _)
    · split
      · exact .other (by simp) (.refl _)
      · rename_i f bridge hd
        exact .other (by simpa using ⟨f.1, f.2, rfl⟩) ⟨c.bridge.relay.idCtr, (Bridge.dequeue_eq hd).2.1⟩
  | compose text => exact .compose text
  | display =>
    rw [step]
    split <;> exact .other (by simp) (.refl _)

/-! ## Conservation -/

/-- What was received is ingested or on its way to the relay, and what was queued
is taken or in its queue. -/
structure Conserved (es : List Effect) (c : Card NR NA NF) : Prop where
  inbound : Mailbox.Ledger RawFrame.source (received es) (ingested es) c.inbound
  outbound : ∀ t, queuedFor t es = takenFor t es ++ (c.bridge.queue t).toList

namespace Conserved

variable {es : List Effect} {c : Card NR NA NF}

theorem received_one {raw : RawFrame} {c' : Card NR NA NF} (h : Conserved es c)
    (hi : c.inbound.waiting raw.source = none) (hin : c'.inbound = c.inbound.offer raw.source raw)
    (hout : ∀ t, c'.bridge.queue t = c.bridge.queue t) : Conserved (es ++ [.received raw]) c' := by
  refine ⟨?_, fun t => ?_⟩
  · have := h.inbound.offer hi rfl
    simpa [received, ingested, hin] using this
  · simpa [queuedFor, takenFor, hout t] using h.outbound t

theorem unseen {c' : Card NR NA NF} (h : Conserved es c) (hin : Mailbox.Ledger RawFrame.source (received es)
    (ingested es) c'.inbound) (hout : ∀ t, c'.bridge.queue t = c.bridge.queue t) : Conserved (es ++ []) c' := by
  rw [List.append_nil]
  exact ⟨hin, fun t => by rw [hout t]; exact h.outbound t⟩

/-- Frames are put into the queues. -/
theorem enqueue {fs : List PlannedFrame} {b : Bridge NR NA NF} (h : Conserved es c)
    (hb : ∀ t, b.queue t = (fs.foldl Bridge.enqueue c.bridge).queue t) :
    Conserved (es ++ enqueued fs c.bridge) { c with bridge := b } := by
  obtain ⟨hr, hi, ht⟩ := enqueued_only fs c.bridge
  refine ⟨?_, fun t => ?_⟩
  · rw [received, ingested, List.filterMap_append, List.filterMap_append, show List.filterMap _ _ = [] from hr,
      show List.filterMap _ (enqueued fs c.bridge) = [] from hi, List.append_nil, List.append_nil]
    exact h.inbound
  · have hq := queue_enqueued fs c.bridge t
    rw [queuedFor, takenFor, List.filterMap_append, List.filterMap_append,
      show List.filterMap _ (enqueued fs c.bridge) = [] from ht t, List.append_nil, hb t, hq, ← List.append_assoc]
    exact congrArg (· ++ _) (h.outbound t)

theorem receive (h : Conserved es c) (t : Transport) (data : List UInt8) :
    Conserved (es ++ (c.receive t data).1) (c.receive t data).2 := by
  rw [Card.receive]
  split
  · exact h.unseen h.inbound fun _ => rfl
  · rename_i hw
    split
    · exact h.unseen h.inbound fun _ => rfl
    · exact h.received_one (by simpa using hw) rfl fun _ => rfl

theorem uplink (h : Conserved es c) (payload : List UInt8) :
    Conserved (es ++ (c.step (.uplink payload)).1) (c.step (.uplink payload)).2 := by
  rw [Card.step]
  split
  · exact h.unseen h.inbound fun _ => rfl
  · rename_i hw
    have hq := c.bridge.uplinkFrame_queue ((fromUtf8 payload).getD "<binary>")
    split
    · rename_i bridge hu
      rw [hu] at hq
      exact h.unseen h.inbound hq
    · rename_i raw bridge hu
      rw [hu] at hq
      have hsource := Bridge.source_uplinkFrame (congrArg Prod.fst hu)
      exact h.received_one (by rw [hsource]; simpa using hw) (by rw [hsource]) hq

theorem bridge (h : Conserved es c) : Conserved (es ++ (c.step .bridge).1) (c.step .bridge).2 := by
  rw [Card.step]
  split
  · exact h.unseen h.inbound fun _ => rfl
  · rename_i raw inbound htake
    have hing : Conserved (es ++ [.ingested raw]) { c with inbound } := by
      refine ⟨?_, fun t => ?_⟩
      · have := h.inbound.take htake
        simpa [received, ingested] using this
      · simpa [queuedFor, takenFor] using h.outbound t
    have := hing.enqueue (c.bridge.turn_eq raw).2
    rwa [List.append_assoc, List.singleton_append] at this

theorem transmit (h : Conserved es c) (t : Transport) :
    Conserved (es ++ (c.step (.transmit t)).1) (c.step (.transmit t)).2 := by
  rw [Card.step]
  split
  · exact h.unseen h.inbound fun _ => rfl
  · split
    · exact h.unseen h.inbound fun _ => rfl
    · rename_i f bridge hd
      obtain ⟨hq, -, hother⟩ := Bridge.dequeue_eq hd
      refine ⟨by simpa [received, ingested] using h.inbound, fun t' => ?_⟩
      have hout := h.outbound t'
      by_cases ht : t' = t
      · subst ht
        rw [hq] at hout
        simpa [queuedFor, takenFor] using hout
      · simpa [queuedFor, takenFor, Ne.symm ht, hother t' ht] using hout

theorem step (h : Conserved es c) (e : Event) : Conserved (es ++ (c.step e).1) (c.step e).2 := by
  cases e with
  | loraRx data => exact h.receive .lora data
  | espnowRx data => exact h.receive .espNow data
  | uplink payload => exact h.uplink payload
  | deposit t =>
    rw [Card.step]
    split
    · exact h.unseen h.inbound fun _ => rfl
    · rename_i inbound hdep
      exact h.unseen (h.inbound.deposit hdep) fun _ => rfl
  | bridge => exact h.bridge
  | transmit t => exact h.transmit t
  | compose text => exact h.enqueue (c.bridge.sendLocalText_eq text).2
  | display =>
    rw [Card.step]
    split
    · exact h.unseen h.inbound fun _ => rfl
    · rename_i line uiIn _
      refine ⟨by simpa [received, ingested] using h.inbound, fun t => ?_⟩
      have hq : ({ c.bridge with uiIn } : Bridge NR NA NF).queue t = c.bridge.queue t := by cases t <;> rfl
      simpa [queuedFor, takenFor, hq] using h.outbound t

end Conserved

/-- What is seen of a run from the start, and the state after it. -/
def life (events : List Event) : List Effect × Card NR NA NF :=
  ((run step (boot : Card NR NA NF) events).1.flatten, (run step (boot : Card NR NA NF) events).2)

theorem conserved_life (events : List Event) :
    Conserved (life events : List Effect × Card NR NA NF).1 (life events : List Effect × Card NR NA NF).2 := by
  refine @run_history _ _ _ step (fun _ os c => Conserved os.flatten c) (fun _ os c e h => ?_) boot ?_ events
  · rw [List.flatten_append, List.flatten_singleton]
    exact h.step e
  · exact ⟨.empty, fun t => by cases t <;> rfl⟩

/-- A frame is dropped only in a step that leaves its queue full. -/
theorem dropped_full (c : Card NR NA NF) (e : Event) (f : PlannedFrame) (h : .dropped f ∈ (c.step e).1) :
    ((c.step e).2.bridge.queue f.transport).len = 8 := by
  have hfull {fs : List PlannedFrame} {b : Bridge NR NA NF} (hf : .dropped f ∈ enqueued fs b) :
      ((fs.foldl Bridge.enqueue b).queue f.transport).len = 8 := by
    rcases enqueued_cases hf with ⟨f', -, heq⟩ | ⟨f', -, heq, hlen⟩
    · cases heq
    · cases heq
      exact hlen
  have hstep := c.outcome_step e
  generalize c.step e = x at h hstep ⊢
  cases hstep with
  | @bridge raw inbound htake =>
    rcases List.mem_cons.mp h with heq | h
    · cases heq
    · show ((c.bridge.turn raw).queue f.transport).len = 8
      rw [(c.bridge.turn_eq raw).2]
      exact hfull h
  | compose text =>
    show ((c.bridge.sendLocalText text).queue f.transport).len = 8
    rw [(c.bridge.sendLocalText_eq text).2]
    exact hfull h
  | other hes hrelay =>
    rcases hes _ h with ⟨raw, heq, -⟩ | ⟨t, f, heq⟩ | ⟨line, heq⟩ <;> cases heq

end Card

/-- In every run of the tasks, in any order: of the frames that a transport has
received, the first have been ingested, in order and each once, and the others are
on their way to the relay, at most nine; of those that were put into its queue, the
first have been taken, in order and each once, and the others are in the queue. A
frame is dropped only where eight frames are in its queue. -/
theorem frames_conserved {NR NA NF : Nat} (events : List Card.Event) (t : Transport) :
    let es := (Card.life events : List Card.Effect × Card NR NA NF).1
    let c := (Card.life events : List Card.Effect × Card NR NA NF).2
    (∃ onTheWay, (Card.received es).filter (·.source = t) = (Card.ingested es).filter (·.source = t) ++ onTheWay ∧
      onTheWay = c.inbound.queue.toList.filter (·.source = t) ++ (c.inbound.waiting t).toList ∧
      onTheWay.length ≤ 9) ∧
    Card.queuedFor t es = Card.takenFor t es ++ (c.bridge.queue t).toList ∧
    ∀ e f, .dropped f ∈ (c.step e).1 → ((c.step e).2.bridge.queue f.transport).len = 8 := by
  intro es c
  have h := @Card.conserved_life NR NA NF events
  refine ⟨⟨_, h.inbound.balance t, rfl, ?_⟩, h.outbound t, c.dropped_full⟩
  have hqueue : (c.inbound.queue.toList.filter (·.source = t)).length ≤ 8 :=
    Nat.le_trans (List.length_filter_le ..) c.inbound.queue.length_le
  have hwait : (c.inbound.waiting t).toList.length ≤ 1 := by cases c.inbound.waiting t <;> simp
  rw [List.length_append]
  exact Nat.add_le_add hqueue hwait

namespace Card

variable {NR NA NF : Nat}

instance : Fintype Transport := ⟨⟨Transport.ALL, by decide⟩, fun t => by cases t <;> decide⟩

/-- A step that brings a received frame nearer to the relay: its loop puts it into
`INBOUND_RAW`, or the bridge ingests it. -/
inductive Inner (c : Card NR NA NF) : Card NR NA NF → Prop
  | deposit (t : Transport) (h : (c.inbound.deposit t).isSome) : Inner c (c.step (.deposit t)).2
  | bridge (h : c.inbound.take.isSome) : Inner c (c.step .bridge).2

theorem Inner.work_lt {c c' : Card NR NA NF} (h : Inner c c') : c'.inbound.work < c.inbound.work := by
  cases h with
  | deposit t h =>
    obtain ⟨q, hq⟩ := Option.isSome_iff_exists.mp h
    have := Mailbox.work_deposit hq
    simp only [step, hq]
    omega
  | bridge h =>
    obtain ⟨⟨raw, q⟩, hq⟩ := Option.isSome_iff_exists.mp h
    have := Mailbox.work_take hq
    simp only [step, hq]
    omega

/-- A move of a transmitter or of the user interface. -/
def Event.Outer : Event → Prop
  | .transmit _ => True
  | .compose _ => True
  | .display => True
  | _ => False

/-- It does not touch what is on its way to the relay. -/
theorem inbound_outer (c : Card NR NA NF) {e : Event} (he : e.Outer) : (c.step e).2.inbound = c.inbound := by
  cases e with
  | transmit t =>
    rw [step]
    split
    · rfl
    · split <;> rfl
  | compose text => rfl
  | display =>
    rw [step]
    split <;> rfl
  | _ => exact he.elim

/-- A step of `Inner`, after any moves of the transmitters and the user interface. -/
def Nearer (c c' : Card NR NA NF) : Prop := ∃ es, (∀ e ∈ es, Event.Outer e) ∧ Inner (run step c es).2 c'

theorem Nearer.work_lt {c c' : Card NR NA NF} (h : Nearer c c') : c'.inbound.work < c.inbound.work := by
  obtain ⟨es, hes, hinner⟩ := h
  have hsame : (run step c es).2.inbound = c.inbound :=
    @run_inv _ _ _ step (fun c' => c'.inbound = c.inbound) Event.Outer
      (fun c' _ he h => (c'.inbound_outer he).trans h) c es hes rfl
  rw [← hsame]
  exact hinner.work_lt

/-- Where no such step is possible, no frame is on its way to the relay. -/
theorem inbound_empty {c : Card NR NA NF} (h : ∀ c', ¬ Inner c c') :
    c.inbound.queue.toList = [] ∧ ∀ t, c.inbound.waiting t = none := by
  refine Mailbox.idle_of_stuck (by decide) ?_ fun t => ?_
  · rw [← Option.not_isSome_iff_eq_none]
    exact fun hs => h _ (.bridge hs)
  · rw [← Option.not_isSome_iff_eq_none]
    exact fun hs => h _ (.deposit t hs)

end Card

/-- From any state of any run, the loops and the bridge alone ingest everything
that was received, in at most 14 steps and whichever of them goes first, whatever
the transmitters and the user interface do or do not do in between: no task waits
for ever, and no frame does. -/
theorem inbound_settles {NR NA NF : Nat} (events : List Card.Event) :
    let es := (Card.life events : List Card.Effect × Card NR NA NF).1
    let c := (Card.life events : List Card.Effect × Card NR NA NF).2
    (∀ k c', Steps Card.Nearer k c c' → k ≤ 14) ∧
    ((∀ c', ¬ Card.Inner c c') →
      ∀ t, (Card.received es).filter (·.source = t) = (Card.ingested es).filter (·.source = t)) := by
  intro es c
  constructor
  · intro k c' h
    have hlen := h.length_le (f := fun c => c.inbound.work) fun _ _ h => h.work_lt
    have hqueue : c.inbound.queue.len ≤ 8 := c.inbound.queue.length_le
    have hwait : (∑ t, if (c.inbound.waiting t).isSome then 2 else 0) ≤ ∑ t : Transport, 2 :=
      Finset.sum_le_sum fun t _ => by split <;> omega
    have hthree : (∑ t : Transport, 2) = 6 := rfl
    have hwork : c.inbound.work = c.inbound.queue.len + ∑ t, if (c.inbound.waiting t).isSome then 2 else 0 := rfl
    omega
  · intro h t
    obtain ⟨hqueue, hwait⟩ := Card.inbound_empty h
    have := (@Card.conserved_life NR NA NF events).inbound.balance t
    rw [hqueue, hwait t] at this
    simpa using this

end RelayStar

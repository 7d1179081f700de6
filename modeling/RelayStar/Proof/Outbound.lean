import RelayStar.Proof.Bridge

/-!
# The queues of the transports

A queue takes the frames of a plan one by one as long as there is room
(`queue_foldl_enqueue`), in the order they were planned (`plannedFor`). These are
none, one, or the two slices of a message on LoRa (`PartsFor.inSeqOrder`). So a
queue is as before or longer by all of them, but for one case: where there are two
slices and one place, it gets the first slice only (`queued_in_order`).
-/

namespace RelayStar

/-- The frames of a plan for one transport. -/
def plannedFor (t : Transport) (frames : List PlannedFrame) : List OutFrame :=
  (frames.filter (·.transport = t)).map fun f => (f.addr, f.message)

theorem plannedFor_cons (t : Transport) (f : PlannedFrame) (l : List PlannedFrame) :
    plannedFor t (f :: l) = if f.transport = t then (f.addr, f.message) :: plannedFor t l else plannedFor t l := by
  simp only [plannedFor, List.filter_cons, decide_eq_true_eq]
  split
  · rfl
  · rfl

theorem plannedFor_append (t : Transport) (l l' : List PlannedFrame) :
    plannedFor t (l ++ l') = plannedFor t l ++ plannedFor t l' := by
  rw [plannedFor, List.filter_append, List.map_append]
  rfl

/-- The frames of one transport are those of this transport and of no other. -/
theorem plannedFor_frames (t t' : Transport) (addr : FrameAddr) (l : List Message) :
    plannedFor t (l.map (⟨t', addr, ·⟩)) = if t' = t then l.map (addr, ·) else [] := by
  induction l with
  | nil => exact (ite_self _).symm
  | cons m l ih =>
    rw [List.map_cons, plannedFor_cons, ih]
    split
    · rfl
    · rfl

namespace Bridge

variable {NR NA NF : Nat}

def queue (b : Bridge NR NA NF) : Transport → OutChannel
  | .lora => b.loraOut
  | .mqtt => b.mqttOut
  | .espNow => b.espnowOut

theorem queue_enqueue (b : Bridge NR NA NF) (f : PlannedFrame) (t : Transport) :
    (b.enqueue f).queue t = if f.transport = t then trySend (b.queue t) (f.addr, f.message) else b.queue t := by
  obtain ⟨t', addr, m⟩ := f
  cases t' <;> cases t <;> rfl

/-- A queue has what was in it and what was planned for it, as far as there is
room. -/
theorem queue_foldl_enqueue (l : List PlannedFrame) (b : Bridge NR NA NF) (t : Transport) :
    ((l.foldl enqueue b).queue t).toList = ((b.queue t).toList ++ plannedFor t l).take 8 := by
  rw [← HVec.toList_foldl_push_take]
  congr 1
  induction l generalizing b with
  | nil => rfl
  | cons f l ih =>
    rw [List.foldl_cons, ih, queue_enqueue, plannedFor_cons]
    split
    · rfl
    · rfl

/-- The same queues, and another relay. -/
def withRelay (b : Bridge NR NA NF) (r : Relay NR NA NF) : Bridge NR NA NF := { b with relay := r }

@[simp] theorem relay_withRelay (b : Bridge NR NA NF) (r : Relay NR NA NF) : (b.withRelay r).relay = r := rfl

@[simp] theorem withRelay_withRelay (b : Bridge NR NA NF) (r r' : Relay NR NA NF) :
    (b.withRelay r).withRelay r' = b.withRelay r' := rfl

theorem queue_withRelay (b : Bridge NR NA NF) (r : Relay NR NA NF) (t : Transport) :
    (b.withRelay r).queue t = b.queue t := by
  cases t <;> rfl

/-- The relay takes no part in the queues. -/
theorem foldl_enqueue_withRelay (l : List PlannedFrame) (b : Bridge NR NA NF) (r : Relay NR NA NF) :
    l.foldl enqueue (b.withRelay r) = (l.foldl enqueue b).withRelay r := by
  induction l generalizing b with
  | nil => rfl
  | cons f l ih =>
    rw [List.foldl_cons, List.foldl_cons, ← ih]
    congr 1
    obtain ⟨t, addr, m⟩ := f
    cases t <;> rfl

/-- Forwarding puts what the relay forwards into the queues. -/
theorem fanoutTargets_eq (msg : Message) (skip : Transport) (ts : List Transport) (b : Bridge NR NA NF) :
    fanoutTargets msg skip ts b =
      ((Relay.fanoutTargets msg skip ts b.relay).1.foldl enqueue b).withRelay
        (Relay.fanoutTargets msg skip ts b.relay).2 := by
  induction ts generalizing b with
  | nil => rfl
  | cons t ts ih =>
    rw [fanoutTargets, Relay.fanoutTargets]
    split
    · exact ih b
    · obtain ⟨out, hout, -⟩ := b.relay.planForward_total msg t
      cases hp : b.relay.planForward msg t with
      | mk res r =>
        rw [hp] at hout
        obtain rfl : res = .ok out := hout
        show fanoutTargets msg skip ts (out.toList.foldl enqueue (b.withRelay r)) = _
        simp only [ih, foldl_enqueue_withRelay, relay_withRelay, withRelay_withRelay, Relay.plannedFrames,
          List.foldl_append]

theorem queue_fanoutForward (b : Bridge NR NA NF) (msg : Message) (skip t : Transport) :
    ((b.fanoutForward msg skip).queue t).toList =
      ((b.queue t).toList ++ plannedFor t (b.relay.fanoutForward msg skip).1).take 8 := by
  rw [← queue_foldl_enqueue, fanoutForward, fanoutTargets_eq, queue_withRelay]
  rfl

theorem queue_sendLocalText (b : Bridge NR NA NF) (text : String) (t : Transport) :
    ((b.sendLocalText text).queue t).toList =
      ((b.queue t).toList ++
        plannedFor t (Relay.plannedFrames (b.relay.planSend .text (asBytes text) .broadcast).1)).take 8 := by
  rw [sendLocalText]
  cases b.relay.planSend .text (asBytes text) .broadcast with
  | mk res r =>
    cases res with
    | error e =>
      show _ = ((b.queue t).toList ++ []).take 8
      rw [List.append_nil, List.take_of_length_le (b.queue t).length_le]
      cases t <;> rfl
    | ok plan =>
      dsimp only
      rw [queue_foldl_enqueue]
      cases plan.toList.head? with
      | none => cases t <;> rfl
      | some first => cases t <;> rfl

end Bridge

/-! ## The frames for one transport -/

/-- At most one frame, or the two slices of a group in their order. -/
def InSeqOrder (t : Transport) (frames : List OutFrame) : Prop :=
  frames.length ≤ 1 ∨
    t = .lora ∧ ∃ x y g, frames = [x, y] ∧ x.2.frag = some ⟨g, 0, 2⟩ ∧ y.2.frag = some ⟨g, 1, 2⟩

theorem inSeqOrder_nil (t : Transport) : InSeqOrder t [] := .inl (Nat.zero_le 1)

theorem inSeqOrder_framesOn (m : Message) (t : Transport) (g : UInt32) (addr : FrameAddr) :
    InSeqOrder t ((m.framesOn t g).map (addr, ·)) := by
  rw [Message.framesOn]
  split
  · rename_i h
    exact .inr ⟨h.2.1, _, _, g, rfl, rfl, rfl⟩
  · exact .inl (Nat.le_refl 1)

/-- Frames for one transport and for no other. -/
def PartFor (t : Transport) (part : List PlannedFrame) : Prop :=
  InSeqOrder t (plannedFor t part) ∧ ∀ t', t ≠ t' → plannedFor t' part = []

theorem partFor_nil (t : Transport) : PartFor t [] := ⟨inSeqOrder_nil t, fun _ _ => rfl⟩

theorem partFor_framesOn (m : Message) (t : Transport) (g : UInt32) (addr : FrameAddr) :
    PartFor t ((m.framesOn t g).map (⟨t, addr, ·⟩)) := by
  refine ⟨?_, fun t' hne => ?_⟩
  · rw [plannedFor_frames, if_pos rfl]
    exact inSeqOrder_framesOn ..
  · rw [plannedFor_frames, if_neg hne]

theorem PartFor.inSeqOrder {t' : Transport} {part : List PlannedFrame} (h : PartFor t' part) (t : Transport) :
    InSeqOrder t (plannedFor t part) := by
  by_cases ht : t' = t
  · subst ht
    exact h.1
  · rw [h.2 t ht]
    exact inSeqOrder_nil t

/-- Frames for the targets one by one. -/
inductive PartsFor : List Transport → List PlannedFrame → Prop
  | nil : PartsFor [] []
  | cons {t ts part l} (h : PartFor t part) (hl : PartsFor ts l) : PartsFor (t :: ts) (part ++ l)

section PartsFor

variable {ts : List Transport} {l : List PlannedFrame} {t : Transport}

/-- Nothing is planned but for the targets. -/
theorem PartsFor.plannedFor_of_notMem (h : PartsFor ts l) (ht : t ∉ ts) : plannedFor t l = [] := by
  induction h with
  | nil => rfl
  | cons h _ ih =>
    obtain ⟨hne, ht⟩ := not_or.mp (mt List.mem_cons.mpr ht)
    rw [plannedFor_append, h.2 t (Ne.symm hne), ih ht]
    rfl

/-- What is planned for a transport is planned in one part. -/
theorem PartsFor.inSeqOrder (h : PartsFor ts l) (hnd : ts.Nodup) : InSeqOrder t (plannedFor t l) := by
  induction h with
  | nil => exact inSeqOrder_nil t
  | @cons t' ts part l h hl ih =>
    obtain ⟨hnt, hnd⟩ := List.nodup_cons.mp hnd
    rw [plannedFor_append]
    by_cases ht : t' = t
    · subst ht
      rw [hl.plannedFor_of_notMem hnt, List.append_nil]
      exact h.1
    · rw [h.2 t ht, List.nil_append]
      exact ih hnd

end PartsFor

theorem Message.partsFor_plan (m : Message) (addr : FrameAddr) (g : UInt32) (ts : List Transport) :
    PartsFor ts (m.plan addr g ts) := by
  induction ts with
  | nil => exact .nil
  | cons t ts ih => exact .cons (partFor_framesOn ..) ih

namespace Relay

variable {NR NA NF : Nat} {skip : Transport} {msg : Message}

/-- The frames for one target. -/
theorem partFor_planForward (r : Relay NR NA NF) (msg : Message) (t : Transport) :
    PartFor t (plannedFrames (r.planForward msg t).1) := by
  by_cases h : msg.ttl = 0
  · rw [(r.plannedFrames_eq_nil_iff msg t).mpr h]
    exact partFor_nil t
  · obtain ⟨out, hp, hout⟩ := r.planForward_relayed h t
    rw [hp, plannedFrames, hout]
    exact partFor_framesOn ..

theorem partsFor_fanoutTargets (ts : List Transport) (r : Relay NR NA NF) :
    PartsFor ts (fanoutTargets msg skip ts r).1 := by
  induction ts generalizing r with
  | nil => exact .nil
  | cons t ts ih =>
    rw [fanoutTargets]
    split
    · exact .cons (partFor_nil t) (ih r)
    · exact .cons (r.partFor_planForward msg t) (ih _)

end Relay

/-! ## The queues -/

/-- A queue before and after some frames are put into it. -/
def Queued (t : Transport) (frames : List OutFrame) (q q' : OutChannel) : Prop :=
  q'.toList = (q.toList ++ frames).take 8 ∧
    (q' = q ∨ q'.toList = q.toList ++ frames ∨
      t = .lora ∧ q.len = 7 ∧ ∃ x y g, frames = [x, y] ∧ x.2.frag = some ⟨g, 0, 2⟩ ∧ y.2.frag = some ⟨g, 1, 2⟩ ∧
        q'.toList = q.toList ++ [x])

theorem queued_of_take {t : Transport} {frames : List OutFrame} {q q' : OutChannel} (h : InSeqOrder t frames)
    (hq : q'.toList = (q.toList ++ frames).take 8) : Queued t frames q q' := by
  refine ⟨hq, ?_⟩
  have hle : q.toList.length ≤ 8 := q.length_le
  by_cases hfit : (q.toList ++ frames).length ≤ 8
  · exact .inr (.inl (by rw [hq, List.take_of_length_le hfit]))
  · rw [List.length_append] at hfit
    by_cases hfull : q.toList.length = 8
    · exact .inl (HVec.ext (by rw [hq, List.take_left' hfull]))
    · apply h.elim
      · intro hone
        omega
      · rintro ⟨ht, x, y, g, rfl, hx, hy⟩
        have hseven : (q.toList ++ [x]).length = 8 := by
          rw [List.length_cons, List.length_singleton] at hfit
          rw [List.length_append, List.length_singleton]
          omega
        refine .inr (.inr ⟨ht, ?_, x, y, g, rfl, hx, hy, ?_⟩)
        · rw [List.length_append, List.length_singleton] at hseven
          exact Nat.succ.inj hseven
        · rw [hq, show q.toList ++ [x, y] = (q.toList ++ [x]) ++ [y] by rw [List.append_assoc]; rfl,
            List.take_left' hseven]

/-- The queue of a transport after a message is forwarded, to all targets or to one
of them in whatever state the one before left, or sent: the frames that are
planned for it come in order after what was in the queue, as far as there is room;
all of them or none, but for the first of two slices where there is one place
left. -/
theorem queued_in_order {NR NA NF : Nat} (b : Bridge NR NA NF) (t : Transport) :
    (∀ msg skip, Queued t (plannedFor t (b.relay.fanoutForward msg skip).1) (b.queue t)
      ((b.fanoutForward msg skip).queue t)) ∧
    (∀ msg target, Queued t (plannedFor t (Relay.plannedFrames (b.relay.planForward msg target).1)) (b.queue t)
      (((Relay.plannedFrames (b.relay.planForward msg target).1).foldl Bridge.enqueue b).queue t)) ∧
    ∀ text, Queued t (plannedFor t (Relay.plannedFrames (b.relay.planSend .text (asBytes text) .broadcast).1))
      (b.queue t) ((b.sendLocalText text).queue t) := by
  refine ⟨fun msg skip => ?_, fun msg target => ?_, fun text => ?_⟩
  · exact queued_of_take ((Relay.partsFor_fanoutTargets ..).inSeqOrder (by decide)) (b.queue_fanoutForward msg skip t)
  · exact queued_of_take ((b.relay.partFor_planForward msg target).inSeqOrder t) (Bridge.queue_foldl_enqueue _ b t)
  · refine queued_of_take ?_ (b.queue_sendLocalText text t)
    cases hp : (b.relay.planSend .text (asBytes text) .broadcast).1 with
    | error e => exact inSeqOrder_nil t
    | ok out =>
      obtain ⟨p, g, ts, -, hnd, -, hout⟩ := Relay.planSend_ok hp
      rw [Relay.plannedFrames, hout]
      exact (Message.partsFor_plan ..).inSeqOrder hnd

/-- A bridge with one place left in the queue of LoRa. -/
def crowded : Bridge 1 1 2 where
  relay := .new (nodeAddr 2) 512
  loraOut := ⟨List.replicate 7 (.broadcast, exampleHello), by decide⟩
  mqttOut := .empty
  espnowOut := .empty
  uiIn := .empty

/-- It queues the first of two slices, and not the second. -/
theorem half_queued :
    let before := crowded.queue .lora
    let after := (crowded.fanoutForward Fragmenter.exampleLong .mqtt).queue .lora
    let planned := plannedFor .lora (crowded.relay.fanoutForward Fragmenter.exampleLong .mqtt).1
    before.len = 7 ∧ planned.length = 2 ∧ after.len = 8 ∧
      ¬ (after = before ∨ after.toList = before.toList ++ planned) := by
  intro before after planned
  have hbefore : before.len = 7 := rfl
  have hplanned : planned.length = 2 := by decide +kernel
  have hafter : after.len = 8 := by decide +kernel
  refine ⟨hbefore, hplanned, hafter, ?_⟩
  rintro (h | h)
  · rw [h, hbefore] at hafter
    cases hafter
  · rw [HVec.len, h, List.length_append, hplanned, show before.toList.length = 7 from hbefore] at hafter
    cases hafter

end RelayStar

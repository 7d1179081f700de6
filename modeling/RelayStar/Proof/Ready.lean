import RelayStar.Proof.Delivery

/-!
# Delivery on one transport

The frames of a message on one transport arrive at a relay that may hold slices
of other messages. It is enough that it knows none of the frames and, if they are
slices, that a slot is free and none has their group (`Relay.Ready`): the message
is handed over once (`Ready.delivered_framesOn`).
-/

namespace RelayStar

namespace Relay

variable {NR NA NF : Nat} {r : Relay NR NA NF} {frames : List PlannedFrame}

/-- A relay that has not seen any of the frames, and has a slot for the slices
among them. -/
structure Ready (r : Relay NR NA NF) (frames : List PlannedFrame) : Prop where
  unseen : ∀ f ∈ frames, r.seen.contains f.message.dedupKey = false
  slices : ∀ f ∈ frames, ∀ h ∈ f.message.frag, 2 ≤ NF ∧ r.reassembler.inFlight < NA ∧
    ∀ s ∈ r.reassembler.slots, s.inUse = true → s.groupId ≠ h.groupId

theorem Fresh.ready (h : r.Fresh frames) : r.Ready frames where
  unseen := h.unseen
  slices f _ hd _ := by
    refine ⟨h.perSlot.1, ?_, fun s hs hu => ?_⟩
    · rw [h.idle]
      exact h.slots
    · rw [Reassembler.not_inUse_of_idle h.idle hs] at hu
      cases hu

variable {m : Message} {t : Transport} {g : UInt32} {addr : FrameAddr} {l : List (Transport × Message)}

theorem plan_single : m.plan addr g [t] = (Message.framesOn { m with origin := t } t g).map (⟨t, addr, ·⟩) :=
  List.flatMap_singleton ..

/-- Both slices of a message that the relay has a slot for arrive. -/
theorem delivered_slices (hI : r.reassembler.Inv) (hm : m.frag = none) (hNF : 2 ≤ NF)
    (hroom : r.reassembler.inFlight < NA)
    (hg : ∀ s ∈ r.reassembler.slots, s.inUse = true → s.groupId ≠ g)
    (hun : ∀ c ∈ l, r.seen.contains (callKey c) = false)
    (hl : ∀ c, c ∈ l ↔ c = (t, (m.halves g).frame 0) ∨ c = (t, (m.halves g).frame 1)) :
    (run receive r l).1.filterMap delivered = [{ m with origin := t }] := by
  have hkey0 : callKey (t, (m.halves g).frame 0) = m.key0 := Message.dedupKey_of_zero rfl
  have hkey1 : callKey (t, (m.halves g).frame 1) = m.key1 := rfl
  have hkey : ∀ c ∈ l, callKey c = m.key0 ∨ callKey c = m.key1 := fun c hc => by
    rcases (hl c).mp hc with rfl | rfl
    · exact .inl hkey0
    · exact .inr hkey1
  have hfirst0 : l.find? (callKey · = m.key0) = some (t, (m.halves g).frame 0) :=
    find?_of_unique ((hl _).mpr (.inl rfl)) hkey0 fun c hc hk =>
      ((hl c).mp hc).resolve_right fun h => key0_ne_key1 m (by rw [← hk, h, hkey1])
  have hfirst1 : l.find? (callKey · = m.key1) = some (t, (m.halves g).frame 1) :=
    find?_of_unique ((hl _).mpr (.inr rfl)) hkey1 fun c hc hk =>
      ((hl c).mp hc).resolve_left fun h => key0_ne_key1 m (by rw [← hk, h, hkey0])
  have hboth {k : Nat} (hk : k < 2) :
      (run Reassembler.receive r.reassembler
        [(t, (m.halves g).frame k), (t, (m.halves g).frame (1 - k))]).1.filterMap ReassembleOutcome.delivered =
          [{ m with origin := t }] := by
    rw [(run_halves hI hNF (Reassembler.table_eq_none hg _) (decide_eq_true hroom) hk t t).1,
      Message.whole_halves (show Message.frag { m with origin := t } = none from hm)]
    rfl
  rw [r.delivered_copies hkey hun]
  rcases firsts_two (key0_ne_key1 m) hkey with h | h
  · rw [h, hfirst0, hfirst1]
    exact hboth (by decide : 0 < 2)
  · rw [h, hfirst0, hfirst1]
    exact hboth (by decide : 1 < 2)

/-- The frames of a message on one transport arrive, in any order and any number
of times, at a relay that is ready for them: the message is handed over once. -/
theorem Ready.delivered_framesOn (hI : r.reassembler.Inv) (hm : m.frag = none)
    (hr : r.Ready ((m.framesOn t g).map (⟨t, addr, ·⟩)))
    (hl : ∀ c, c ∈ l ↔ c ∈ calls ((m.framesOn t g).map (⟨t, addr, ·⟩))) :
    (run receive r l).1.filterMap delivered = [{ m with origin := t }] := by
  have hun : ∀ c ∈ l, r.seen.contains (callKey c) = false := fun c hc => by
    obtain ⟨f, hf, rfl⟩ := List.mem_map.mp ((hl c).mp hc)
    exact hr.unseen f hf
  by_cases hs : m.IsSplit t
  · rw [Message.framesOn, if_pos hs, Message.frames_halves] at hr hl
    obtain ⟨hNF, hroom, hg⟩ := hr.slices _ List.mem_cons_self _ rfl
    exact delivered_slices hI hm hNF hroom hg hun fun c => (hl c).trans List.mem_pair
  · rw [Message.framesOn, if_neg hs] at hl
    have hl : ∀ c, c ∈ l ↔ c = (t, m) := fun c => (hl c).trans List.mem_singleton
    have hwhole : callKey (t, m) = m.key0 := by rw [callKey, Message.dedupKey, hm]; rfl
    have hkey : ∀ c ∈ l, callKey c = m.key0 := fun c hc => (hl c).mp hc ▸ hwhole
    have hfirst : l.find? (callKey · = m.key0) = some (t, m) :=
      find?_of_unique ((hl _).mpr rfl) hwhole fun c hc _ => (hl c).mp hc
    rw [r.delivered_copies (fun c hc => .inl (hkey c hc)) hun,
      firsts_one List.not_mem_nil fun c hc => .inr (hkey c hc), hfirst, Option.toList_some, run_cons, run_nil]
    rw [show Reassembler.receive r.reassembler (t, m) = (.passthrough { m with origin := t }, r.reassembler) from
      r.reassembler.ingest_unfragmented (m := m.arrived t) hm]
    rfl

end Relay

end RelayStar

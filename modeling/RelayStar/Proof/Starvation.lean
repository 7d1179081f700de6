import RelayStar.Proof.Forwarding
import RelayStar.Proof.Reachable

/-!
# When a relay can still reassemble

In every reachable state, a split message that is new to the relay is
reassembled exactly when a slot is free (`reassembles_iff`). Nothing in the
relay frees the slot of a group that stays incomplete, so lost slices take the
slots one after the other.
-/

namespace RelayStar

namespace Relay

variable {NR NA NF : Nat} {r : Relay NR NA NF}

/-- Two frames of new keys are given to the reassembler one after the other. -/
theorem run_receive_two {c c' : Transport × Message} (hc : r.seen.contains (callKey c) = false)
    (hc' : r.seen.contains (callKey c') = false) (hne : callKey c' ≠ callKey c) :
    (run receive r [c, c']).1 =
      (run Reassembler.receive r.reassembler [c, c']).1.map fun o => .ok (r.outcome o) := by
  rw [← Bool.not_eq_true, SeenCache.contains_iff] at hc hc'
  obtain ⟨h1, hB⟩ := (Behind.refl r).new List.not_mem_nil hc
  obtain ⟨h2, -⟩ := hB.new (by rw [List.mem_singleton]; exact hne) hc'
  simp only [run_cons, run_nil, List.map_cons, List.map_nil, h1, h2]

end Relay

section Halves

variable {SLOTS PER_SLOT : Nat} {r : Reassembler SLOTS PER_SLOT} {m : Message} {g : UInt32}

/-- With no free slot both slices are dropped. -/
theorem run_halves_full (hI : r.Inv) (hP : 2 ≤ PER_SLOT) (hT : r.table (m.halves g).key = none)
    (hroom : r.room = false) {k : Nat} (hk : k < 2) (t t' : Transport) :
    (run Reassembler.receive r [(t, (m.halves g).frame k), (t', (m.halves g).frame (1 - k))]).1 =
      [.dropped .noSlot, .dropped .noSlot] := by
  have hlen : (m.halves g).slices.length ≤ min PER_SLOT 64 := Nat.le_min.mpr ⟨hP, (by decide : 2 ≤ 64)⟩
  have hdrop : ∀ t j, j < 2 → r.receive (t, (m.halves g).frame j) = (.dropped .noSlot, r) := fun t j hj =>
    Reassembler.ingest_noSlot hI (f := (m.halves g).fragment j) rfl (Spec.Group.headerOk hlen hj) hT hroom
  simp only [run_cons, run_nil, hdrop t k hk, hdrop t' (1 - k) (by omega)]

end Halves

/-- The slices of a message that is new to a relay are ingested one right after
the other, in either order and from any transports: the second call hands the
message over exactly if a slot was free before. -/
theorem reassembles_iff {NR NA NF : Nat} (hNF : 2 ≤ NF ∧ NF ≤ 64) (r : Relay NR NA NF) (hr : r.Reachable)
    (m : Message) (hm : m.frag = none) (hlen : 181 ≤ m.payload.len) (g : UInt32)
    (hg : ∀ s ∈ r.reassembler.slots, s.inUse = true → s.groupId ≠ g) (frames : HVec Message MAX_FRAGMENTS)
    (hsplit : Fragmenter.split m .lora g = .ok frames)
    (hun : ∀ f ∈ frames.toList, r.seen.contains f.dedupKey = false) (a b : Message)
    (hab : frames.toList = [a, b] ∨ frames.toList = [b, a]) (t t' : Transport) :
    (run Relay.receive r [(t, a), (t', b)]).1[1]? = some (.ok (r.direct { m with origin := t })) ↔
      r.reassembler.inFlight < NA := by
  have hI := Relay.reachable_inv hr
  have hT : r.reassembler.table (m.halves g).key = none := Reassembler.table_eq_none hg _
  obtain ⟨out, hout, hframes⟩ := Fragmenter.split_eq m .lora g
  obtain rfl : out = frames := Except.ok.inj (hout.symm.trans hsplit)
  rw [Message.framesOn, if_pos ⟨hm, rfl, hlen⟩, Message.frames_halves] at hframes
  obtain ⟨k, hk, rfl, rfl⟩ : ∃ k < 2, a = (m.halves g).frame k ∧ b = (m.halves g).frame (1 - k) := by
    rcases hab with h | h <;> rw [hframes] at h <;> cases h
    · exact ⟨0, by decide, rfl, rfl⟩
    · exact ⟨1, by decide, rfl, rfl⟩
  have hmem : ∀ j < 2, (m.halves g).frame j ∈ out.toList := fun j hj => by
    rw [hframes, ← Message.frames_halves]; exact Spec.Group.mem_frames.mpr ⟨j, hj, rfl⟩
  rw [Relay.run_receive_two (hun _ (hmem k hk)) (hun _ (hmem (1 - k) (by omega))) (callKey_halves_ne hk t t')]
  by_cases hroom : r.reassembler.room = true
  · rw [(run_halves hI hNF.1 hT hroom hk t t').1,
      Message.whole_halves (show Message.frag { m with origin := t } = none from hm)]
    exact ⟨fun _ => of_decide_eq_true hroom, fun _ => rfl⟩
  · rw [run_halves_full hI hNF.1 hT (Bool.not_eq_true _ ▸ hroom) hk t t']
    refine ⟨fun h => ?_, fun h => absurd (decide_eq_true h) hroom⟩
    have h : Except.ok (IngestOutcome.dropped .noSlot) = Except.ok (r.direct { m with origin := t }) :=
      Option.some.inj h
    have := r.delivered_direct { m with origin := t }
    rw [← h] at this
    cases this

def exampleSlices : HVec Message MAX_FRAGMENTS :=
  match Fragmenter.split exampleMessage .lora 2048 with
  | .ok out => out
  | .error _ => .empty

theorem reassembles_iff_new :
    (run Relay.receive (Relay.new (nodeAddr 2) 512 : Relay 1 1 2)
        [(.lora, (exampleMessage.halves 2048).frame 1), (.lora, (exampleMessage.halves 2048).frame 0)]).1[1]? =
      some (.ok ((Relay.new (nodeAddr 2) 512 : Relay 1 1 2).direct { exampleMessage with origin := .lora })) ↔
    (Relay.new (nodeAddr 2) 512 : Relay 1 1 2).reassembler.inFlight < 1 :=
  reassembles_iff (by decide) (Relay.new (nodeAddr 2) 512 : Relay 1 1 2) ⟨_, _, _, .start⟩ exampleMessage rfl
    (by decide +kernel) 2048 (by decide +kernel) exampleSlices (by decide +kernel)
    (fun _ _ => SeenCache.contains_new _) ((exampleMessage.halves 2048).frame 1)
    ((exampleMessage.halves 2048).frame 0) (Or.inr (by decide +kernel)) .lora .lora

/-- A relay with one slot, after slice 0 of a message of which slice 1 is lost. -/
def starvedRelay : Relay 1 1 2 :=
  (Relay.ingest (.new (nodeAddr 2) 512) .lora
    (Spec.Group.frame (Message.halves { exampleMessage with id := 6 } 1024) 0).wire).2

/-- It drops both slices of the next message. -/
theorem starvedRelay_drops :
    starvedRelay.Reachable ∧ (∀ s ∈ starvedRelay.reassembler.slots, s.inUse = true → s.groupId ≠ 2048) ∧
      Fragmenter.split exampleMessage .lora 2048 = .ok exampleSlices ∧
      (∀ f ∈ exampleSlices.toList, starvedRelay.seen.contains f.dedupKey = false) ∧
      (run Relay.receive starvedRelay (exampleSlices.toList.map fun f => (.lora, f))).1 =
        [.ok (.dropped .noSlot), .ok (.dropped .noSlot)] :=
  ⟨⟨_, _, _, .ingest .start _ _⟩, by decide +kernel, by decide +kernel, by decide +kernel, by decide +kernel⟩

end RelayStar

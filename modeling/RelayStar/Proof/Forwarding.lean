import Mathlib.Data.List.Find
import RelayStar.Proof.Delivery

/-!
# Two relays forward one message

Two relays cut the same message in two slices for LoRa, each with a group id of
its own. Their slices have the same two keys, so a receiver looks at the first
slice 0 and the first slice 1 that arrive, whichever group they are of, and
answers `Duplicate` to the others: the message is handed over exactly when
these two are of one group (`forwarded_twice_iff`).
-/

namespace RelayStar

/-- The group id of a slice. -/
def callGroup (c : Transport × Message) : Option UInt32 := c.2.frag.map Fragment.groupId

/-! ## Two slices of different groups -/

section Two

variable {SLOTS PER_SLOT : Nat} {r : Reassembler SLOTS PER_SLOT} {m : Message} {g g' : UInt32}

/-- Slices of two groups take two slots. -/
theorem run_apart (hS : 2 ≤ SLOTS) (hP : 2 ≤ PER_SLOT) (hr : r.inFlight = 0) (hg : g ≠ g') {k k' : Nat}
    (hk : k < 2) (hk' : k' < 2) :
    (run Reassembler.receive r
      [(.lora, (m.loraGroup g).frame k), (.lora, (m.loraGroup g').frame k')]).1 = [.buffered, .buffered] := by
  have hempty := (Reassembler.inFlight_eq_zero (Reassembler.inv_of_idle hr)).mp hr
  obtain ⟨h1, hI, p, hT, -⟩ := receive_slice_idle (m := m) (g := g) (Nat.le_of_succ_le hS) hP hr hk
  have hne : (m.loraGroup g').key ≠ (m.loraGroup g).key := fun h => hg (Prod.mk.inj h).1.symm
  have hone : (r.receive (.lora, (m.loraGroup g).frame k)).2.inFlight ≤ 1 :=
    Reassembler.inFlight_le hI (l := [(m.loraGroup g).key]) fun q hq => by
      rw [List.mem_singleton]
      by_contra hqg
      rw [hT, Function.update_of_ne hqg, hempty] at hq
      exact hq rfl
  have hroom : (r.receive (.lora, (m.loraGroup g).frame k)).2.room = true := by
    rw [Reassembler.room, decide_eq_true_eq]; omega
  obtain ⟨h2, -⟩ := Reassembler.ingest_first (g := m.loraGroup g') hI
    (by rw [hT, Function.update_of_ne hne, hempty]) hroom (Nat.le_refl 2) (m.length_loraGroup g' hP) hk'
  simp only [run_cons, run_nil, h1]
  exact congrArg (fun o => [ReassembleOutcome.buffered, o]) h2

end Two

/-! ## What the relays send -/

/-- The message with one hop less to go. -/
def Message.relayed (m : Message) : Message := { m with ttl := m.ttl - 1 }

/-- Slice `k` of a forwarded message, as it is received. -/
def forwardedSlice (m : Message) (g : UInt32) (k : Nat) : Transport × Message :=
  (.lora, (m.relayed.halves g).frame k)

section Forward

variable {NR NA NF : Nat} {s : Relay NR NA NF} {m : Message} {g : UInt32}

theorem calls_planForward (hm : m.frag = none) (httl : m.ttl ≠ 0) (hlen : 180 < m.payload.len)
    {out : HVec PlannedFrame MAX_FRAGMENTS} (h : (s.planForward m .lora).1 = .ok out) :
    calls out.toList = [forwardedSlice m s.nextId.1 0, forwardedSlice m s.nextId.1 1] := by
  obtain ⟨out', addr, h', hout⟩ := s.planForward_eq httl .lora
  obtain rfl : out' = out := Except.ok.inj (h'.symm.trans h)
  have hsplit : m.relayed.IsSplit .lora := ⟨hm, rfl, hlen⟩
  rw [hout, show ({ m with ttl := m.ttl - 1 } : Message) = m.relayed from rfl, Message.framesOn, if_pos hsplit]
  rfl

theorem callKey_forwarded {k : Nat} (hk : k < 2) :
    callKey (forwardedSlice m g k) = if k = 0 then m.relayed.key0 else m.relayed.key1 := by
  rcases (by omega : k = 0 ∨ k = 1) with rfl | rfl
  · exact Message.dedupKey_of_zero rfl
  · rfl

theorem isSlice_forwarded {k : Nat} (hk : k < 2) (j : Nat) (hj : j < 2) :
    (forwardedSlice m g k).2.IsSlice (UInt16.ofNat j) ↔ k = j := by
  constructor
  · intro h
    have h := congrArg UInt16.toNat (Option.some.inj h)
    rw [Spec.Group.toNat_seq (Nat.le_of_ble_eq_true rfl) hk, UInt16.toNat_ofNat'] at h
    omega
  · rintro rfl
    rfl

/-- The receiver does not see the difference to the frames of `Copy`. -/
theorem run_forwarded {SLOTS PER_SLOT : Nat} (r : Reassembler SLOTS PER_SLOT) (g g' : UInt32) (k k' : Nat) :
    run Reassembler.receive r [forwardedSlice m g k, forwardedSlice m g' k'] =
      run Reassembler.receive r
        [(.lora, (m.relayed.loraGroup g).frame k), (.lora, (m.relayed.loraGroup g').frame k')] := rfl

end Forward

/-! ## What is handed over -/

section Handed

variable {NR NA NF : Nat} {r : Relay NR NA NF} {m : Message} {l : List (Transport × Message)}

/-- The first frame that is slice `j`, among the slices of forwarded copies. -/
theorem find_slice (hl : ∀ c ∈ l, ∃ g, ∃ k < 2, c = forwardedSlice m g k) {j : Nat} (hj : j < 2)
    (hex : ∃ g, forwardedSlice m g j ∈ l) :
    ∃ g, (l.find? fun c => c.2.IsSlice (UInt16.ofNat j)) = some (forwardedSlice m g j) ∧
      l.find? (callKey · = if j = 0 then m.relayed.key0 else m.relayed.key1) = some (forwardedSlice m g j) := by
  have hcongr : (l.find? fun c => c.2.IsSlice (UInt16.ofNat j)) =
      l.find? (callKey · = if j = 0 then m.relayed.key0 else m.relayed.key1) := by
    refine List.find?_congr fun c hc => ?_
    obtain ⟨g, k, hk, rfl⟩ := hl c hc
    rw [decide_eq_decide, isSlice_forwarded hk j hj, callKey_forwarded hk]
    have hne := key0_ne_key1 m.relayed
    rcases (by omega : k = 0 ∨ k = 1) with rfl | rfl <;> rcases (by omega : j = 0 ∨ j = 1) with rfl | rfl
    · simp
    · simp [hne]
    · simp [hne.symm]
    · simp
  obtain ⟨c, hc⟩ : ∃ c, (l.find? fun c => c.2.IsSlice (UInt16.ofNat j)) = some c := by
    obtain ⟨g, hg⟩ := hex
    rw [← Option.isSome_iff_exists, List.find?_isSome]
    exact ⟨_, hg, decide_eq_true ((isSlice_forwarded hj j hj).mpr rfl)⟩
  obtain ⟨g, k, hk, rfl⟩ := hl c (List.mem_of_find?_eq_some hc)
  have hs := List.find?_some hc
  rw [decide_eq_true_eq] at hs
  obtain rfl := (isSlice_forwarded hk j hj).mp hs
  exact ⟨g, hc, hcongr ▸ hc⟩

theorem callKey_slices (hl : ∀ c ∈ l, ∃ g, ∃ k < 2, c = forwardedSlice m g k) :
    ∀ c ∈ l, callKey c = m.relayed.key0 ∨ callKey c = m.relayed.key1 := by
  intro c hc
  obtain ⟨g, k, hk, rfl⟩ := hl c hc
  rw [callKey_forwarded hk]
  split
  · exact Or.inl rfl
  · exact Or.inr rfl

/-- What the reassembler makes of the first slice 0 and the first slice 1. -/
theorem run_first_slices {SLOTS PER_SLOT : Nat} {r : Reassembler SLOTS PER_SLOT} (hS : 2 ≤ SLOTS)
    (hP : 2 ≤ PER_SLOT) (hr : r.inFlight = 0) (hm : m.frag = none)
    (hl : ∀ c ∈ l, ∃ g, ∃ k < 2, c = forwardedSlice m g k) {g g' : UInt32}
    (h0 : l.find? (callKey · = m.relayed.key0) = some (forwardedSlice m g 0))
    (h1 : l.find? (callKey · = m.relayed.key1) = some (forwardedSlice m g' 1)) :
    (run Reassembler.receive r (firsts callKey [] l)).1 =
      [.buffered, if g = g' then .complete { m.relayed with origin := .lora } else .buffered] := by
  have htwo := firsts_two (key0_ne_key1 m.relayed) (callKey_slices hl)
  rw [h0, h1] at htwo
  simp only [Option.toList_some, List.singleton_append] at htwo
  have hrm : m.relayed.frag = none := hm
  have hwhole := Message.whole_loraGroup hrm g
  split
  · rename_i hg
    subst hg
    rw [← hwhole]
    rcases htwo with hL | hL
    · rw [hL, run_forwarded]; exact (run_both (Nat.le_of_succ_le hS) hP hr (by decide : 0 < 2)).1
    · rw [hL, run_forwarded]; exact (run_both (Nat.le_of_succ_le hS) hP hr (by decide : 1 < 2)).1
  · rename_i hg
    rcases htwo with hL | hL
    · rw [hL, run_forwarded]
      exact run_apart hS hP hr hg (by decide) (by decide)
    · rw [hL, run_forwarded]
      exact run_apart hS hP hr (Ne.symm hg) (by decide) (by decide)

/-- What arrives are the slices of two forwardings, both slices among them. -/
theorem slices_arrive {NR₁ NA₁ NF₁ NR₂ NA₂ NF₂ : Nat} {s₁ : Relay NR₁ NA₁ NF₁} {s₂ : Relay NR₂ NA₂ NF₂}
    (hm : m.frag = none) (httl : m.ttl ≠ 0) (hlen : 180 < m.payload.len)
    {out₁ out₂ : HVec PlannedFrame MAX_FRAGMENTS} (h₁ : (s₁.planForward m .lora).1 = .ok out₁)
    (h₂ : (s₂.planForward m .lora).1 = .ok out₂) (hl : l.Perm (calls out₁.toList ++ calls out₂.toList)) :
    (∀ c ∈ l, ∃ g, ∃ k < 2, c = forwardedSlice m g k) ∧ ∀ k < 2, ∃ g, forwardedSlice m g k ∈ l := by
  rw [calls_planForward hm httl hlen h₁, calls_planForward hm httl hlen h₂] at hl
  constructor
  · intro c hc
    have hc := hl.mem_iff.mp hc
    simp only [List.mem_append, List.mem_pair] at hc
    rcases hc with (rfl | rfl) | (rfl | rfl)
    · exact ⟨_, 0, by decide, rfl⟩
    · exact ⟨_, 1, by decide, rfl⟩
    · exact ⟨_, 0, by decide, rfl⟩
    · exact ⟨_, 1, by decide, rfl⟩
  · intro k hk
    refine ⟨s₁.nextId.1, hl.mem_iff.mpr (List.mem_append_left _ ?_)⟩
    rcases (by omega : k = 0 ∨ k = 1) with rfl | rfl
    · exact List.mem_cons_self
    · exact List.mem_cons_of_mem _ List.mem_cons_self

end Handed

/-- Two relays forward the same message onto LoRa, and all their frames arrive,
in any order: the message is handed over exactly once if the first slice 0 and
the first slice 1 to arrive are of one group, and otherwise never. -/
theorem forwarded_twice_iff {NR NA NF NR₁ NA₁ NF₁ NR₂ NA₂ NF₂ : Nat} (s₁ : Relay NR₁ NA₁ NF₁)
    (s₂ : Relay NR₂ NA₂ NF₂) (r : Relay NR NA NF) (m : Message) (hm : m.frag = none) (httl : 1 ≤ m.ttl)
    (hlen : 180 < m.payload.len) (out₁ out₂ : HVec PlannedFrame MAX_FRAGMENTS)
    (h₁ : (s₁.planForward m .lora).1 = .ok out₁) (h₂ : (s₂.planForward m .lora).1 = .ok out₂)
    (hNA : 2 ≤ NA) (hr : r.Fresh (out₁.toList ++ out₂.toList)) (l : List (Transport × Message))
    (hl : l.Perm (calls out₁.toList ++ calls out₂.toList)) :
    (∃ x, (run Relay.receive r l).1.filterMap delivered = [x] ∧ x.id = m.id ∧ x.payload = m.payload ∧
        x.frag = none) ↔
      (l.find? fun c => c.2.IsSlice 0).bind callGroup = (l.find? fun c => c.2.IsSlice 1).bind callGroup := by
  have hne : m.ttl ≠ 0 := fun h => by rw [h] at httl; exact absurd httl (by decide)
  obtain ⟨hslices, hin⟩ := slices_arrive hm hne hlen h₁ h₂ hl
  obtain ⟨g, hf0, hk0⟩ := find_slice hslices (j := 0) (by decide) (hin 0 (by decide))
  obtain ⟨g', hf1, hk1⟩ := find_slice hslices (j := 1) (by decide) (hin 1 (by decide))
  have hun : ∀ c ∈ l, r.seen.contains (callKey c) = false := fun c hc => by
    apply hr.unseen_calls c
    rw [calls, List.map_append]
    exact hl.mem_iff.mp hc
  have hcond : (l.find? fun c => c.2.IsSlice 0).bind callGroup = (l.find? fun c => c.2.IsSlice 1).bind callGroup ↔
      g = g' := by
    rw [show (l.find? fun c => c.2.IsSlice 0) = _ from hf0, show (l.find? fun c => c.2.IsSlice 1) = _ from hf1]
    exact Option.some.injEq g g' ▸ Iff.rfl
  rw [r.delivered_copies (callKey_slices hslices) hun, hcond,
    run_first_slices hNA hr.perSlot.1 hr.idle hm hslices hk0 hk1]
  by_cases hg : g = g'
  · rw [if_pos hg]
    exact ⟨fun _ => hg, fun _ => ⟨_, rfl, rfl, rfl, hm⟩⟩
  · rw [if_neg hg]
    refine ⟨fun h => ?_, fun h => absurd h hg⟩
    obtain ⟨x, hx, -⟩ := h
    cases hx

/-- A message of 181 bytes. -/
def exampleMessage : Message :=
  ⟨7, 4, .mqtt, nodeAddr 9, BROADCAST_ADDR, .text, examplePayload, none⟩

/-- The frames of its forwarding by node `k`. -/
def exampleForward (k : UInt8) (idBase : UInt32) : HVec PlannedFrame MAX_FRAGMENTS :=
  match ((Relay.new (nodeAddr k) idBase : Relay 1 1 2).planForward exampleMessage .lora).1 with
  | .ok out => out
  | .error _ => .empty

/-- The slices of one forwarding arrive before those of the other. -/
theorem forwarded_twice_iff_in_order :
    ∃ x, (run Relay.receive (Relay.new (nodeAddr 2) 512 : Relay 1 2 2)
        (calls (exampleForward 3 1024).toList ++ calls (exampleForward 4 2048).toList)).1.filterMap delivered = [x] ∧
      x.id = exampleMessage.id ∧ x.payload = exampleMessage.payload ∧ x.frag = none :=
  (forwarded_twice_iff (Relay.new (nodeAddr 3) 1024 : Relay 1 1 2)
    (Relay.new (nodeAddr 4) 2048 : Relay 1 1 2) (Relay.new (nodeAddr 2) 512 : Relay 1 2 2)
    exampleMessage rfl (by decide) (by decide +kernel) (exampleForward 3 1024) (exampleForward 4 2048)
    (by decide +kernel) (by decide +kernel) (by decide) (Relay.fresh_new _ _ (by decide) (by decide) _)
    _ (List.Perm.refl _)).mpr (by decide +kernel)

/-- The slices of two forwardings, alternately and in opposite order. -/
def exampleArrivals : List (Transport × Message) :=
  [forwardedSlice exampleMessage 1024 0, forwardedSlice exampleMessage 2048 1,
    forwardedSlice exampleMessage 1024 1, forwardedSlice exampleMessage 2048 0]

/-- Nothing is handed over, though every frame arrives. -/
theorem forwarded_twice_lost :
    ((Relay.new (nodeAddr 3) 1024 : Relay 1 1 2).planForward exampleMessage .lora).1 =
        .ok (exampleForward 3 1024) ∧
      ((Relay.new (nodeAddr 4) 2048 : Relay 1 1 2).planForward exampleMessage .lora).1 =
        .ok (exampleForward 4 2048) ∧
      (∀ c ∈ calls (exampleForward 3 1024).toList, ∀ c' ∈ calls (exampleForward 4 2048).toList,
        callGroup c ≠ callGroup c') ∧
      (Relay.new (nodeAddr 2) 512 : Relay 1 2 2).Fresh
        ((exampleForward 3 1024).toList ++ (exampleForward 4 2048).toList) ∧
      exampleArrivals.Perm (calls (exampleForward 3 1024).toList ++ calls (exampleForward 4 2048).toList) ∧
      (run Relay.receive (Relay.new (nodeAddr 2) 512 : Relay 1 2 2) exampleArrivals).1.filterMap
        delivered = [] :=
  ⟨by decide +kernel, by decide +kernel, by decide +kernel, Relay.fresh_new _ _ (by decide) (by decide) _,
    by decide +kernel, by decide +kernel⟩

end RelayStar

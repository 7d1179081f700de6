import RelayStar.Proof.Planning

/-!
# Plans, block by block

A plan of `Relay.planSend` has one block of frames for each transport that the
destination resolves to, with a group id of its own (`Message.blocks`). That is
all a plan can be, and whether there is one is settled before an id is allocated
(`planSend_exact`). A frame fits its transport unless it is a slice that was
already there (`split_fits_iff`).
-/

namespace RelayStar

namespace Message

variable (m : Message) (g : UInt32)

theorem transport_blocks (ts : List Transport) : (m.blocks ts g).map Block.transport = ts := by
  induction ts generalizing g with
  | nil => rfl
  | cons t ts ih => rw [blocks, List.map_cons, ih]

theorem group_blocks (ts : List Transport) :
    (m.blocks ts g).map Block.group = (List.range ts.length).map fun k => g + UInt32.ofNat k := by
  induction ts generalizing g with
  | nil => rfl
  | cons t ts ih =>
    rw [blocks, List.map_cons, ih, List.length_cons, List.range_succ_eq_map, List.map_cons, List.map_map]
    refine congrArg₂ List.cons (UInt32.add_zero g).symm (List.map_congr_left fun k _ => ?_)
    show g + 1 + UInt32.ofNat k = g + UInt32.ofNat (k + 1)
    rw [UInt32.ofNat_add, UInt32.add_assoc, UInt32.add_comm 1]
    rfl

theorem mem_blocks {ts : List Transport} {b : Block} (h : b ∈ m.blocks ts g) :
    b.frames = framesOn { m with origin := b.transport } b.transport b.group := by
  induction ts generalizing g with
  | nil => cases h
  | cons t ts ih =>
    rcases List.mem_cons.mp h with rfl | h
    · rfl
    · exact ih (g + 1) h

/-- Ids from a counter differ, also when it wraps. -/
theorem ids_nodup (id : UInt32) {n : Nat} (h : n < 2 ^ 32) :
    ((List.range n).map fun k => id + UInt32.ofNat k).Nodup := by
  refine List.Nodup.map_on (fun i hi j hj he => ?_) List.nodup_range
  have he := congrArg UInt32.toNat ((UInt32.add_right_inj id).mp he)
  have hi := List.mem_range.mp hi
  have hj := List.mem_range.mp hj
  rw [UInt32.toNat_ofNat_of_lt' (by show i < 2 ^ 32; omega), UInt32.toNat_ofNat_of_lt' (by show j < 2 ^ 32; omega)]
    at he
  exact he

/-- The message id and the group ids of a few blocks. -/
theorem groups_nodup (id : UInt32) {ts : List Transport} (h : ts.length ≤ 3) :
    (id :: (m.blocks ts (id + 1)).map Block.group).Nodup := by
  have hgroup := m.group_blocks id (.lora :: ts)
  rw [blocks, List.map_cons] at hgroup
  rw [hgroup]
  exact ids_nodup id (by rw [List.length_cons]; omega)

/-! ## The frames of a block -/

variable {m} {t : Transport}

theorem framesOn_ne_nil : m.framesOn t g ≠ [] := by
  rw [framesOn]
  split
  · exact List.cons_ne_nil _ _
  · exact List.cons_ne_nil _ _

/-- The frames of a message put together its payload. -/
theorem payload_framesOn : ((m.framesOn t g).map fun f => f.payload.toList).flatten = m.payload.toList := by
  rw [framesOn]
  split
  · show (m.payload.toList.take 180 ++ (m.payload.toList.drop 180 ++ [])) = _
    rw [List.append_nil, List.take_append_drop]
  · show m.payload.toList ++ [] = _
    rw [List.append_nil]

/-- A frame has the header of its message, and the group id if it is a slice. -/
theorem header_framesOn (h : m.frag = none) {f : Message} (hf : f ∈ m.framesOn t g) :
    f = { m with payload := f.payload, frag := f.frag } ∧ ∀ x, f.frag = some x → x.groupId = g := by
  refine ⟨mem_framesOn hf, fun x hx => ?_⟩
  rw [framesOn] at hf
  split at hf
  · obtain ⟨k, -, rfl⟩ := List.mem_map.mp hf
    cases hx
    rfl
  · rw [List.mem_singleton.mp hf, h] at hx
    cases hx

end Message

namespace Relay

open Message

variable {NR NA NF : Nat}

/-! ## What does not fit -/

theorem planForward_fits_iff (r : Relay NR NA NF) (m : Message) (t : Transport) :
    (∀ out, (r.planForward m t).1 = .ok out → ∀ f ∈ out.toList, f.message.payload.len ≤ t.maxPayload) ↔
      m.ttl = 0 ∨ m.frag = none ∨ m.payload.len ≤ t.maxPayload := by
  by_cases h0 : m.ttl = 0
  · refine iff_of_true (fun out ho f hf => ?_) (.inl h0)
    rw [r.planForward_exhausted h0] at ho
    cases ho
    cases hf
  · rw [or_iff_right h0, ← Fragmenter.fits_iff { m with ttl := m.ttl - 1 } t r.nextId.1]
    obtain ⟨out, hout, hlist⟩ := r.planForward_relayed h0 t
    obtain ⟨fs, hs, hfs⟩ := Fragmenter.split_eq { m with ttl := m.ttl - 1 } t r.nextId.1
    rw [hout, hs]
    simp only [Except.ok.injEq, forall_eq', hlist, ← hfs, List.mem_map, forall_exists_index, and_imp,
      forall_apply_eq_imp_iff₂]

/-- Splitting gives frames that fit the transport exactly if the message is not a
slice that is too long already; so does forwarding, unless there is nothing to
forward. -/
theorem split_fits_iff (m : Message) (t : Transport) :
    (∀ g : UInt32, (∀ out, Fragmenter.split m t g = .ok out → ∀ f ∈ out.toList, f.payload.len ≤ t.maxPayload) ↔
      m.frag = none ∨ m.payload.len ≤ t.maxPayload) ∧
    ∀ r : Relay NR NA NF,
      (∀ out, (r.planForward m t).1 = .ok out → ∀ f ∈ out.toList, f.message.payload.len ≤ t.maxPayload) ↔
        m.ttl = 0 ∨ m.frag = none ∨ m.payload.len ≤ t.maxPayload :=
  ⟨Fragmenter.fits_iff m t, fun r => r.planForward_fits_iff m t⟩

/-- A slice of 200 bytes. -/
def exampleWide : Message :=
  { Fragmenter.exampleLong with
    payload := ⟨List.replicate 200 0, by rw [List.length_replicate]; decide⟩
    frag := some ⟨9, 0, 2⟩ }

/-- It is taken for LoRa, and forwarded there, as it is. -/
theorem wide_slice_sent :
    (¬ ∀ out, Fragmenter.split exampleWide .lora 9 = .ok out →
      ∀ f ∈ out.toList, f.payload.len ≤ Transport.lora.maxPayload) ∧
    ¬ ∀ out, ((Relay.new BROADCAST_ADDR 0 : Relay 1 1 2).planForward exampleWide .lora).1 = .ok out →
      ∀ f ∈ out.toList, f.message.payload.len ≤ Transport.lora.maxPayload := by
  have hlong : ¬ (exampleWide.frag = none ∨ exampleWide.payload.len ≤ Transport.lora.maxPayload) := by
    rintro (hf | hlen)
    · cases hf
    · have hwide : exampleWide.payload.len = 200 := List.length_replicate
      rw [hwide] at hlen
      exact absurd hlen (by decide)
  refine ⟨fun h => hlong ((Fragmenter.fits_iff exampleWide .lora 9).mp h), fun h => ?_⟩
  rcases (planForward_fits_iff _ exampleWide .lora).mp h with h0 | h
  · exact absurd h0 (by decide : exampleWide.ttl ≠ 0)
  · exact hlong h

/-! ## What a plan is -/

variable {r : Relay NR NA NF}

/-- The plan has one block for each usable transport, in the order of
`Transport.ALL`, with a group id of its own. -/
structure IsPlan (r : Relay NR NA NF) (kind : MsgKind) (payload : List UInt8) (dest : Destination)
    (out : List PlannedFrame) (bs : List Block) : Prop where
  frames : out = bs.flatMap (Block.planned dest.frameAddr)
  transports : bs.map Block.transport = Transport.ALL.filter (r.usable dest)
  nonempty : ∀ b ∈ bs, b.frames ≠ []
  payload : ∀ b ∈ bs, (b.frames.map fun m => m.payload.toList).flatten = payload
  header : ∀ b ∈ bs, ∀ m ∈ b.frames,
    m = ⟨r.nextId.1, DEFAULT_TTL, b.transport, r.selfAddr, dest.addr, kind, m.payload, m.frag⟩
  groups : (r.nextId.1 :: bs.map Block.group).Nodup
  group : ∀ b ∈ bs, ∀ m ∈ b.frames, ∀ f, m.frag = some f → f.groupId = b.group

/-- There is a transport to send on. -/
def CanSend (r : Relay NR NA NF) (dest : Destination) : Prop :=
  (∃ t, r.isPortRegistered t = true) ∧ ∀ addr, dest = .unicast addr →
    ∃ row t, r.receivers.lookup addr = some row ∧ row.reachableVia t = true ∧ r.isPortRegistered t = true

theorem canSend_iff {dest : Destination} :
    r.CanSend dest ↔ (∃ t, r.isPortRegistered t = true) ∧ Transport.ALL.filter (r.usable dest) ≠ [] := by
  refine and_congr_right fun ⟨t, ht⟩ => ?_
  simp only [ne_eq, List.filter_eq_nil_iff, not_forall, not_not, exists_prop, usable, Bool.and_eq_true]
  cases dest with
  | broadcast => exact iff_of_true (fun _ h => by cases h) ⟨t, by cases t <;> decide, ht, rfl⟩
  | unicast addr =>
    simp only [Option.any_eq_true, Destination.unicast.injEq, forall_eq']
    constructor
    · rintro ⟨row, t, hl, hr, ht⟩
      exact ⟨t, by cases t <;> decide, ht, row, hl, hr⟩
    · rintro ⟨t, -, ht, row, hl, hr⟩
      exact ⟨row, t, hl, hr, ht⟩

/-- A target of a destination can be sent to. -/
theorem canSend_of_resolve {dest : Destination} {ts : List Transport} (h : r.resolveTargets dest = .ok ts) :
    r.CanSend dest := by
  rw [resolveTargets_eq] at h
  rw [canSend_iff, ← hasPorts_iff]
  split at h
  · cases h
  · rename_i hp
    split at h
    · cases h
    · rename_i hne
      exact ⟨Bool.eq_true_of_not_eq_false hp, hne⟩

/-- A plan is all blocks of the usable transports. -/
theorem planSend_blocks {dest : Destination} (h : r.CanSend dest) (kind : MsgKind) (p : Payload) :
    ∃ out bs, (r.planSend kind p.toList dest).1 = .ok out ∧ IsPlan r kind p.toList dest out.toList bs := by
  obtain ⟨hreg, hne⟩ := canSend_iff.mp h
  have hports := hasPorts_iff.mpr hreg
  have hts := r.resolveTargets_eq dest
  rw [hports, if_neg (by decide), if_neg hne] at hts
  obtain ⟨w, hw, hlist⟩ := planTargets_resolved hts kind p
  refine ⟨w, _, ?_, hlist, transport_blocks .., fun b hb => ?_, fun b hb => ?_, fun b hb f hf => ?_,
    groups_nodup _ _ (resolveTargets_length hts), fun b hb f hf => ?_⟩
  · rw [planSend_targets hts hne]
    exact hw
  · rw [mem_blocks _ _ hb]
    exact framesOn_ne_nil _
  · rw [mem_blocks _ _ hb]
    exact payload_framesOn _
  · rw [mem_blocks _ _ hb] at hf
    exact (header_framesOn _ rfl hf).1
  · rw [mem_blocks _ _ hb] at hf
    exact (header_framesOn _ rfl hf).2

/-- A payload that fits a message is planned exactly if a transport is registered
and, for one peer, a transport it is reachable on; else no id is allocated. The
plan is one block of frames for each such transport. -/
theorem planSend_exact (r : Relay NR NA NF) (kind : MsgKind) (payload : List UInt8)
    (hp : payload.length ≤ MAX_PAYLOAD) (dest : Destination) :
    ((∃ out, (r.planSend kind payload dest).1 = .ok out) ↔ r.CanSend dest) ∧
      ((¬ ∃ t, r.isPortRegistered t = true) → r.planSend kind payload dest = (.error .noPortsRegistered, r)) ∧
      ((∃ t, r.isPortRegistered t = true) → ¬ r.CanSend dest →
        r.planSend kind payload dest = (.error .unknownReceiver, r)) ∧
      ∀ out, (r.planSend kind payload dest).1 = .ok out → ∃ bs, r.IsPlan kind payload dest out.toList bs := by
  have hnone : (¬ ∃ t, r.isPortRegistered t = true) →
      r.planSend kind payload dest = (.error .noPortsRegistered, r) := fun h => by
    have hports : r.hasPorts = false := Bool.eq_false_iff.mpr fun hp => h (hasPorts_iff.mp hp)
    have hts := r.resolveTargets_eq dest
    rw [if_pos hports] at hts
    simp only [planSend, hts]
  have hunknown : (∃ t, r.isPortRegistered t = true) → ¬ r.CanSend dest →
      r.planSend kind payload dest = (.error .unknownReceiver, r) := fun h hc => by
    have hnil : Transport.ALL.filter (r.usable dest) = [] := by
      by_contra hne
      exact hc (canSend_iff.mpr ⟨h, hne⟩)
    have hts := r.resolveTargets_eq dest
    rw [hasPorts_iff.mpr h, if_neg (by decide), if_pos hnil] at hts
    simp only [planSend, hts]
  have hsome : r.CanSend dest → ∃ out bs, (r.planSend kind payload dest).1 = .ok out ∧
      r.IsPlan kind payload dest out.toList bs := fun h => planSend_blocks h kind ⟨payload, hp⟩
  have hsend : ∀ out, (r.planSend kind payload dest).1 = .ok out → r.CanSend dest := by
    intro out ho
    by_contra hc
    by_cases h : ∃ t, r.isPortRegistered t = true
    · rw [hunknown h hc] at ho
      cases ho
    · rw [hnone h] at ho
      cases ho
  refine ⟨⟨fun h => ?_, fun h => ?_⟩, hnone, hunknown, fun out ho => ?_⟩
  · obtain ⟨out, ho⟩ := h
    exact hsend out ho
  · obtain ⟨out, -, ho, -⟩ := hsome h
    exact ⟨out, ho⟩
  · obtain ⟨out', bs, ho', hbs⟩ := hsome (hsend out ho)
    obtain rfl : out' = out := Except.ok.inj (ho'.symm.trans ho)
    exact ⟨bs, hbs⟩

/-- A relay with a port sends a broadcast. -/
theorem planSend_exact_broadcast :
    ∃ out, (((Relay.new BROADCAST_ADDR 0 : Relay 1 1 2).registerPort .lora).planSend .text [7] .broadcast).1 =
      .ok out :=
  (planSend_exact _ .text [7] (by decide) .broadcast).1.mpr ⟨⟨.lora, by decide⟩, fun _ h => by cases h⟩

end Relay

end RelayStar

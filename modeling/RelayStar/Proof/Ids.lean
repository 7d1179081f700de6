import RelayStar.Framework.Counter
import RelayStar.Proof.Fanout
import RelayStar.Proof.LoraNode

/-!
# Ids across the fleet

The terminal and the LoRa node take the ids of their messages and of their
fragment groups from counters with different bases. Each operation takes its
numbers from those that it allocates (`Allocates`, `Gives`), so in runs that are
not too long no number is given to two messages or groups, neither by one of them
nor by both (`ids_unique`).
-/

namespace RelayStar

/-- The id of a frame, and that of its group. -/
def Message.numbers (m : Message) : List UInt32 := m.id :: (m.frag.map Fragment.groupId).toList

theorem Slot.frag_assemble {PER_SLOT : Nat} {s : Slot PER_SLOT} {m x : Message} (h : (s.assemble m).1.delivered = some x) :
    x.frag = none := by
  rw [assemble] at h
  split at h
  · cases h
  · cases h
    rfl

/-- What is handed over is whole. -/
theorem Reassembler.frag_ingest {SLOTS PER_SLOT : Nat} {r : Reassembler SLOTS PER_SLOT} {m x : Message}
    (h : (r.ingest m).1.delivered = some x) : x.frag = none := by
  rw [ingest] at h
  split at h
  · rename_i hf
    cases h
    exact hf
  · split at h
    · cases h
    · split at h
      · cases h
      · rw [Slot.accept] at h
        split at h
        · cases h
        · split at h
          · cases h
          · dsimp only at h
            split at h
            · cases h
            · exact Slot.frag_assemble h

namespace Relay

variable {NR NA NF : Nat} {r r' r'' : Relay NR NA NF} {j k : Nat}

/-- `j` numbers were allocated. -/
def Allocates (j : Nat) (r r' : Relay NR NA NF) : Prop := r'.nextId.1 = after r.nextId.1 j

/-- These numbers are of the next `j`. -/
def Gives (r : Relay NR NA NF) (j : Nat) (numbers : List UInt32) : Prop := ∀ a ∈ numbers, ∃ x < j, a = after r.nextId.1 x

theorem Allocates.refl (r : Relay NR NA NF) : Allocates 0 r r := (UInt32.add_zero _).symm

theorem Allocates.nextId (r : Relay NR NA NF) : Allocates 1 r r.nextId.2 := (UInt32.add_assoc ..).symm

theorem Allocates.trans (h : Allocates j r r') (h' : Allocates k r' r'') : Allocates (j + k) r r'' := by
  rw [Allocates, h', h, after_after]

theorem Allocates.gives (h : Allocates j r r') {numbers : List UInt32} (hn : r'.Gives k numbers) :
    r.Gives (j + k) numbers := fun a ha => by
  obtain ⟨x, hx, rfl⟩ := hn a ha
  exact ⟨j + x, by omega, by rw [h, after_after]⟩

/-! ## Sending -/

theorem planTargets_allocates (id : UInt32) (kind : MsgKind) (payload : List UInt8) (dest : Destination)
    (ts : List Transport) (out : HVec PlannedFrame (MAX_FRAGMENTS * 3)) (r : Relay NR NA NF) :
    ∃ j ≤ ts.length, Allocates j r (planTargets id kind payload dest ts out r).2 ∧
      ∀ w, (planTargets id kind payload dest ts out r).1 = .ok w → j = ts.length := by
  induction ts generalizing out r with
  | nil => exact ⟨0, Nat.le_refl 0, .refl r, fun _ _ => rfl⟩
  | cons t ts ih =>
    rw [planTargets, List.length_cons]
    split
    · exact ⟨0, Nat.zero_le _, .refl r, fun w h => by cases h⟩
    · dsimp only
      split
      · exact ⟨1, by omega, .nextId r, fun w h => by cases h⟩
      · split
        · exact ⟨1, by omega, .nextId r, fun w h => by cases h⟩
        · rename_i out' _
          obtain ⟨j, hj, hall, hok⟩ := ih out' r.nextId.2
          exact ⟨1 + j, by omega, (Allocates.nextId r).trans hall, fun w h => by rw [hok w h, Nat.add_comm]⟩

/-- The frames of a send have the id that is allocated first, and group ids that
are allocated next. -/
theorem planSend_allocates (r : Relay NR NA NF) (kind : MsgKind) (payload : List UInt8) (dest : Destination) :
    ∃ j ≤ 4, Allocates j r (r.planSend kind payload dest).2 ∧
      ∀ f ∈ plannedFrames (r.planSend kind payload dest).1, r.Gives j f.message.numbers := by
  cases hts : r.resolveTargets dest with
  | error e =>
    rw [planSend, hts]
    exact ⟨0, Nat.zero_le 4, .refl r, fun f hf => by cases hf⟩
  | ok ts =>
    by_cases hne : ts = []
    · rw [planSend, hts, hne]
      exact ⟨0, Nat.zero_le 4, .refl r, fun f hf => by cases hf⟩
    · have hlen := resolveTargets_length hts
      rw [planSend_targets hts hne]
      obtain ⟨j, hj, hall, hok⟩ := planTargets_allocates r.nextId.1 kind payload dest ts .empty r.nextId.2
      refine ⟨1 + j, by omega, (Allocates.nextId r).trans hall, fun f hf a ha => ?_⟩
      cases hplan : (planTargets r.nextId.1 kind payload dest ts .empty r.nextId.2).1 with
      | error e =>
        rw [hplan] at hf
        cases hf
      | ok w =>
        obtain ⟨p, rfl⟩ := planTargets_payload hne hplan
        obtain ⟨w', hw', hlist⟩ := planTargets_resolved hts kind p
        obtain rfl : w' = w := Except.ok.inj (hw'.symm.trans hplan)
        rw [hplan, show plannedFrames (.ok w') = w'.toList from rfl, hlist] at hf
        rw [hok w' hplan]
        obtain ⟨b, hb, hf⟩ := List.mem_flatMap.mp hf
        obtain ⟨x, hx, rfl⟩ := List.mem_map.mp hf
        rw [Message.mem_blocks _ _ hb] at hx
        obtain ⟨hheader, hgroup⟩ := Message.header_framesOn _ rfl hx
        rcases List.mem_cons.mp ha with rfl | ha
        · refine ⟨0, by omega, ?_⟩
          show x.id = _
          rw [hheader]
          exact (UInt32.add_zero _).symm
        · obtain ⟨y, hy, rfl⟩ := Option.map_eq_some_iff.mp (Option.mem_toList.mp ha)
          have hmem : b.group ∈ _ := List.mem_map_of_mem hb
          rw [Message.group_blocks] at hmem
          obtain ⟨k, hk, hbk⟩ := List.mem_map.mp hmem
          refine ⟨1 + k, by have := List.mem_range.mp hk; omega, ?_⟩
          rw [hgroup y hy, ← hbk, ← after_after]
          rfl

/-! ## Forwarding -/

theorem frag_delivered {source : Transport} {bytes : List UInt8} {m : Message}
    (h : delivered (r.ingest source bytes).1 = some m) : m.frag = none := by
  cases hd : Message.decode bytes with
  | error e =>
    rw [r.ingest_error source hd] at h
    cases h
  | ok x =>
    by_cases hk : some x.dedupKey ∈ r.seen.window
    · rw [r.ingest_known source hd hk] at h
      cases h
    · rw [r.ingest_new source hd hk, delivered_outcome] at h
      exact Reassembler.frag_ingest h

/-- The numbers of the frames of a turn: the groups of what is forwarded. -/
def groups (fs : List PlannedFrame) : List UInt32 := fs.flatMap fun f => (f.message.frag.map Fragment.groupId).toList

theorem fanoutTargets_allocates {m : Message} (hm : m.frag = none) (skip : Transport) (ts : List Transport)
    (r : Relay NR NA NF) :
    ∃ j ≤ ts.length, Allocates j r (fanoutTargets m skip ts r).2 ∧ r.Gives j (groups (fanoutTargets m skip ts r).1) := by
  induction ts generalizing r with
  | nil => exact ⟨0, Nat.le_refl 0, .refl r, fun a ha => by cases ha⟩
  | cons t ts ih =>
    rw [fanoutTargets, List.length_cons]
    split
    · obtain ⟨j, hj, hrest⟩ := ih r
      exact ⟨j, by omega, hrest⟩
    · dsimp only
      by_cases httl : m.ttl = 0
      · obtain ⟨j, hj, hall, hgives⟩ := ih r
        rw [r.planForward_exhausted httl t]
        exact ⟨j, by omega, hall, hgives⟩
      · obtain ⟨out, hp, hout⟩ := r.planForward_relayed httl t
        obtain ⟨j, hj, hall, hgives⟩ := ih r.nextId.2
        rw [hp]
        refine ⟨1 + j, by omega, (Allocates.nextId r).trans hall, fun a ha => ?_⟩
        rw [groups, List.flatMap_append] at ha
        rcases List.mem_append.mp ha with ha | ha
        · rw [show plannedFrames (.ok out) = out.toList from rfl, hout] at ha
          obtain ⟨f, hf, ha⟩ := List.mem_flatMap.mp ha
          obtain ⟨x, hx, rfl⟩ := List.mem_map.mp hf
          obtain ⟨y, hy, rfl⟩ := Option.map_eq_some_iff.mp (Option.mem_toList.mp ha)
          refine ⟨0, by omega, ?_⟩
          rw [(Message.header_framesOn _ (m := { m with ttl := m.ttl - 1 }) hm hx).2 y hy]
          exact (UInt32.add_zero _).symm
        · exact (Allocates.nextId r).gives hgives a ha

theorem bridgeStep_allocates (r : Relay NR NA NF) (source : Transport) (bytes : List UInt8) :
    ∃ j ≤ 3, Allocates j r (r.bridgeStep source bytes).2 ∧ r.Gives j (groups (r.bridgeStep source bytes).1.2) := by
  obtain ⟨-, hbase, hctr⟩ := r.ingest_self source bytes
  have hnext : (r.ingest source bytes).2.nextId.1 = r.nextId.1 := by rw [nextId, nextId, hbase, hctr]
  have hin : Allocates 0 r (r.ingest source bytes).2 := hnext.trans (UInt32.add_zero _).symm
  rcases r.bridgeStep_cases source bytes with ⟨h1, h2⟩ | ⟨m, hm, h1, h2⟩
  · rw [h1, h2]
    exact ⟨0, Nat.zero_le 3, hin, fun a ha => by cases ha⟩
  · rw [h1, h2]
    obtain ⟨j, hj, hall, hgives⟩ := fanoutTargets_allocates (frag_delivered hm) source Transport.ALL
      (r.ingest source bytes).2
    have := hin.trans hall
    have hg := hin.gives hgives
    rw [Nat.zero_add] at this hg
    exact ⟨j, hj, this, hg⟩

end Relay

/-! ## The terminal -/

namespace Card

variable {NR NA NF : Nat}

/-- The numbers that a step gives to messages and groups. -/
def numbers (c : Card NR NA NF) : Event → List UInt32
  | .compose text => (Relay.plannedFrames (c.bridge.relay.planSend .text (asBytes text) .broadcast).1).flatMap
      fun f => f.message.numbers
  | .uplink payload =>
    if (c.inbound.waiting .mqtt).isSome then []
    else match (c.bridge.uplinkFrame ((fromUtf8 payload).getD "<binary>")).1 with
    | none => []
    | some raw => (Relay.heard raw.source raw.bytes.toList).map Message.id
  | .bridge => match c.inbound.take with
    | none => []
    | some (raw, _) => Relay.groups (c.bridge.relay.bridgeStep raw.source raw.bytes.toList).1.2
  | _ => []

/-- A step, with the numbers it gives. -/
def numbered (c : Card NR NA NF) (e : Event) : List UInt32 × Card NR NA NF := (c.numbers e, (c.step e).2)

theorem bridge_receive (c : Card NR NA NF) (t : Transport) (data : List UInt8) :
    (c.receive t data).2.bridge = c.bridge := by
  rw [receive]
  split
  · rfl
  · split <;> rfl

theorem step_allocates (c : Card NR NA NF) (e : Event) :
    ∃ j ≤ 4, c.bridge.relay.Allocates j (c.step e).2.bridge.relay ∧ c.bridge.relay.Gives j (c.numbers e) := by
  have hnone {c' : Card NR NA NF} (h : c'.bridge.relay = c.bridge.relay) :
      ∃ j ≤ 4, c.bridge.relay.Allocates j c'.bridge.relay ∧ c.bridge.relay.Gives j [] :=
    ⟨0, Nat.zero_le 4, h ▸ .refl _, fun a ha => by cases ha⟩
  cases e with
  | loraRx data => exact hnone (congrArg Bridge.relay (c.bridge_receive .lora data))
  | espnowRx data => exact hnone (congrArg Bridge.relay (c.bridge_receive .espNow data))
  | uplink payload =>
    have hrelay := c.bridge.relay_uplinkFrame ((fromUtf8 payload).getD "<binary>")
    rw [step, numbers]
    split
    · exact hnone rfl
    · split
      · rename_i bridge hu
        rw [hu] at hrelay ⊢
        exact ⟨1, by decide, hrelay ▸ .nextId _, fun a ha => by cases ha⟩
      · rename_i raw bridge hu
        rw [hu] at hrelay ⊢
        obtain ⟨p, -, -, hwire⟩ := Bridge.uplinkFrame_eq_some.mp (congrArg Prod.fst hu)
        refine ⟨1, by decide, hrelay ▸ .nextId _, fun a ha => ⟨0, by decide, ?_⟩⟩
        simp only [Relay.heard, hwire, Message.decode_wire_self] at ha
        obtain rfl := List.mem_singleton.mp ha
        exact (UInt32.add_zero _).symm
  | deposit t =>
    rw [step]
    split <;> exact hnone rfl
  | bridge =>
    cases htake : c.inbound.take with
    | none =>
      simp only [step, numbers, htake]
      exact hnone rfl
    | some x =>
      obtain ⟨raw, inbound⟩ := x
      simp only [step, numbers, htake]
      obtain ⟨j, hj, hall, hgives⟩ := c.bridge.relay.bridgeStep_allocates raw.source raw.bytes.toList
      exact ⟨j, by omega, (c.bridge.turn_eq raw).1 ▸ hall, hgives⟩
  | transmit t =>
    rw [step]
    split
    · exact hnone rfl
    · split
      · exact hnone rfl
      · rename_i f bridge hd
        exact hnone (Bridge.dequeue_eq hd).2.1
  | compose text =>
    obtain ⟨j, hj, hall, hgives⟩ := c.bridge.relay.planSend_allocates .text (asBytes text) .broadcast
    refine ⟨j, hj, (c.bridge.sendLocalText_eq text).1 ▸ hall, fun a ha => ?_⟩
    obtain ⟨f, hf, ha⟩ := List.mem_flatMap.mp ha
    exact hgives f hf a ha
  | display =>
    rw [step]
    split <;> exact hnone rfl

theorem numbered_numbers :
    Numbers (@numbered NR NA NF) (fun c => c.bridge.relay.nextId.1) id 4 :=
  ⟨fun c e => by
    obtain ⟨j, hj, hall, hgives⟩ := c.step_allocates e
    exact ⟨j, hj, hall, hgives⟩⟩

end Card

/-! ## The LoRa node -/

namespace LoraNode

variable {P : Type} [TransportPort P] {NR NA NF : Nat}

omit [TransportPort P] in
/-- Frame number `j` has id `2 * j`. -/
theorem id_handed {es : List (Event × Option Message)} {n : LoraNode (Meter P) NR NA NF} (h : Observed es n) {j : Nat}
    {f : FrameAddr × List UInt8} (hf : n.port.handed[j]? = some f) {m : Message} (hm : Message.decode f.2 = .ok m) :
    j < es.length ∧ m.id = after NODE_ID_BASE (2 * j) := by
  have hj := (List.getElem?_eq_some_iff.mp hf).1
  rw [h.sent.length] at hj
  refine ⟨Nat.lt_of_lt_of_le hj (List.length_filterMap_le ..), ?_⟩
  have hanswer := h.sent.answers j _ f (List.getElem?_eq_getElem hj) hf
  cases hc : (es.filterMap cause)[j] with
  | heartbeat =>
    rw [hc] at hanswer
    obtain ⟨p, -, rfl⟩ := hanswer
    rw [Message.decode_wire_self] at hm
    cases hm
    rfl
  | ping x =>
    rw [hc] at hanswer
    obtain ⟨dest, -, p, -, rfl⟩ := hanswer
    rw [Message.decode_wire_self] at hm
    cases hm
    rfl

end LoraNode

/-- In runs of at most `2 ^ 29` steps of the terminal and `2 ^ 23` turns of the
LoRa node, no number is given twice, neither to messages and fragment groups that
different steps of the terminal make, nor to two frames of the node, nor by both. -/
theorem ids_unique {P : Type} [TransportPort P] {NR NA NF NR' NA' NF' : Nat} (port : P) (events : List Card.Event)
    (events' : List LoraNode.Event) (h : events.length ≤ 2 ^ 29) (h' : events'.length ≤ 2 ^ 23) :
    let given := (run Card.numbered (Card.boot : Card NR NA NF) events).1
    let handed := (run LoraNode.observe (LoraNode.boot ⟨port, [], []⟩ : LoraNode (Meter P) NR' NA' NF')
      events').2.port.handed
    given.Pairwise (fun o o' => ∀ a ∈ o, ∀ b ∈ o', a ≠ b) ∧
    (∀ (i j : Nat) (f g : FrameAddr × List UInt8) m m', handed[i]? = some f → handed[j]? = some g →
      Message.decode f.2 = .ok m → Message.decode g.2 = .ok m' → m.id = m'.id → i = j) ∧
    ∀ o ∈ given, ∀ a ∈ o, ∀ f ∈ handed, ∀ m, Message.decode f.2 = .ok m → a ≠ m.id := by
  intro given handed
  obtain ⟨hdistinct, hgiven⟩ := Card.numbered_numbers.run (by omega : 4 * events.length ≤ 2 ^ 32) Card.boot
  have hobs := @LoraNode.observed_run P _ NR' NA' NF' port events'
  have hlen : (run LoraNode.observe (LoraNode.boot ⟨port, [], []⟩ : LoraNode (Meter P) NR' NA' NF') events').1.length =
      events'.length := length_run ..
  refine ⟨hdistinct, fun i j f g m m' hf hg hm hm' hid => ?_, fun o ho a ha f hf m hm hid => ?_⟩
  · obtain ⟨hi, hmi⟩ := LoraNode.id_handed hobs hf hm
    obtain ⟨hj, hmj⟩ := LoraNode.id_handed hobs hg hm'
    have := after_inj (by omega) (by omega) (hmi.symm.trans (hid.trans hmj))
    omega
  · obtain ⟨x, hx, hax⟩ := hgiven o ho a ha
    obtain ⟨j, hj⟩ := List.mem_iff_getElem?.mp hf
    obtain ⟨hjlen, hmj⟩ := LoraNode.id_handed hobs hj hm
    have heq : after CARD_ID_BASE x = after NODE_ID_BASE (2 * j) := hax.symm.trans (hid.trans hmj)
    have := congrArg UInt32.toNat heq
    rw [toNat_after, toNat_after, show CARD_ID_BASE.toNat = 2 ^ 25 from rfl, show NODE_ID_BASE.toNat = 2 ^ 24 from rfl]
      at this
    omega

theorem ids_unique_short :
    (run Card.numbered (Card.boot : Card 16 4 32) [.compose "a", .compose "b"]).1.Pairwise
      fun o o' => ∀ a ∈ o, ∀ b ∈ o', a ≠ b :=
  (@ids_unique OpenPort _ 16 4 32 8 2 32 ⟨.lora⟩ [.compose "a", .compose "b"] [.heartbeat] (by decide) (by decide)).1

end RelayStar

import RelayStar.Proof.Plans
import RelayStar.Proof.Reachable

/-!
# Answering a peer that was heard

A relay learns the sender of every frame it ingests, whatever else becomes of
the frame, unless the table of receivers is full; and it can send to a peer it
has learned on the transport the frame came from (`heard_peer_answered`).
-/

namespace RelayStar.Relay

variable {NR NA NF : Nat} {r : Relay NR NA NF}

/-- A unicast to a peer with a row is planned on every registered transport of
the row, and for this peer only. -/
theorem planSend_to_row {addr : Addr} {row : Receiver} {t : Transport} (hl : r.receivers.lookup addr = some row)
    (hr : row.reachableVia t = true) (ht : r.isPortRegistered t = true) (kind : MsgKind) {payload : List UInt8}
    (hp : payload.length ≤ MAX_PAYLOAD) :
    ∃ out, (r.planSend kind payload (.unicast addr)).1 = .ok out ∧ (∃ f ∈ out.toList, f.transport = t) ∧
      ∀ f ∈ out.toList, f.addr = .unicast addr ∧ f.message.toAddr = addr := by
  have hcan : r.CanSend (.unicast addr) :=
    ⟨⟨t, ht⟩, fun a ha => by cases ha; exact ⟨row, t, hl, hr, ht⟩⟩
  obtain ⟨out, bs, ho, hplan⟩ := planSend_blocks hcan kind ⟨payload, hp⟩
  refine ⟨out, ho, ?_, fun f hf => ?_⟩
  · have husable : r.usable (.unicast addr) t = true := by
      rw [usable, hl, ht]
      exact hr
    have hmem : t ∈ bs.map Block.transport := by
      rw [hplan.transports]
      exact List.mem_filter.mpr ⟨by cases t <;> decide, husable⟩
    obtain ⟨b, hb, rfl⟩ := List.mem_map.mp hmem
    obtain ⟨m, hm⟩ := List.exists_mem_of_ne_nil _ (hplan.nonempty b hb)
    refine ⟨⟨b.transport, .unicast addr, m⟩, ?_, rfl⟩
    rw [hplan.frames]
    exact List.mem_flatMap.mpr ⟨b, hb, List.mem_map_of_mem hm⟩
  · rw [hplan.frames] at hf
    obtain ⟨b, hb, hf⟩ := List.mem_flatMap.mp hf
    obtain ⟨m, hm, rfl⟩ := List.mem_map.mp hf
    refine ⟨rfl, ?_⟩
    show m.toAddr = addr
    rw [hplan.header b hb m hm]
    rfl

/-- The sender of a frame is learned, or there is no room for it. -/
theorem learnSender_cases (h : r.receivers.Ok) {m : Message} (source : Transport)
    (hb : m.fromAddr ≠ BROADCAST_ADDR) (hs : m.fromAddr ≠ r.selfAddr) :
    (r.receivers.lookup m.fromAddr ≠ none ∨ r.receivers.len < NR →
      ∃ row, (r.learnSender m source).lookup m.fromAddr = some row ∧ row.reachableVia source = true) ∧
    (¬ (r.receivers.lookup m.fromAddr ≠ none ∨ r.receivers.len < NR) →
      r.learnSender m source = r.receivers) := by
  have hle : r.receivers.len ≤ NR := r.receivers.entries.len_le
  have hlen := ReceiverTable.len_eq h
  rw [learnSender, if_pos ⟨hb, hs⟩]
  rcases ReceiverTable.add_cases h m.fromAddr source with ⟨⟨hnone, hsize⟩, ha⟩ | ⟨hroom, -, -, hpeers, -⟩
  · rw [ReceiverTable.peers_eq_none] at hnone
    refine ⟨fun hk => ?_, fun _ => by rw [ha]⟩
    rcases hk with hk | hk
    · exact absurd hnone hk
    · omega
  · refine ⟨fun _ => ?_, fun hk => absurd ?_ hroom⟩
    · rw [ReceiverTable.reachable_iff, hpeers]
      exact ⟨_, Function.update_self .., Finset.mem_insert_self ..⟩
    · rw [not_or, not_not, Nat.not_lt] at hk
      exact ⟨ReceiverTable.peers_eq_none.mpr hk.1, by omega⟩

/-- The other rows are left alone, and so are those of the relay and of the
broadcast address. -/
theorem lookup_learnSender (h : r.receivers.Ok) {m : Message} (source : Transport) {a : Addr}
    (ha : a ≠ m.fromAddr ∨ a = r.selfAddr ∨ a = BROADCAST_ADDR) :
    (r.learnSender m source).lookup a = r.receivers.lookup a := by
  unfold learnSender
  split
  · rename_i hf
    refine ReceiverTable.lookup_add_of_ne h ?_ source
    rcases ha with ha | rfl | rfl
    · exact ha
    · exact hf.2.symm
    · exact hf.1.symm
  · rfl

theorem isPortRegistered_ingest (r : Relay NR NA NF) (source : Transport) (frame : List UInt8) (t : Transport) :
    (r.ingest source frame).2.isPortRegistered t = r.isPortRegistered t := by
  cases hd : Message.decode frame with
  | error e => rw [r.ingest_error source hd]
  | ok m =>
    by_cases hk : some m.dedupKey ∈ r.seen.window
    · rw [r.ingest_known source hd hk]; rfl
    · rw [r.ingest_new source hd hk]; rfl

/-- In every state of a relay, the sender of a frame that is ingested can be
answered if it was known or there is a row for it, and else the table is as it
was; and no frame gives the relay itself or the broadcast address a row. -/
theorem heard_peer_answered (r : Relay NR NA NF) (h : r.Reachable) (source : Transport) (frame : List UInt8) :
    (∀ m, Message.decode frame = .ok m → m.fromAddr ≠ BROADCAST_ADDR → m.fromAddr ≠ r.selfAddr →
      (r.receivers.lookup m.fromAddr ≠ none ∨ r.receivers.len < NR →
        (∃ row, (r.ingest source frame).2.receivers.lookup m.fromAddr = some row ∧ row.reachableVia source = true) ∧
        (∀ a, a ≠ m.fromAddr → (r.ingest source frame).2.receivers.lookup a = r.receivers.lookup a) ∧
        (r.isPortRegistered source = true → ∀ kind payload, payload.length ≤ MAX_PAYLOAD →
          ∃ out, ((r.ingest source frame).2.planSend kind payload (.unicast m.fromAddr)).1 = .ok out ∧
            (∃ f ∈ out.toList, f.transport = source) ∧
            ∀ f ∈ out.toList, f.addr = .unicast m.fromAddr ∧ f.message.toAddr = m.fromAddr)) ∧
      (¬ (r.receivers.lookup m.fromAddr ≠ none ∨ r.receivers.len < NR) →
        (r.ingest source frame).2.receivers = r.receivers)) ∧
    ∀ a, a = r.selfAddr ∨ a = BROADCAST_ADDR →
      (r.ingest source frame).2.receivers.lookup a = r.receivers.lookup a := by
  have hok := reachable_receivers h
  refine ⟨fun m hd hb hs => ?_, fun a ha => ?_⟩
  · obtain ⟨hyes, hno⟩ := learnSender_cases hok (m := m.arrived source) source hb hs
    rw [← r.ingest_receivers source hd] at hyes hno
    refine ⟨fun hk => ?_, hno⟩
    obtain ⟨row, hl, hr⟩ := hyes hk
    refine ⟨⟨row, hl, hr⟩, fun a ha => ?_, fun ht kind payload hp => ?_⟩
    · rw [r.ingest_receivers source hd]
      exact lookup_learnSender hok source (.inl ha)
    · exact planSend_to_row hl hr (by rw [isPortRegistered_ingest, ht]) kind hp
  · cases hd : Message.decode frame with
    | error e => rw [r.ingest_error source hd]
    | ok m =>
      rw [r.ingest_receivers source hd]
      exact lookup_learnSender hok source (.inr ha)

/-- A message from node 2. -/
def exampleHeard : Message := { Fragmenter.exampleLong with fromAddr := nodeAddr 2 }

/-- A relay with one port answers node 2. -/
theorem heard_peer_answered_lora :
    ∃ out, ((((Relay.new (nodeAddr 1) 0 : Relay 1 1 2).registerPort .lora).ingest .lora exampleHeard.wire).2.planSend
      .pong [] (.unicast (nodeAddr 2))).1 = .ok out := by
  have hreach : ((Relay.new (nodeAddr 1) 0 : Relay 1 1 2).registerPort .lora).Reachable :=
    ⟨_, _, _, .other .start (.registerPort _ .lora)⟩
  obtain ⟨-, -, hplan⟩ := ((heard_peer_answered _ hreach .lora exampleHeard.wire).1 exampleHeard
    exampleHeard.decode_wire_self (by decide) (by decide)).1 (.inr (by decide))
  obtain ⟨out, ho, -⟩ := hplan (by decide) .pong [] (by decide)
  exact ⟨out, ho⟩

end RelayStar.Relay

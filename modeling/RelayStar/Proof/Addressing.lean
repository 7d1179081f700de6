import RelayStar.Proof.Direct
import RelayStar.Proof.Reply

/-!
# The address of a frame

A frame is addressed by the destination it is sent to or by the `to` field of the
message it forwards. These agree (`Addressed`) unless there is a unicast to the
broadcast address, which takes a row for it in the table of receivers
(`addressed_iff_canSend`). No frame makes such a row, only a call that asks for it
(`frame_addressing`).
-/

namespace RelayStar

theorem matchesBroadcast_iff {addr : Addr} : matchesBroadcast addr = true ↔ addr = BROADCAST_ADDR := by
  constructor
  · intro h
    simp only [matchesBroadcast, Bool.and_eq_true, beq_iff_eq] at h
    obtain ⟨⟨⟨⟨⟨h0, h1⟩, h2⟩, h3⟩, h4⟩, h5⟩ := h
    apply Vector.ext
    intro i hi
    obtain rfl | rfl | rfl | rfl | rfl | rfl : i = 0 ∨ i = 1 ∨ i = 2 ∨ i = 3 ∨ i = 4 ∨ i = 5 := by omega
    · exact h0
    · exact h1
    · exact h2
    · exact h3
    · exact h4
    · exact h5
  · rintro rfl
    decide

theorem fromBytes_broadcast : FrameAddr.fromBytes BROADCAST_ADDR = .broadcast :=
  if_pos (matchesBroadcast_iff.mpr rfl)

theorem fromBytes_of_ne {addr : Addr} (h : addr ≠ BROADCAST_ADDR) : FrameAddr.fromBytes addr = .unicast addr :=
  if_neg (mt matchesBroadcast_iff.mp h)

/-- A message that is forwarded is addressed by its `to` field. -/
theorem Message.frameAddr_eq (m : Message) :
    (if m.isBroadcast then FrameAddr.broadcast else .unicast m.toAddr) = .fromBytes m.toAddr := by
  rw [isBroadcast]
  by_cases h : m.toAddr = BROADCAST_ADDR
  · rw [if_pos (decide_eq_true h), h, fromBytes_broadcast]
  · rw [if_neg fun hb => h (of_decide_eq_true hb), fromBytes_of_ne h]

/-- A destination other than a unicast to the broadcast address. -/
theorem Destination.frameAddr_eq {dest : Destination} (h : dest ≠ .unicast BROADCAST_ADDR) :
    dest.frameAddr = .fromBytes dest.addr := by
  cases dest with
  | broadcast => exact fromBytes_broadcast.symm
  | unicast a => exact (fromBytes_of_ne fun ha => h (by rw [ha])).symm

/-- The bytes of a message that are addressed to its `to` field. -/
def WellAddressed (c : FrameAddr × List UInt8) : Prop :=
  ∃ m, Message.decode c.2 = .ok m ∧ c.1 = .fromBytes m.toAddr

namespace Relay

variable {NR NA NF : Nat} {r : Relay NR NA NF}

/-- Every frame that is planned, and every one that a port is handed, has the
address of its message. -/
structure Addressed (r : Relay NR NA NF) : Prop where
  planSend : ∀ kind payload dest out, (r.planSend kind payload dest).1 = .ok out →
    ∀ f ∈ out.toList, f.addr = .fromBytes f.message.toAddr
  planForward : ∀ msg target out, (r.planForward msg target).1 = .ok out →
    ∀ f ∈ out.toList, f.addr = .fromBytes f.message.toAddr
  send : ∀ {P : Type} [TransportPort P] (port : P) kind payload dest,
    ∀ c ∈ (r.send (⟨port, []⟩ : Recorder P) kind payload dest).1.2.handed, WellAddressed c
  forward : ∀ {P : Type} [TransportPort P] (port : P) msg,
    ∀ c ∈ (r.forward (⟨port, []⟩ : Recorder P) msg).1.2.handed, WellAddressed c

/-- The frames of a message, addressed to its `to` field. -/
theorem addr_framesOn {m : Message} {t t' : Transport} {g : UInt32} {addr : FrameAddr} (h : addr = .fromBytes m.toAddr) :
    ∀ f ∈ (m.framesOn t g).map (⟨t', addr, ·⟩ : Message → PlannedFrame), f.addr = .fromBytes f.message.toAddr := by
  intro f hf
  obtain ⟨x, hx, rfl⟩ := List.mem_map.mp hf
  show addr = .fromBytes x.toAddr
  rw [Message.mem_framesOn hx, h]

section Handed

variable {P : Type} [TransportPort P]

/-- A port is handed frames of the plan only. -/
theorem handed_dispatch {cap : Nat} {out : HVec PlannedFrame cap} (h : ∀ f ∈ out.toList, f.addr = .fromBytes f.message.toAddr)
    (r : Relay NR NA NF) (port : P) :
    ∀ c ∈ (dispatch (.ok out, r) (⟨port, []⟩ : Recorder P)).1.2.handed, WellAddressed c := by
  intro c hc
  have hport : (dispatch (.ok out, r) (⟨port, []⟩ : Recorder P)).1.2 =
      (handOver (out.toList.map fun f => (f.addr, f.message.wire)) (⟨port, []⟩ : Recorder P)).2 := by
    rw [dispatch]
    cases handOver (out.toList.map fun f => (f.addr, f.message.wire)) (⟨port, []⟩ : Recorder P) with
    | mk res q => cases res <;> rfl
  have hmem : c ∈ out.toList.map fun f => (f.addr, f.message.wire) := by
    rw [hport] at hc
    apply (handed_handOver (out.toList.map fun f => (f.addr, f.message.wire)) (⟨port, []⟩ : Recorder P)).elim
    · rintro ⟨-, hall⟩
      rwa [hall] at hc
    · rintro ⟨before, last, after, e, heq, -, -, -, hpart⟩
      rw [hpart] at hc
      rw [heq, ← List.singleton_append, ← List.append_assoc]
      exact List.mem_append_left _ hc
  obtain ⟨f, hf, rfl⟩ := List.mem_map.mp hmem
  exact ⟨f.message, f.message.decode_wire_self, h f hf⟩

end Handed

/-! ## Every state -/

section State

variable (hno : ¬ r.CanSend (.unicast BROADCAST_ADDR))

include hno

theorem frameAddr_of_resolve {dest : Destination} {ts : List Transport} (hts : r.resolveTargets dest = .ok ts) :
    dest.frameAddr = .fromBytes dest.addr := by
  apply Destination.frameAddr_eq
  rintro rfl
  exact hno (canSend_of_resolve hts)

theorem planSend_addressed {kind : MsgKind} {payload : List UInt8} {dest : Destination}
    {out : HVec PlannedFrame (MAX_FRAGMENTS * 3)} (h : (r.planSend kind payload dest).1 = .ok out) :
    ∀ f ∈ out.toList, f.addr = .fromBytes f.message.toAddr := by
  cases hts : r.resolveTargets dest with
  | error e =>
    simp only [planSend, hts] at h
    cases h
  | ok ts =>
    obtain ⟨p, g, ts, -, -, -, hout⟩ := planSend_ok h
    intro f hf
    rw [hout, Message.plan] at hf
    obtain ⟨t, -, hf⟩ := List.mem_flatMap.mp hf
    refine addr_framesOn ?_ f hf
    exact frameAddr_of_resolve hno hts

theorem send_addressed {P : Type} [TransportPort P] (port : P) (kind : MsgKind) (payload : List UInt8)
    (dest : Destination) : ∀ c ∈ (r.send (⟨port, []⟩ : Recorder P) kind payload dest).1.2.handed, WellAddressed c := by
  have hnone : ∀ c ∈ (⟨port, []⟩ : Recorder P).handed, WellAddressed c := fun c hc => absurd hc List.not_mem_nil
  cases hts : r.resolveTargets dest with
  | error e =>
    simp only [send, hts]
    exact hnone
  | ok ts =>
    by_cases ht : TransportPort.transport (⟨port, []⟩ : Recorder P) ∈ ts
    · by_cases hp : payload.length ≤ MAX_PAYLOAD
      · obtain ⟨out, hs, hout⟩ := r.send_one (⟨port, []⟩ : Recorder P) kind ⟨payload, hp⟩ dest hts ht
        rw [show r.send _ kind payload dest = _ from hs]
        apply handed_dispatch
        rw [hout]
        refine addr_framesOn ?_
        exact frameAddr_of_resolve hno hts
      · have hc : ts.contains (TransportPort.transport (⟨port, []⟩ : Recorder P)) = true := List.contains_iff_mem.mpr ht
        cases hm : Fragmenter.prepare r.nextId.1 DEFAULT_TTL (TransportPort.transport (⟨port, []⟩ : Recorder P))
            r.nextId.2.selfAddr dest.addr kind payload with
        | error e =>
          simp only [send, hts, hc, Bool.not_true, Bool.false_eq_true, if_false, hm]
          exact hnone
        | ok m => exact absurd (prepare_ok hm ▸ m.payload.length_le) hp
    · have hc : ts.contains (TransportPort.transport (⟨port, []⟩ : Recorder P)) = false :=
        Bool.eq_false_iff.mpr fun h => ht (List.contains_iff_mem.mp h)
      simp only [send, hts, hc, Bool.not_false, if_true]
      exact hnone

end State

theorem planForward_addressed {msg : Message} {target : Transport} {out : HVec PlannedFrame MAX_FRAGMENTS}
    (h : (r.planForward msg target).1 = .ok out) : ∀ f ∈ out.toList, f.addr = .fromBytes f.message.toAddr := by
  by_cases h0 : msg.ttl = 0
  · rw [r.planForward_exhausted h0] at h
    cases h
    exact fun f hf => absurd hf List.not_mem_nil
  · obtain ⟨out', hp, hout⟩ := r.planForward_relayed h0 target
    rw [hp] at h
    cases h
    rw [hout]
    refine addr_framesOn ?_
    exact Message.frameAddr_eq msg

theorem forward_addressed {P : Type} [TransportPort P] (port : P) (msg : Message) :
    ∀ c ∈ (r.forward (⟨port, []⟩ : Recorder P) msg).1.2.handed, WellAddressed c := by
  rw [forward_eq]
  obtain ⟨out, hout, -⟩ := r.planForward_total msg (TransportPort.transport (⟨port, []⟩ : Recorder P))
  rw [show r.planForward msg _ = (.ok out, _) from Prod.ext hout rfl]
  exact handed_dispatch (planForward_addressed hout) _ port

/-- The addresses go astray exactly when the broadcast address can be sent to as if
it were that of a node. -/
theorem addressed_iff_canSend (r : Relay NR NA NF) : r.Addressed ↔ ¬ r.CanSend (.unicast BROADCAST_ADDR) := by
  constructor
  · intro h hcan
    obtain ⟨row, t, hl, hr, ht⟩ := hcan.2 _ rfl
    obtain ⟨out, ho, ⟨f, hf, -⟩, hall⟩ := planSend_to_row hl hr ht .ping
      (show ([] : List UInt8).length ≤ MAX_PAYLOAD by decide)
    have haddr := h.planSend _ _ _ _ ho f hf
    rw [(hall f hf).1, (hall f hf).2, fromBytes_broadcast] at haddr
    cases haddr
  · intro hno
    exact ⟨fun _ _ _ _ h => planSend_addressed hno h, fun _ _ _ h => planForward_addressed h,
      fun port kind payload dest => send_addressed hno port kind payload dest,
      fun port msg => forward_addressed port msg⟩

end Relay

/-! ## Runs -/

namespace Relay

variable {NR NA NF : Nat}

/-- The broadcast address has no row. -/
structure NoBroadcastRow (r : Relay NR NA NF) : Prop where
  ok : r.receivers.Ok
  lookup : r.receivers.lookup BROADCAST_ADDR = none

namespace NoBroadcastRow

variable {r : Relay NR NA NF}

theorem onlyIds {r' : Relay NR NA NF} (h : r.NoBroadcastRow) (hids : OnlyIds r r') : r'.NoBroadcastRow := by
  obtain ⟨n, rfl⟩ := hids
  exact ⟨h.ok, h.lookup⟩

theorem call (h : r.NoBroadcastRow) {c : ReceiverTable.Call} (hc : c.asks ≠ some BROADCAST_ADDR) :
    ({ r with receivers := (r.receivers.call c).2 } : Relay NR NA NF).NoBroadcastRow := by
  obtain ⟨-, hok, hpeers⟩ := ReceiverTable.call_refines h.ok c
  refine ⟨hok, ReceiverTable.peers_eq_none.mp ?_⟩
  rw [hpeers]
  exact Spec.PeerMap.call_of_not_asked hc (ReceiverTable.peers_eq_none.mpr h.lookup)

theorem ingest (h : r.NoBroadcastRow) (source : Transport) (frame : List UInt8) :
    (r.ingest source frame).2.NoBroadcastRow := by
  cases hd : Message.decode frame with
  | error e =>
    rw [r.ingest_error source hd]
    exact h
  | ok m =>
    have hrow := r.ingest_receivers source hd
    refine ⟨?_, ?_⟩
    · rw [hrow]
      exact learnSender_ok h.ok _ _
    · rw [hrow, lookup_learnSender h.ok source (.inr (.inr rfl)), h.lookup]

end NoBroadcastRow

/-- An operation that does not ask for a row for the broadcast address makes none. -/
theorem op_noBroadcastRow {r r' : Relay NR NA NF} (hop : OpFor (· ≠ BROADCAST_ADDR) r r') (h : r.NoBroadcastRow) :
    r'.NoBroadcastRow := by
  rcases op_cases hop with hids | ⟨v, rfl⟩ | ⟨c, hc, rfl⟩
  · exact h.onlyIds hids
  · exact ⟨h.ok, h.lookup⟩
  · exact h.call fun hask => hc _ hask rfl

theorem run_noBroadcastRow {r₀ r : Relay NR NA NF} {calls : List (Relay NR NA NF × Transport × List UInt8)}
    (h : RunFor (· ≠ BROADCAST_ADDR) r₀ calls r) (h₀ : r₀.NoBroadcastRow) : r.NoBroadcastRow := by
  induction h with
  | start => exact h₀
  | other _ hop ih => exact op_noBroadcastRow hop ih
  | ingest _ source frame ih => exact ih.ingest source frame

end Relay

/-- A relay addresses every frame by its message exactly when it cannot send to the
broadcast address as to a node; and so it does in every state of a run in which no
call asks for a row for the broadcast address. -/
theorem frame_addressing {NR NA NF : Nat} :
    (∀ r : Relay NR NA NF, r.Addressed ↔ ¬ r.CanSend (.unicast BROADCAST_ADDR)) ∧
    ∀ selfAddr idBase calls (r : Relay NR NA NF), Relay.RunFor (· ≠ BROADCAST_ADDR) (.new selfAddr idBase) calls r →
      r.Addressed := by
  refine ⟨Relay.addressed_iff_canSend, fun selfAddr idBase calls r h => ?_⟩
  have hrow := Relay.run_noBroadcastRow h ⟨ReceiverTable.ok_new, rfl⟩
  rw [Relay.addressed_iff_canSend]
  intro hcan
  obtain ⟨row, t, hl, -⟩ := hcan.2 _ rfl
  rw [hrow.lookup] at hl
  cases hl

/-- A relay that learns node 2 addresses its frames by their messages. -/
theorem frame_addressing_learned :
    (((Relay.new (nodeAddr 1) 0 : Relay 1 1 2).registerPort .lora).learnReceiver (nodeAddr 2) .lora).2.Addressed :=
  frame_addressing.2 (nodeAddr 1) 0 [] _
    (.other (.other .start (.registerPort _ .lora)) (.learnReceiver _ (nodeAddr 2) .lora (by decide)))

/-- A relay that is asked for a row for the broadcast address. -/
def broadcastRow : Relay 1 1 2 :=
  (((Relay.new (nodeAddr 1) 0).registerPort .lora).addReceiver BROADCAST_ADDR .lora).2

/-- It sends to the broadcast address by unicast. -/
theorem broadcast_by_unicast : broadcastRow.Reachable ∧ ¬ broadcastRow.Addressed := by
  refine ⟨⟨_, _, _, .other (.other .start (.registerPort _ .lora)) (.addReceiver _ BROADCAST_ADDR .lora trivial)⟩,
    fun h => ?_⟩
  have hl : broadcastRow.receivers.lookup BROADCAST_ADDR =
      some ⟨BROADCAST_ADDR, (TransportBitmap.empty.insert .lora).2⟩ := by decide
  obtain ⟨out, ho, ⟨f, hf, -⟩, hall⟩ := Relay.planSend_to_row (t := .lora) hl (by decide) (by decide) .ping
    (show ([] : List UInt8).length ≤ MAX_PAYLOAD by decide)
  have haddr := h.planSend _ _ _ _ ho f hf
  rw [(hall f hf).1, (hall f hf).2, fromBytes_broadcast] at haddr
  cases haddr

end RelayStar

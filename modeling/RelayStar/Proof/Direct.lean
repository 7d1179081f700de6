import Mathlib.Data.List.Nodup
import RelayStar.Proof.Planning
import RelayStar.Proof.Proto

/-!
# The direct interface sends what the planner plans

`Relay.send` and `Relay.forward` hand a port the frames that `Relay.planSend`
and `Relay.planForward` plan for its transport, until it fails
(`direct_eq_planned`). The planner and the direct interface are separate bodies
in the source; here both are reduced to `Message.framesOn`.
-/

namespace RelayStar

/-! ## Handing frames to a port -/

section Port

variable {P : Type} [TransportPort P]

/-- Hand a port one pair after the other, until it fails. -/
def handOver : List (FrameAddr × List UInt8) → P → Except PortError Unit × P
  | [], port => (.ok (), port)
  | (addr, bytes) :: pairs, port => match TransportPort.sendFrame port addr bytes with
    | (.error e, port) => (.error e, port)
    | (.ok (), port) => handOver pairs port

/-- A port that keeps what it is handed. -/
structure Recorder (P : Type) where
  port : P
  handed : List (FrameAddr × List UInt8)

instance : TransportPort (Recorder P) where
  transport p := TransportPort.transport p.port
  sendFrame p addr bytes :=
    ((TransportPort.sendFrame p.port addr bytes).1,
      ⟨(TransportPort.sendFrame p.port addr bytes).2, p.handed ++ [(addr, bytes)]⟩)

/-- What is handed over: all of the pairs, or those up to the first that the
port fails on. -/
theorem handed_handOver (pairs : List (FrameAddr × List UInt8)) (p : Recorder P) :
    ((handOver pairs p).1 = .ok () ∧ (handOver pairs p).2.handed = p.handed ++ pairs) ∨
      ∃ pre c post e, pairs = pre ++ c :: post ∧ (handOver pre p).1 = .ok () ∧
        (TransportPort.sendFrame (handOver pre p).2.port c.1 c.2).1 = .error e ∧
        (handOver pairs p).1 = .error e ∧ (handOver pairs p).2.handed = p.handed ++ (pre ++ [c]) := by
  induction pairs generalizing p with
  | nil => exact Or.inl ⟨rfl, (List.append_nil _).symm⟩
  | cons c pairs ih =>
    obtain ⟨addr, bytes⟩ := c
    cases hs : TransportPort.sendFrame p addr bytes with
    | mk res q =>
      have hq : q.handed = p.handed ++ [(addr, bytes)] := congrArg (fun x => x.2.handed) hs.symm
      cases res with
      | error e =>
        refine Or.inr ⟨[], (addr, bytes), pairs, e, rfl, rfl, congrArg Prod.fst hs, ?_⟩
        rw [handOver, hs]
        exact ⟨rfl, hq⟩
      | ok u =>
        have hstep : ∀ l, handOver ((addr, bytes) :: l) p = handOver l q := fun l => by rw [handOver, hs]
        rw [hstep]
        rcases ih q with ⟨h1, h2⟩ | ⟨pre, c, post, e, rfl, h1, h2, h3, h4⟩
        · exact Or.inl ⟨h1, by rw [h2, hq, List.append_assoc]; rfl⟩
        · refine Or.inr ⟨(addr, bytes) :: pre, c, post, e, rfl, ?_, ?_, h3, ?_⟩
          · rw [hstep]; exact h1
          · rw [hstep]; exact h2
          · rw [h4, hq, List.append_assoc]; rfl

end Port

namespace Relay

variable {NR NA NF : Nat} {P : Type} [TransportPort P]

/-- Hand over the frames of a plan: the count, or the error of the plan or of
the port. -/
def dispatch {cap : Nat} (plan : Except RelayError (HVec PlannedFrame cap) × Relay NR NA NF) (port : P) :
    (Except RelayError Nat × P) × Relay NR NA NF :=
  match plan with
  | (.error e, r) => ((.error e, port), r)
  | (.ok out, r) => match handOver (out.toList.map fun f => (f.addr, f.message.wire)) port with
    | (.error e, port) => ((.error (.port e), port), r)
    | (.ok (), port) => ((.ok out.len, port), r)

theorem emitFrames_eq (addr : FrameAddr) (frames : List Message) (port : P) (count : Nat) :
    emitFrames addr frames port count =
      match handOver (frames.map fun m => (addr, m.wire)) port with
      | (.error e, port) => (.error (.port e), port)
      | (.ok (), port) => (.ok (count + frames.length), port) := by
  induction frames generalizing port count with
  | nil => rfl
  | cons m frames ih =>
    rw [emitFrames, m.encode_max_frame, List.map_cons, handOver]
    dsimp only
    cases TransportPort.sendFrame port addr m.wire with
    | mk res q =>
      cases res with
      | error e => rfl
      | ok u =>
        dsimp only
        rw [ih, List.length_cons, Nat.add_assoc, Nat.add_comm 1]

/-- Emitting a message is handing over its frames. -/
theorem emit_eq {cap : Nat} (r : Relay NR NA NF) (port : P) (m : Message) (dest : Destination)
    {out : HVec PlannedFrame cap}
    (h : out.toList = (m.framesOn (TransportPort.transport port) r.nextId.1).map
      (⟨TransportPort.transport port, dest.frameAddr, ·⟩)) :
    r.emit port m dest = dispatch (.ok out, r.nextId.2) port := by
  obtain ⟨frames, hs, hf⟩ := Fragmenter.split_eq m (TransportPort.transport port) r.nextId.1
  have hpairs : (out.toList.map fun f => (f.addr, f.message.wire)) =
      frames.toList.map fun m => (dest.frameAddr, m.wire) := by
    rw [h, ← hf, List.map_map]; rfl
  have hlen : out.len = 0 + frames.toList.length := by
    rw [HVec.len, h, ← hf, List.length_map, Nat.zero_add]
  simp only [emit, hs, dispatch, emitFrames_eq, hpairs, hlen]
  cases handOver (frames.toList.map fun m => (dest.frameAddr, m.wire)) port with
  | mk res q => cases res <;> rfl

theorem forward_eq (r : Relay NR NA NF) (port : P) (m : Message) :
    r.forward port m = dispatch (r.planForward m (TransportPort.transport port)) port := by
  by_cases h : m.ttl = 0
  · rw [r.planForward_exhausted h, forward, Message.preparedForRelay, if_pos h]
    rfl
  · obtain ⟨out, hp, hout⟩ := r.planForward_relayed h (TransportPort.transport port)
    rw [hp, forward, Message.preparedForRelay, if_neg h]
    apply emit_eq
    rw [hout]
    cases hb : m.isBroadcast with
    | false => rw [show Message.isBroadcast { m with ttl := m.ttl - 1 } = false from hb]; rfl
    | true => rw [show Message.isBroadcast { m with ttl := m.ttl - 1 } = true from hb]; rfl

/-- A plan for one transport: that of the message that is prepared for it. -/
theorem planTargets_one (id : UInt32) (kind : MsgKind) (payload : List UInt8) (dest : Destination) (t : Transport)
    (r : Relay NR NA NF) :
    match Fragmenter.prepare id DEFAULT_TTL t r.selfAddr dest.addr kind payload with
    | .error e => planTargets id kind payload dest [t] .empty r = (.error e, r)
    | .ok m => ∃ out, planTargets id kind payload dest [t] .empty r = (.ok out, r.nextId.2) ∧
        out.toList = (m.framesOn t r.nextId.1).map (⟨t, dest.frameAddr, ·⟩) := by
  cases hm : Fragmenter.prepare id DEFAULT_TTL t r.selfAddr dest.addr kind payload with
  | error e => simp only [planTargets, hm]
  | ok m =>
    obtain ⟨fs, hs, hfs⟩ := Fragmenter.split_eq m t r.nextId.1
    obtain ⟨out, hp, hout⟩ := pushFrames_framesOn (by decide : 2 ≤ MAX_FRAGMENTS * 3) m t t r.nextId.1
      dest.frameAddr
    refine ⟨out, ?_, hout⟩
    simp only [planTargets, hm, hs, hfs, hp]

theorem send_eq (r : Relay NR NA NF) (port : P) (kind : MsgKind) (payload : List UInt8) (dest : Destination)
    (h : r.resolveTargets dest = .ok [TransportPort.transport port]) :
    r.send port kind payload dest = dispatch (r.planSend kind payload dest) port := by
  have hc : [TransportPort.transport port].contains (TransportPort.transport port) = true := by
    rw [List.contains_iff_mem]
    exact List.mem_singleton_self _
  have hone := planTargets_one r.nextId.1 kind payload dest (TransportPort.transport port) r.nextId.2
  simp only [planSend, send, h, hc, Bool.not_true, Bool.false_eq_true, if_false]
  cases hm : Fragmenter.prepare r.nextId.1 DEFAULT_TTL (TransportPort.transport port) r.nextId.2.selfAddr
      dest.addr kind payload with
  | error e =>
    rw [hm] at hone
    rw [show planTargets r.nextId.1 kind payload dest _ _ r.nextId.2 = _ from hone]
    rfl
  | ok m =>
    rw [hm] at hone
    obtain ⟨out, hp, hout⟩ := hone
    rw [show planTargets r.nextId.1 kind payload dest _ _ r.nextId.2 = _ from hp]
    exact r.nextId.2.emit_eq port m dest hout

/-- Sending a payload that fits one message, on one of several targets. -/
theorem send_one (r : Relay NR NA NF) (port : P) (kind : MsgKind) (p : Payload) (dest : Destination)
    {ts : List Transport} (hts : r.resolveTargets dest = .ok ts) (ht : TransportPort.transport port ∈ ts) :
    ∃ out : HVec PlannedFrame 2, r.send port kind p.toList dest = dispatch (.ok out, r.nextId.2.nextId.2) port ∧
      out.toList = (Message.framesOn ⟨r.nextId.1, DEFAULT_TTL, TransportPort.transport port, r.selfAddr, dest.addr,
        kind, p, none⟩ (TransportPort.transport port) r.nextId.2.nextId.1).map
          (⟨TransportPort.transport port, dest.frameAddr, ·⟩) := by
  obtain ⟨out, -, hout⟩ := pushFrames_framesOn (Nat.le_refl 2) ⟨r.nextId.1, DEFAULT_TTL,
    TransportPort.transport port, r.selfAddr, dest.addr, kind, p, none⟩ (TransportPort.transport port)
    (TransportPort.transport port) r.nextId.2.nextId.1 dest.frameAddr
  refine ⟨out, ?_, hout⟩
  have hc : ts.contains (TransportPort.transport port) = true := List.contains_iff_mem.mpr ht
  simp only [send, hts, hc, Bool.not_true, Bool.false_eq_true, if_false, prepare_payload]
  exact r.nextId.2.emit_eq port _ dest hout

end Relay

/-- The direct interface hands the port the frames the planner plans for its
transport, in this order, until the port fails, and leaves the relay as the
planner does. -/
theorem direct_eq_planned {NR NA NF : Nat} {P : Type} [TransportPort P] (r : Relay NR NA NF) (port : P) :
    (∀ msg, r.forward port msg = Relay.dispatch (r.planForward msg (TransportPort.transport port)) port) ∧
      ∀ kind payload dest ts, r.resolveTargets dest = .ok ts → (∀ t, t ∈ ts ↔ t = TransportPort.transport port) →
        r.send port kind payload dest = Relay.dispatch (r.planSend kind payload dest) port := by
  refine ⟨r.forward_eq port, fun kind payload dest ts hts hmem => r.send_eq port kind payload dest ?_⟩
  have hnd := Relay.resolveTargets_nodup hts
  have hperm : ts.Perm [TransportPort.transport port] :=
    (List.perm_ext_iff_of_nodup hnd (List.nodup_singleton _)).mpr fun t => by
      rw [hmem, List.mem_singleton]
  rw [hts, List.perm_singleton.mp hperm]

end RelayStar

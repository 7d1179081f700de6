import Mathlib.Data.List.Perm.Basic
import Mathlib.Data.List.Permutation
import RelayStar.Proof.Direct
import RelayStar.Proof.Path
import RelayStar.Proof.Window

/-!
# Sending once per port

A payload is sent on several ports, one call of `send` for each
(`Relay.sendEach`). Every call allocates an id of its own, so what is sent are
as many messages as there are ports (`sentOn`), whose frames have different keys
(`keys_nodup_sentOn`). A receiver is handed all of them
(`length_delivered_sentOn`): the payload arrives once exactly if there is one
port (`fanout_delivered_once_iff`).
-/

namespace RelayStar

/-- A port that takes every frame. -/
structure OpenPort where
  transport : Transport

instance : TransportPort OpenPort where
  transport p := p.transport
  sendFrame p _ _ := (.ok (), p)

theorem handOver_open (t : Transport) (pairs : List (FrameAddr × List UInt8)) :
    handOver pairs (Recorder.mk (OpenPort.mk t) []) = (.ok (), ⟨⟨t⟩, pairs⟩) := by
  suffices H : ∀ log, handOver pairs (Recorder.mk (OpenPort.mk t) log) = (.ok (), ⟨⟨t⟩, log ++ pairs⟩) from
    H []
  induction pairs with
  | nil => intro log; rw [List.append_nil]; rfl
  | cons c pairs ih =>
    intro log
    refine (ih (log ++ [c])).trans ?_
    rw [List.append_assoc]
    rfl

namespace Relay

variable {NR NA NF : Nat}

/-- Send a payload on each of some ports: the frames that are emitted. -/
def sendEach (kind : MsgKind) (payload : List UInt8) (dest : Destination) :
    List Transport → Relay NR NA NF → List (Transport × List UInt8) × Relay NR NA NF
  | [], r => ([], r)
  | t :: ts, r =>
    let sent := r.send (Recorder.mk (OpenPort.mk t) []) kind payload dest
    let rest := sendEach kind payload dest ts sent.2
    ((sent.1.2.handed.map fun c => (t, c.2)) ++ rest.1, rest.2)

/-- The frames of the messages that are sent on some ports: each has an id and
a group id of its own. -/
def sentOn (kind : MsgKind) (p : Payload) (dest : Destination) :
    List Transport → Relay NR NA NF → List (Transport × Message)
  | [], _ => []
  | t :: ts, r =>
    (Message.framesOn ⟨r.nextId.1, DEFAULT_TTL, t, r.selfAddr, dest.addr, kind, p, none⟩ t
      r.nextId.2.nextId.1).map (t, ·) ++ sentOn kind p dest ts r.nextId.2.nextId.2

variable {kind : MsgKind} {p : Payload} {dest : Destination} {ts : List Transport}

theorem sendEach_eq {targets : List Transport} {r : Relay NR NA NF} (hts : r.resolveTargets dest = .ok targets)
    (hsub : ∀ t ∈ ts, t ∈ targets) :
    (sendEach kind p.toList dest ts r).1 = (sentOn kind p dest ts r).map fun c => (c.1, c.2.wire) := by
  induction ts generalizing r with
  | nil => rfl
  | cons t ts ih =>
    obtain ⟨out, hs, hout⟩ := r.send_one (Recorder.mk (OpenPort.mk t) []) kind p dest hts (hsub t List.mem_cons_self)
    rw [dispatch, handOver_open] at hs
    have hrest := ih (r := r.nextId.2.nextId.2) hts fun t' h => hsub t' (List.mem_cons_of_mem _ h)
    rw [sendEach, sentOn, hs]
    dsimp only
    rw [hrest, hout, List.map_append]
    simp only [List.map_map]
    rfl

/-! ## The keys of the frames -/

theorem id_framesOn {m x : Message} {t : Transport} {g : UInt32} (h : x ∈ m.framesOn t g) : x.id = m.id := by
  rw [Message.mem_framesOn h]

/-- The keys of a message have the lower half of its id. -/
theorem key_framesOn {m x : Message} {t : Transport} {g : UInt32} (h : x ∈ m.framesOn t g) :
    (callKey (t, x)).toNat % 65536 = m.id.toNat % 65536 := by
  rw [← id_framesOn h]
  exact x.dedupKey_mod

/-- The id of the next message. -/
theorem toNat_next (r : Relay NR NA NF) :
    r.nextId.2.nextId.2.nextId.1.toNat = (r.nextId.1.toNat + 2) % 2 ^ 32 := by
  show (r.idBase + (r.idCtr + 1 + 1)).toNat = ((r.idBase + r.idCtr).toNat + 2) % 2 ^ 32
  simp only [UInt32.toNat_add, show (1 : UInt32).toNat = 1 from rfl]
  omega

/-- The keys of the messages sent one after the other. -/
theorem key_sentOn {r : Relay NR NA NF} {c : Transport × Message} (h : c ∈ sentOn kind p dest ts r) :
    ∃ j < ts.length, (callKey c).toNat % 65536 = (r.nextId.1.toNat + 2 * j) % 65536 := by
  induction ts generalizing r with
  | nil => cases h
  | cons t ts ih =>
    rcases List.mem_append.mp h with h | h
    · obtain ⟨x, hx, rfl⟩ := List.mem_map.mp h
      exact ⟨0, Nat.succ_pos _, key_framesOn hx⟩
    · obtain ⟨j, hj, hk⟩ := ih h
      refine ⟨j + 1, Nat.succ_lt_succ hj, ?_⟩
      have := r.toNat_next
      omega

theorem keys_nodup_framesOn {m : Message} {t : Transport} {g : UInt32} :
    (((m.framesOn t g).map (t, ·)).map callKey).Nodup := by
  unfold Message.framesOn
  split
  · have hne : callKey (t, (m.halves g).frame 0) ≠ callKey (t, (m.halves g).frame 1) :=
      callKey_halves_ne (by decide : 1 < 2) t t
    exact List.nodup_cons.mpr ⟨fun h => hne (List.mem_singleton.mp h), List.nodup_singleton _⟩
  · exact List.nodup_singleton _

/-- The frames sent on at most three ports have different keys. -/
theorem keys_nodup_sentOn (hlen : ts.length ≤ 3) (r : Relay NR NA NF) :
    ((sentOn kind p dest ts r).map callKey).Nodup := by
  induction ts generalizing r with
  | nil => exact List.nodup_nil
  | cons t ts ih =>
    rw [List.length_cons] at hlen
    rw [sentOn, List.map_append, List.nodup_append]
    refine ⟨keys_nodup_framesOn, ih (by omega) _, ?_⟩
    intro k hk k' hk' e
    subst e
    obtain ⟨c, hc, rfl⟩ := List.mem_map.mp hk
    obtain ⟨x, hx, rfl⟩ := List.mem_map.mp hc
    obtain ⟨c', hc', he⟩ := List.mem_map.mp hk'
    obtain ⟨j, hj, hk⟩ := key_sentOn hc'
    have h0 : (callKey (t, x)).toNat % 65536 = r.nextId.1.toNat % 65536 := key_framesOn hx
    have := r.toNat_next
    rw [he] at hk
    omega

/-! ## What a receiver is handed -/

section Cases

variable (kind p dest ts)

/-- At most two frames on each port. -/
theorem length_sentOn_le (r : Relay NR NA NF) : (sentOn kind p dest ts r).length ≤ 2 * ts.length := by
  induction ts generalizing r with
  | nil => exact Nat.le_refl 0
  | cons t ts ih =>
    have := ih r.nextId.2.nextId.2
    rw [sentOn, List.length_append, List.length_map, List.length_cons]
    unfold Message.framesOn
    split
    · show 2 + _ ≤ _; omega
    · show 1 + _ ≤ _; omega

variable {ts}

/-- Nothing is split on the other transports. -/
theorem whole_sentOn (hts : .lora ∉ ts) (r : Relay NR NA NF) :
    (sentOn kind p dest ts r).length = ts.length ∧ ∀ c ∈ sentOn kind p dest ts r, c.2.frag = none := by
  induction ts generalizing r with
  | nil => exact ⟨rfl, fun c h => by cases h⟩
  | cons t ts ih =>
    obtain ⟨hlen, hw⟩ := ih (fun h => hts (List.mem_cons_of_mem _ h)) r.nextId.2.nextId.2
    rw [sentOn, Message.framesOn, if_neg fun h : Message.IsSplit _ t => hts (h.2.1 ▸ List.mem_cons_self)]
    refine ⟨congrArg Nat.succ hlen, fun c hc => ?_⟩
    rcases List.mem_cons.mp hc with rfl | hc
    · rfl
    · exact hw c hc

/-- What is sent are whole messages, one for each port, but for at most one
that is split into two slices. -/
theorem sentOn_cases (hts : ts.Nodup) (r : Relay NR NA NF) :
    ((sentOn kind p dest ts r).countP (·.2.frag.isNone) = ts.length ∧
        (sentOn kind p dest ts r).filter (·.2.frag.isSome) = []) ∨
      ∃ m g, (sentOn kind p dest ts r).countP (·.2.frag.isNone) + 1 = ts.length ∧
        (sentOn kind p dest ts r).filter (·.2.frag.isSome) =
          [(.lora, (Message.halves m g).frame 0), (.lora, (Message.halves m g).frame 1)] := by
  induction ts generalizing r with
  | nil => exact Or.inl ⟨rfl, rfl⟩
  | cons t ts ih =>
    obtain ⟨ht, hnd⟩ := List.nodup_cons.mp hts
    rw [sentOn, List.countP_append, List.filter_append, List.length_cons]
    unfold Message.framesOn
    split
    · rename_i h
      obtain rfl : t = .lora := h.2.1
      obtain ⟨hlen, hw⟩ := whole_sentOn kind p dest ht r.nextId.2.nextId.2
      have hcount : (sentOn kind p dest ts r.nextId.2.nextId.2).countP (·.2.frag.isNone) = ts.length := by
        rw [List.countP_eq_length.mpr fun c hc => by rw [hw c hc]; rfl, hlen]
      have hfilter : (sentOn kind p dest ts r.nextId.2.nextId.2).filter (·.2.frag.isSome) = [] :=
        List.filter_eq_nil_iff.mpr fun c hc => by rw [hw c hc]; exact Bool.false_ne_true
      refine Or.inr ⟨⟨r.nextId.1, DEFAULT_TTL, .lora, r.selfAddr, dest.addr, kind, p, none⟩, r.nextId.2.nextId.1,
        ?_, ?_⟩
      · rw [hcount]
        show 0 + _ + 1 = _
        omega
      · rw [hfilter, List.append_nil]; rfl
    · rcases ih hnd r.nextId.2.nextId.2 with ⟨hc, hf⟩ | ⟨m, g, hc, hf⟩
      · refine Or.inl ⟨?_, hf⟩
        rw [hc]; exact Nat.add_comm _ _
      · refine Or.inr ⟨m, g, ?_, hf⟩
        rw [← hc]
        show 1 + _ + 1 = _
        omega

end Cases

end Relay

/-- Whole messages are delivered as they are, and do not change what becomes of
the slices. -/
theorem Reassembler.length_delivered {SLOTS PER_SLOT : Nat} (r : Reassembler SLOTS PER_SLOT)
    (l : List (Transport × Message)) :
    ((run Reassembler.receive r l).1.filterMap ReassembleOutcome.delivered).length =
      l.countP (·.2.frag.isNone) +
        ((run Reassembler.receive r (l.filter (·.2.frag.isSome))).1.filterMap
          ReassembleOutcome.delivered).length := by
  induction l generalizing r with
  | nil => rfl
  | cons c l ih =>
    cases hf : c.2.frag with
    | none =>
      have hstep : r.receive c = (.passthrough (c.2.arrived c.1), r) := r.ingest_unfragmented hf
      rw [run_cons, hstep, List.countP_cons_of_pos (by rw [hf]; rfl),
        List.filter_cons_of_neg (by rw [hf]; exact Bool.false_ne_true), List.filterMap_cons]
      show ((run Reassembler.receive r l).1.filterMap ReassembleOutcome.delivered).length + 1 = _
      rw [ih]
      omega
    | some f =>
      rw [List.countP_cons_of_neg (by rw [hf]; exact Bool.false_ne_true),
        List.filter_cons_of_pos (by rw [hf]; rfl), run_cons, run_cons, List.filterMap_cons, List.filterMap_cons]
      have := ih (r.receive c).2
      cases (r.receive c).1.delivered with
      | none => exact this
      | some m =>
        dsimp only
        rw [List.length_cons, List.length_cons, this]
        omega

namespace Relay

variable {NR NA NF NR' NA' NF' : Nat} {kind : MsgKind} {p : Payload} {dest : Destination} {ts : List Transport}

/-- The frames sent on some ports arrive at a relay that knows nothing, in any
order: it is handed as many messages as there are ports. -/
theorem length_delivered_sentOn {s : Relay NR' NA' NF'} {r : Relay NR NA NF} (hts : ts.Nodup) (hlen : ts.length ≤ 3)
    (hNA : 1 ≤ NA) (hNF : 2 ≤ NF) (hr : r.reassembler.inFlight = 0) (hun : ∀ k, r.seen.contains k = false)
    {l : List (Transport × Message)} (hl : l.Perm (sentOn kind p dest ts s)) :
    ((run receive r l).1.filterMap delivered).length = ts.length := by
  have hK : (l.map callKey).length ≤ 64 := by
    have := length_sentOn_le kind p dest ts s
    rw [List.length_map, hl.length_eq]
    omega
  have hunseen : ∀ k ∈ l.map callKey, some k ∉ r.seen.window := fun k _ hk => by
    rw [← SeenCache.contains_iff, hun] at hk
    cases hk
  have hnd : (l.map callKey).Nodup := (hl.map callKey).nodup_iff.mpr (keys_nodup_sentOn hlen s)
  rw [delivered_run hK hunseen fun c hc => List.mem_map_of_mem hc,
    firsts_eq_self hnd fun c _ => List.not_mem_nil, Reassembler.length_delivered, hl.countP_eq]
  have hfilter := hl.filter (·.2.frag.isSome)
  rcases sentOn_cases kind p dest hts s with ⟨hc, hf⟩ | ⟨m, g, hc, hf⟩
  · rw [hf, List.perm_nil] at hfilter
    rw [hc, hfilter]
    rfl
  · obtain ⟨hI, hT, hroom⟩ := Reassembler.idle_spec hNA hr
    rw [hf, List.perm_pair] at hfilter
    rw [← hc]
    refine congrArg _ ?_
    rcases hfilter with h | h
    · rw [h, (run_halves hI hNF (hT _) hroom (by decide : 0 < 2) .lora .lora).1]; rfl
    · rw [h, (run_halves hI hNF (hT _) hroom (by decide : 1 < 2) .lora .lora).1]; rfl

end Relay

/-- A payload is sent on each of the transports its destination resolves to, one
call of `send` for each: a receiver that hears all the frames, in any order, is
handed the payload exactly once exactly if there is one such transport. -/
theorem fanout_delivered_once_iff {NR NA NF NR' NA' NF' : Nat} (s : Relay NR' NA' NF') (kind : MsgKind)
    (payload : List UInt8) (hlen : payload.length ≤ MAX_PAYLOAD) (dest : Destination) (ts : List Transport)
    (hts : s.resolveTargets dest = .ok ts) (ports : List Transport) (hports : ports.Perm ts) (r : Relay NR NA NF)
    (hNA : 1 ≤ NA) (hNF : 2 ≤ NF ∧ NF ≤ 64) (hr : r.reassembler.inFlight = 0)
    (hun : ∀ k, r.seen.contains k = false) (l : List (Transport × List UInt8))
    (hl : l.Perm (Relay.sendEach kind payload dest ports s).1) :
    (∃ x, (run Relay.hear r l).1.filterMap delivered = [x] ∧ x.payload.toList = payload) ↔ ts.length = 1 := by
  have hnd := hports.nodup_iff.mpr (Relay.resolveTargets_nodup hts)
  have hlen3 : ports.length ≤ 3 := hports.length_eq ▸ Relay.resolveTargets_length hts
  obtain ⟨p, rfl⟩ : ∃ p : Payload, p.toList = payload := ⟨⟨payload, hlen⟩, rfl⟩
  rw [Relay.sendEach_eq hts fun t ht => hports.mem_iff.mp ht] at hl
  obtain ⟨l', hl', rfl⟩ : ∃ l' : List (Transport × Message), l'.Perm (Relay.sentOn kind p dest ports s) ∧
      l = l'.map fun c => (c.1, c.2.wire) := by
    have h := List.eq_map_comp_perm fun c : Transport × Message => (c.1, c.2.wire)
    obtain ⟨l', h, hl'⟩ := (congrFun (congrFun h l) _).mpr hl
    exact ⟨l', hl', h⟩
  have hrun : run Relay.hear r (l'.map fun c => (c.1, c.2.wire)) = run Relay.receive r l' := run_map _ _ _ _
  have hcount := Relay.length_delivered_sentOn hnd hlen3 hNA hNF.1 hr hun hl'
  rw [hrun, ← hports.length_eq]
  constructor
  · rintro ⟨x, hx, -⟩
    rw [hx] at hcount
    exact hcount.symm
  · intro h1
    obtain ⟨t, rfl⟩ := List.length_eq_one_iff.mp h1
    rw [Relay.sentOn, Relay.sentOn, List.append_nil] at hl'
    have hr : r.Fresh ((Message.framesOn ⟨s.nextId.1, DEFAULT_TTL, t, s.selfAddr, dest.addr, kind, p, none⟩ t
        s.nextId.2.nextId.1).map (⟨t, dest.frameAddr, ·⟩)) := ⟨hNA, hNF, hr, fun f _ => hun _⟩
    have hd := hr.ready.delivered_framesOn (l := l') (Reassembler.inv_of_idle hr.idle) rfl fun c => by
      rw [calls, List.map_map]
      exact hl'.mem_iff
    exact ⟨_, hd, rfl⟩

/-- One port: two slices. -/
theorem fanout_delivered_once_iff_lora :
    (∃ x, (run Relay.hear exampleReceiver (Relay.sendEach .text (List.replicate 181 7) .broadcast [.lora]
        (exampleSender.unregisterPort .mqtt)).1).1.filterMap delivered = [x] ∧
      x.payload.toList = List.replicate 181 7) ↔ [Transport.lora].length = 1 :=
  fanout_delivered_once_iff (exampleSender.unregisterPort .mqtt) .text (List.replicate 181 7) (by decide +kernel)
    .broadcast [.lora] (by decide +kernel) [.lora] (List.Perm.refl _) exampleReceiver (by decide) (by decide)
    Reassembler.inFlight_new (fun k => SeenCache.contains_new k) _ (List.Perm.refl _)

/-- On two ports the same bytes go out under two ids: the receiver is handed
them twice, where it is handed the frames of the plan once. -/
theorem fanout_delivered_twice :
    exampleSender.resolveTargets .broadcast = .ok [.lora, .mqtt] ∧
      exampleReceiver.reassembler.inFlight = 0 ∧ (∀ k, exampleReceiver.seen.contains k = false) ∧
      ((run Relay.hear exampleReceiver (Relay.sendEach .text [104, 105] .broadcast [.lora, .mqtt]
        exampleSender).1).1.filterMap delivered).map (·.payload.toList) = [[104, 105], [104, 105]] ∧
      ∃ out, (exampleSender.planSend .text [104, 105] .broadcast).1 = .ok out ∧
        ((run Relay.receive exampleReceiver (calls out.toList)).1.filterMap delivered).map (·.payload.toList) =
          [[104, 105]] :=
  ⟨by decide +kernel, Reassembler.inFlight_new, fun k => SeenCache.contains_new k, by decide +kernel, _, rfl,
    by decide +kernel⟩

end RelayStar

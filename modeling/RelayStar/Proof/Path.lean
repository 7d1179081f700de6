import RelayStar.Proof.Bridge
import RelayStar.Proof.Forwarding
import RelayStar.Proof.Ready

/-!
# A message on its way through the mesh

A message is split for a transport, and one relay after the other puts its
frames together and forwards it onto the next transport (`Relayed`). What
arrives is the message, with one hop less to go for each relay it passed
(`relayed_intact`).
-/

namespace RelayStar

/-- The frames of `m` after the relays of a path: it is split for a transport,
and each relay, which knows none of the frames that reach it, hands over a
message and forwards it onto the next transport, in whatever state it is then. -/
inductive Relayed (m : Message) : List Transport → List PlannedFrame → Prop
  | split (t : Transport) (g : UInt32) (addr : FrameAddr) {out : HVec Message MAX_FRAGMENTS}
      (h : Fragmenter.split m t g = .ok out) : Relayed m [] (out.toList.map (⟨t, addr, ·⟩))
  | hop {ts : List Transport} {frames : List PlannedFrame} (h : Relayed m ts frames) {NR NA NF : Nat}
      (r : Relay NR NA NF) (hr : r.Fresh frames) {l : List (Transport × Message)} (hl : l.Perm (calls frames))
      {x : Message} (hx : x ∈ (run Relay.receive r l).1.filterMap delivered) (r' : Relay NR NA NF) (t : Transport)
      {out : HVec PlannedFrame MAX_FRAGMENTS} (hout : (r'.planForward x t).1 = .ok out) :
      Relayed m (t :: ts) out.toList

/-- Before every hop the frames are those of the message, with one hop less to
go for each relay it passed. -/
theorem Relayed.framesOn {m : Message} (hm : m.frag = none) {ts : List Transport} {frames : List PlannedFrame}
    (h : Relayed m ts frames) (hk : ts.length ≤ m.ttl.toNat) :
    ∃ (ttl : UInt8) (origin t : Transport) (g : UInt32) (addr : FrameAddr), ttl.toNat + ts.length = m.ttl.toNat ∧
      frames = (Message.framesOn { m with ttl := ttl, origin := origin } t g).map (⟨t, addr, ·⟩) := by
  induction h with
  | split t g addr h =>
    obtain ⟨out, hs, hout⟩ := Fragmenter.split_eq m t g
    obtain rfl := Except.ok.inj (hs.symm.trans h)
    exact ⟨m.ttl, m.origin, t, g, addr, rfl, by rw [hout]⟩
  | @hop ts frames h NR NA NF r hr l hl x hx r' t out hout ih =>
    rw [List.length_cons] at hk
    obtain ⟨ttl, origin, t₀, g, addr, httl, rfl⟩ := ih (by omega)
    have hd := hr.ready.delivered_framesOn (m := { m with ttl := ttl, origin := origin })
      (Reassembler.inv_of_idle hr.idle) hm fun c => hl.mem_iff
    rw [hd, List.mem_singleton] at hx
    subst hx
    have hne : ttl ≠ 0 := fun h0 => by
      have : ttl.toNat = 0 := congrArg UInt8.toNat h0
      omega
    obtain ⟨out', hp, hout'⟩ := r'.planForward_relayed (m := { m with ttl := ttl, origin := t₀ }) hne t
    rw [hp] at hout
    obtain rfl := Except.ok.inj hout
    refine ⟨ttl - 1, t₀, t, _, _, ?_, hout'⟩
    rw [toNat_sub_one hne, List.length_cons]
    omega

/-- After any relays, as many as the message has hops, a receiver that knows
none of the frames is handed the message once, with one hop less to go for each
relay it passed; it is forwarded again exactly if it has a hop left. -/
theorem relayed_intact (m : Message) (hm : m.frag = none) (ts : List Transport) (hk : ts.length ≤ m.ttl.toNat)
    (frames : List PlannedFrame) (h : Relayed m ts frames) {NR NA NF : Nat} (r : Relay NR NA NF)
    (hr : r.Fresh frames) (l : List (Transport × Message)) (hl : l.Perm (calls frames)) :
    ∃ x, (run Relay.receive r l).1.filterMap delivered = [x] ∧ x.id = m.id ∧ x.fromAddr = m.fromAddr ∧
      x.toAddr = m.toAddr ∧ x.kind = m.kind ∧ x.payload = m.payload ∧ x.frag = none ∧
      x.ttl.toNat = m.ttl.toNat - ts.length ∧
      ∀ (r' : Relay NR NA NF) t, ∃ out, (r'.planForward x t).1 = .ok out ∧ (out.toList = [] ↔ x.ttl = 0) := by
  obtain ⟨ttl, origin, t, g, addr, httl, rfl⟩ := h.framesOn hm hk
  have hd := hr.ready.delivered_framesOn (m := { m with ttl := ttl, origin := origin })
    (Reassembler.inv_of_idle hr.idle) hm fun c => hl.mem_iff
  refine ⟨_, hd, rfl, rfl, rfl, rfl, rfl, hm, ?_, fun r' t => r'.planForward_total _ t⟩
  show ttl.toNat = m.ttl.toNat - ts.length
  omega

/-- `exampleMessage` on LoRa, in two slices. -/
def exampleHop : List PlannedFrame :=
  [⟨.lora, .broadcast, (exampleMessage.halves 5).frame 0⟩, ⟨.lora, .broadcast, (exampleMessage.halves 5).frame 1⟩]

/-- A relay that put the slices together, the last one first. -/
def exampleHopRelay : Relay 1 1 2 :=
  (run Relay.receive (Relay.new (nodeAddr 3) 1024 : Relay 1 1 2) (calls exampleHop).reverse).2

/-- What it forwards onto MQTT. -/
def exampleForwarded : HVec PlannedFrame MAX_FRAGMENTS :=
  match (exampleHopRelay.planForward { exampleMessage with origin := .lora } .mqtt).1 with
  | .ok out => out
  | .error _ => .empty

theorem split_exampleMessage :
    Fragmenter.split exampleMessage .lora 5 = .ok ⟨(exampleMessage.halves 5).frames, by decide⟩ := by
  decide +kernel

theorem planForward_exampleForwarded :
    (exampleHopRelay.planForward { exampleMessage with origin := .lora } .mqtt).1 = .ok exampleForwarded := by
  decide +kernel

theorem relayed_exampleForwarded : Relayed exampleMessage [.mqtt] exampleForwarded.toList :=
  .hop (.split .lora 5 .broadcast split_exampleMessage) (Relay.new (nodeAddr 3) 1024 : Relay 1 1 2)
    (Relay.fresh_new _ _ (by decide) (by decide) _) (List.reverse_perm _)
    (x := { exampleMessage with origin := .lora }) (by decide +kernel) exampleHopRelay .mqtt planForward_exampleForwarded

theorem relayed_intact_once :
    ∃ x, (run Relay.receive (Relay.new (nodeAddr 2) 512 : Relay 1 1 2) (calls exampleForwarded.toList)).1.filterMap
        delivered = [x] ∧ x.id = exampleMessage.id ∧ x.fromAddr = exampleMessage.fromAddr ∧
      x.toAddr = exampleMessage.toAddr ∧ x.kind = exampleMessage.kind ∧ x.payload = exampleMessage.payload ∧
      x.frag = none ∧ x.ttl.toNat = exampleMessage.ttl.toNat - [Transport.mqtt].length ∧
      ∀ (r' : Relay 1 1 2) t, ∃ out, (r'.planForward x t).1 = .ok out ∧ (out.toList = [] ↔ x.ttl = 0) :=
  relayed_intact exampleMessage rfl [.mqtt] (by decide) exampleForwarded.toList relayed_exampleForwarded
    (Relay.new (nodeAddr 2) 512 : Relay 1 1 2) (Relay.fresh_new _ _ (by decide) (by decide) _)
    (calls exampleForwarded.toList) (List.Perm.refl _)

end RelayStar

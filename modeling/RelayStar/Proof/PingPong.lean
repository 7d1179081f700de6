import RelayStar.Proof.Capacity
import RelayStar.Proof.Fanout
import RelayStar.Proof.LoraNode

/-!
# Measuring the link

A relay that sends a `Ping` on LoRa to the LoRa node, or to all, gets one `Pong`
back, however the frames of the `Ping` arrive (`ping_answered`). Ids that the node
allocates do not matter to what it hears (`ingest_onlyIds`), so its turns on the
frames of the `Ping` are those of `Ready.delivered_framesOn`.
-/

namespace RelayStar

namespace Relay

variable {NR NA NF : Nat} {r r' : Relay NR NA NF}

/-- The counter of ids does not matter when a frame is ingested. -/
theorem ingest_onlyIds (h : r.OnlyIds r') (source : Transport) (bytes : List UInt8) :
    (r'.ingest source bytes).1 = (r.ingest source bytes).1 ∧
      (r.ingest source bytes).2.OnlyIds (r'.ingest source bytes).2 := by
  obtain ⟨k, rfl⟩ := h
  cases hd : Message.decode bytes with
  | error e =>
    rw [r.ingest_error source hd, ingest_error { r with idCtr := k } source hd]
    exact ⟨rfl, k, rfl⟩
  | ok m =>
    by_cases hk : some m.dedupKey ∈ r.seen.window
    · rw [r.ingest_known source hd hk, ingest_known { r with idCtr := k } source hd hk]
      exact ⟨rfl, k, rfl⟩
    · rw [r.ingest_new source hd hk, ingest_new { r with idCtr := k } source hd hk]
      exact ⟨rfl, k, rfl⟩

end Relay

namespace LoraNode

variable {P : Type} [TransportPort P] {NR NA NF : Nat}

/-- A turn on a frame changes the relay as ingesting it does, apart from ids. -/
theorem relay_turn {n : LoraNode (Meter P) NR NA NF} (hs : n.relay.Solo) (frame : List UInt8) :
    (n.relay.ingest .lora frame).2.OnlyIds (n.turn (.rx frame)).2.relay := by
  rw [turn]
  cases hi : n.relay.ingest .lora frame with
  | mk res r =>
    have hsolo : r.Solo := by
      have := hs.ingest frame
      rwa [hi] at this
    cases res with
    | error e => exact .refl r
    | ok o =>
      cases o with
      | complete m =>
        dsimp only
        rw [complete]
        dsimp only
        split
        · obtain ⟨dest, hsends, -⟩ := reply_sends (n := { n with
            relay := r, rxCounter := n.rxCounter + 1, lastRx := HString.empty.write [m.asText.getD "<binary>"] })
            hsolo m.fromAddr
          rw [hsends.relay]
          exact ⟨_, rfl⟩
        · exact .refl r
      | notForMe m => exact .refl r
      | duplicate => exact .refl r
      | buffered => exact .refl r
      | dropped reason => exact .refl r

theorem Solo.onlyIds {r r' : Relay NR NA NF} (h : r.Solo) (hr : r.OnlyIds r') : r'.Solo := by
  obtain ⟨k, rfl⟩ := hr
  exact h

/-- The message that is for this node, if there is one. -/
def forNode : Except RelayError IngestOutcome → Option Message
  | .ok (.complete m) => some m
  | _ => none

/-- What the node completes of some frames is what its relay would. -/
theorem run_observe {r : Relay NR NA NF} {n : LoraNode (Meter P) NR NA NF} (hs : n.relay.Solo)
    (hr : r.OnlyIds n.relay) (l : List Message) :
    (run observe n (l.map fun m => .rx m.wire)).1.map Prod.snd =
      (run Relay.receive r (l.map fun m => (Transport.lora, m))).1.map forNode := by
  induction l generalizing r n with
  | nil => rfl
  | cons m l ih =>
    obtain ⟨h1, h2⟩ := Relay.ingest_onlyIds hr .lora m.wire
    have hturn := relay_turn hs m.wire
    have htail := ih (n := (n.turn (.rx m.wire)).2) (Solo.onlyIds (hs.ingest m.wire) hturn) (h2.trans hturn)
    have hhead : n.completed (.rx m.wire) = forNode (r.ingest .lora m.wire).1 := by
      rw [completed, h1]
      rfl
    rw [List.map_cons, List.map_cons, run_cons, run_cons, List.map_cons, List.map_cons]
    exact congrArg₂ List.cons hhead htail

/-- What is for a node was handed over to it. -/
theorem forNode_sublist (os : List (Except RelayError IngestOutcome)) :
    (os.filterMap forNode).Sublist (os.filterMap delivered) := by
  induction os with
  | nil => exact List.Sublist.slnil
  | cons o os ih =>
    cases hf : forNode o with
    | none =>
      rw [List.filterMap_cons_none hf]
      exact ih.trans ((List.sublist_cons_self ..).filterMap _)
    | some x =>
      have hd : delivered o = some x := by
        unfold forNode at hf
        split at hf
        · exact hf
        · cases hf
      rw [List.filterMap_cons_some hf, List.filterMap_cons_some hd]
      exact ih.cons_cons x

/-- What is handed over to a node, and is for it. -/
theorem filterMap_forNode {os : List (Except RelayError IngestOutcome)} {m : Message}
    (h : os.filterMap delivered = [m]) (hm : .ok (.complete m) ∈ os) : os.filterMap forNode = [m] := by
  have hsub := forNode_sublist os
  have hmem : m ∈ os.filterMap forNode := List.mem_filterMap.mpr ⟨_, hm, rfl⟩
  rw [h] at hsub
  exact hsub.eq_of_length_le (List.length_pos_of_mem hmem)

end LoraNode

namespace Relay

variable {NR NA NF : Nat}

theorem not_notForMe (r : Relay NR NA NF) {m : Message} (hm : m.toAddr = r.selfAddr ∨ m.isBroadcast = true)
    (source : Transport) (frame : List UInt8) : (r.ingest source frame).1 ≠ .ok (.notForMe m) := by
  have hdirect (x : Message) : r.direct x ≠ .notForMe m := by
    rw [direct]
    split
    · exact fun h => by cases h
    · rename_i hx
      exact fun h => hx (IngestOutcome.notForMe.inj h ▸ hm)
  have houtcome (o : ReassembleOutcome) : r.outcome o ≠ .notForMe m := by
    cases o with
    | passthrough x => exact hdirect x
    | complete x => exact hdirect x
    | buffered => exact fun h => by cases h
    | dropped reason => exact fun h => by cases h
  cases hd : Message.decode frame with
  | error e =>
    rw [r.ingest_error source hd]
    exact fun h => by cases h
  | ok x =>
    by_cases hk : some x.dedupKey ∈ r.seen.window
    · rw [r.ingest_known source hd hk]
      exact fun h => by cases h
    · rw [r.ingest_new source hd hk]
      exact fun h => houtcome _ (Except.ok.inj h)

/-- A message for this node or for all that is handed over was completed. -/
theorem complete_of_delivered {r : Relay NR NA NF} {l : List (Transport × Message)} {m : Message}
    (h : m ∈ (run receive r l).1.filterMap delivered) (hm : m.toAddr = r.selfAddr ∨ m.isBroadcast = true) :
    .ok (.complete m) ∈ (run receive r l).1 := by
  induction l generalizing r with
  | nil => cases h
  | cons c l ih =>
    rw [run_cons, List.mem_filterMap] at h
    obtain ⟨o, ho, hd⟩ := h
    rw [run_cons]
    rcases List.mem_cons.mp ho with rfl | ho
    · refine List.mem_cons.mpr (.inl ?_)
      unfold delivered at hd
      split at hd
      · rename_i x hx
        rw [hx, Option.some.inj hd]
      · rename_i x hx
        exact absurd (Option.some.inj hd ▸ hx) (r.not_notForMe hm _ _)
      · cases hd
    · refine List.mem_cons_of_mem _ (ih (List.mem_filterMap.mpr ⟨o, ho, hd⟩) ?_)
      rwa [(show (r.receive c).2.selfAddr = r.selfAddr from (r.ingest_self _ _).1)]

end Relay

namespace LoraNode

variable {P : Type} [TransportPort P] {NR NA NF : Nat}

/-- The frames that a port was handed stay, and stay in order. -/
theorem handed_turn {n : LoraNode (Meter P) NR NA NF} (hs : n.relay.Solo) (e : Event) :
    n.port.handed <+: (n.turn e).2.port.handed := by
  cases e with
  | rxError => exact List.prefix_refl _
  | heartbeat =>
    obtain ⟨p, -, h⟩ := (heartbeat_sends hs).handed
    exact ⟨_, h.symm⟩
  | rx frame =>
    have hsolo := hs.ingest frame
    rw [turn]
    cases hi : n.relay.ingest .lora frame with
    | mk res r =>
      rw [hi] at hsolo
      split
      · rename_i m r' heq
        cases heq
        rw [complete]
        dsimp only
        split
        · obtain ⟨dest, hsends, -⟩ := reply_sends (n := { n with
            relay := r, rxCounter := n.rxCounter + 1, lastRx := HString.empty.write [m.asText.getD "<binary>"] })
            hsolo m.fromAddr
          obtain ⟨p, -, h⟩ := hsends.handed
          exact ⟨_, h.symm⟩
        · exact List.prefix_refl _
      · exact List.prefix_refl _

/-- A message that is for this node is a cause to send if it is a `Ping`. -/
def pingCause (m : Message) : Option Cause := if m.kind = .ping then some (.ping m) else none

theorem filterMap_cause (n : LoraNode (Meter P) NR NA NF) (l : List Message) :
    (run observe n (l.map fun m => .rx m.wire)).1.filterMap cause =
      (((run observe n (l.map fun m => .rx m.wire)).1.map Prod.snd).filterMap id).filterMap pingCause := by
  induction l generalizing n with
  | nil => rfl
  | cons m l ih =>
    rw [List.map_cons, run_cons, List.map_cons, List.filterMap_cons, List.filterMap_cons, ih]
    cases h : n.completed (.rx m.wire) <;> simp [observe, h, cause, pingCause, List.filterMap_cons]

/-- The frames of a `Ping` for the node, in any order, are one cause to send. -/
theorem causes_ping {n : LoraNode (Meter P) NR NA NF} (hs : n.relay.Solo) {m : Message} (hm : m.frag = none)
    (hping : m.kind = .ping) (hto : m.toAddr = n.relay.selfAddr ∨ m.isBroadcast = true) {addr : FrameAddr} {g : UInt32}
    (hI : n.relay.reassembler.Inv) (hr : n.relay.Ready (m.plan addr g [.lora])) {l : List Message}
    (hl : ∀ x, x ∈ l ↔ ∃ f ∈ m.plan addr g [.lora], f.message = x) :
    (run observe n (l.map fun x => .rx x.wire)).1.filterMap cause = [.ping { m with origin := .lora }] := by
  have hcalls : ∀ c, c ∈ l.map (fun x => (Transport.lora, x)) ↔ c ∈ calls (m.plan addr g [.lora]) := by
    intro c
    simp only [List.mem_map, calls, hl]
    constructor
    · rintro ⟨x, ⟨f, hf, rfl⟩, rfl⟩
      exact ⟨f, hf, by rw [List.mem_singleton.mp (transport_mem_of_mem_plan hf)]⟩
    · rintro ⟨f, hf, rfl⟩
      exact ⟨f.message, ⟨f, hf, rfl⟩, by rw [List.mem_singleton.mp (transport_mem_of_mem_plan hf)]⟩
  rw [Relay.plan_single] at hr hcalls
  have hd := hr.delivered_framesOn (m := { m with origin := .lora }) hI hm hcalls
  have hfor := filterMap_forNode hd (Relay.complete_of_delivered (hd ▸ List.mem_singleton.mpr rfl) hto)
  rw [filterMap_cause, run_observe hs (.refl _), List.filterMap_map, Function.id_comp, hfor]
  exact List.filterMap_cons_some (if_pos hping)

theorem handed_run {n : LoraNode (Meter P) NR NA NF} {es : List (Event × Option Message)} (h : Observed es n)
    (events : List Event) : n.port.handed <+: (run observe n events).2.port.handed := by
  have hrun := @run_inv _ _ _ observe
    (fun x : LoraNode (Meter P) NR NA NF => (∃ es, Observed es x) ∧ n.port.handed <+: x.port.handed) (fun _ => True)
    (fun x e _ ⟨⟨es, hx⟩, hpre⟩ => ⟨⟨_, hx.step e⟩, hpre.trans (handed_turn hx.listens.solo e)⟩) n events
    (fun _ _ => trivial) ⟨⟨es, h⟩, List.prefix_refl _⟩
  exact hrun.2

end LoraNode

/-- A relay sends a `Ping` to the LoRa node or to all, and the frames of it on
LoRa reach the node, in any order and any number of times, in a state of any run
that is ready for them: the node hands over exactly one frame, a `Pong` of its own.
Any relay with the address of the sender that has not seen its id completes it. -/
theorem ping_answered {P : Type} [TransportPort P] {NR NA NF NR' NA' NF' : Nat} (s : Relay NR' NA' NF')
    (payload : List UInt8) (dest : Destination) (hdest : dest = .unicast NODE_ADDR ∨ dest = .broadcast)
    (out : HVec PlannedFrame (MAX_FRAGMENTS * 3)) (hplan : (s.planSend .ping payload dest).1 = .ok out)
    (hlora : ∃ f ∈ out.toList, f.transport = .lora) (port : P) (events : List LoraNode.Event)
    (hr : (run LoraNode.observe (LoraNode.boot ⟨port, [], []⟩ : LoraNode (Meter P) NR NA NF) events).2.relay.Ready
      (out.toList.filter (·.transport = .lora)))
    (l : List Message) (hl : ∀ m, m ∈ l ↔ ∃ f ∈ out.toList.filter (·.transport = .lora), f.message = m) :
    let n := (run LoraNode.observe (LoraNode.boot ⟨port, [], []⟩ : LoraNode (Meter P) NR NA NF) events).2
    let n' := (run LoraNode.observe n (l.map fun m => .rx m.wire)).2
    ∃ (back : Destination) (p : Payload), p.toList = asBytes "pong" ∧
      (back = .unicast s.selfAddr ∨ back = .broadcast ∧ n'.relay.NoRow s.selfAddr) ∧
      let pong := LoraNode.message n.port.handed.length .pong p back
      n'.port.handed = n.port.handed ++ [(back.frameAddr, pong.wire)] ∧
      ∀ r : Relay NR' NA' NF', r.selfAddr = s.selfAddr → r.seen.contains pong.dedupKey = false →
        (r.ingest .lora pong.wire).1 = .ok (.complete pong) := by
  intro n n'
  have hn : LoraNode.Observed _ n := LoraNode.observed_run port events
  obtain ⟨payload, g, ts, -, hts, -, hout⟩ := Relay.planSend_ok hplan
  have hmem : Transport.lora ∈ ts := by
    obtain ⟨f, hf, hlora⟩ := hlora
    exact hlora ▸ transport_mem_of_mem_plan (hout ▸ hf)
  rw [hout, filter_plan hts hmem] at hr hl
  have hto : dest.addr = n.relay.selfAddr ∨ decide (dest.addr = BROADCAST_ADDR) = true := by
    rcases hdest with rfl | rfl
    · exact .inl hn.listens.selfAddr.symm
    · exact .inr (decide_eq_true rfl)
  have hcauses := LoraNode.causes_ping hn.listens.solo rfl rfl hto hn.listens.inv hr hl
  have hn' : LoraNode.Observed _ n' := hn.append _
  obtain ⟨more, hmore⟩ := LoraNode.handed_run hn (l.map fun m => .rx m.wire)
  have hlen := hn'.sent.length
  rw [List.filterMap_append, hcauses, List.length_append, ← hn.sent.length, ← hmore, List.length_append] at hlen
  obtain ⟨f, rfl⟩ := List.length_eq_one_iff.mp (Nat.add_left_cancel hlen)
  obtain ⟨back, hback, p, hp, rfl⟩ := hn'.sent.answers n.port.handed.length _ f
    (by rw [List.filterMap_append, hcauses, hn.sent.length, List.getElem?_concat_length])
    (by rw [← hmore, List.getElem?_concat_length])
  refine ⟨back, p, hp, hback, hmore.symm, fun r hself hunseen => ?_⟩
  obtain ⟨hans, -⟩ := r.receive_new_whole (c := (.lora, LoraNode.message n.port.handed.length .pong p back))
    (SeenCache.not_mem_window hunseen) rfl
  refine hans.trans (congrArg _ (if_pos ?_))
  rcases hback with rfl | ⟨rfl, -⟩
  · exact .inl hself.symm
  · exact .inr (decide_eq_true rfl)

/-- The frames of a `Ping` of 181 bytes to all: two slices on LoRa. -/
def examplePing : HVec PlannedFrame (MAX_FRAGMENTS * 3) :=
  match (exampleSender.planSend .ping (List.replicate 181 7) .broadcast).1 with
  | .ok out => out
  | .error _ => .empty

theorem planSend_examplePing :
    (exampleSender.planSend .ping (List.replicate 181 7) .broadcast).1 = .ok examplePing := by
  decide +kernel

/-- The frames of `examplePing` on LoRa. -/
def examplePingLora : List Message := (examplePing.toList.filter (·.transport = .lora)).map (·.message)

/-- The events of a node that has sent a heartbeat and holds a slice of another message. -/
def exampleTurns : List LoraNode.Event := [.heartbeat, .rx ((exampleMessage.halves 2048).frame 0).wire]

def exampleNode : LoraNode (Meter OpenPort) 8 2 32 :=
  (run LoraNode.observe (LoraNode.boot ⟨OpenPort.mk .lora, [], []⟩) exampleTurns).2

theorem ready_exampleNode : exampleNode.relay.Ready (examplePing.toList.filter (·.transport = .lora)) :=
  ⟨by decide +kernel, by decide +kernel⟩

/-- The slices arrive twice and in reverse. -/
theorem ping_answered_reversed :
    ∃ f, (run LoraNode.observe exampleNode
      ((examplePingLora ++ examplePingLora).reverse.map fun m => .rx m.wire)).2.port.handed =
        exampleNode.port.handed ++ [f] := by
  have hl (m : Message) : m ∈ (examplePingLora ++ examplePingLora).reverse ↔
      ∃ f ∈ examplePing.toList.filter (·.transport = .lora), f.message = m := by
    simp only [examplePingLora, List.mem_reverse, List.mem_append, or_self, List.mem_map]
  have hr := ready_exampleNode
  unfold exampleNode at hr
  obtain ⟨back, p, -, -, h, -⟩ := @ping_answered OpenPort _ 8 2 32 1 1 2 exampleSender (List.replicate 181 7) .broadcast
    (.inr rfl) examplePing planSend_examplePing (by decide +kernel) ⟨.lora⟩ exampleTurns hr _ hl
  unfold exampleNode
  exact ⟨_, h⟩

end RelayStar

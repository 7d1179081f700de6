import RelayStar.Proof.Addressing
import RelayStar.Proof.Card
import RelayStar.Proof.Forwarding
import RelayStar.Proof.History

/-!
# Where the frames of the terminal come from

The terminal invents nothing (`traffic_accounted`): whatever the order of its
tasks, a frame for a transport is one of a text that was typed, or carries a
message that was heard, whole or in slices, with one hop less to go. The relay
hands over only what it has heard (`ingest_sourced`), and a turn of the bridge
adds frames of what is handed over (`mem_bridgeStep`). What is handed over is whole,
so that no frame is too long for its transport (`traffic_fits`).
-/

namespace RelayStar

/-- The message is `last`, which is of the history, or it is put together from
slices of the history, of which `last` is one. -/
def HandedOver (history : List Message) (last m : Message) : Prop :=
  last ∈ history ∧ ((last.frag = none ∧ m = last) ∨ ∃ f parts, last ∈ parts ∧ FromParts history f parts m)

theorem HandedOver.whole {history : List Message} {last m : Message} (h : HandedOver history last m) :
    m.frag = none := by
  rcases h.2 with ⟨hf, rfl⟩ | ⟨f, parts, -, hparts⟩
  · exact hf
  · obtain ⟨y, -, hm⟩ := hparts.header
    rw [hm]

/-- The frames of a whole message fit the transport, and are slices only on LoRa. -/
theorem Message.framesOn_fits {m x : Message} {t : Transport} {g : UInt32} (hm : m.frag = none)
    (h : x ∈ m.framesOn t g) : x.payload.len ≤ t.maxPayload ∧
      ∀ s, x.frag = some s → t = .lora ∧ s.total = 2 ∧ s.seq < 2 := by
  constructor
  · obtain ⟨out, hs, hout⟩ := Fragmenter.split_eq m t g
    exact (Fragmenter.fits_iff m t g).mpr (.inl hm) out hs x (hout ▸ h)
  · intro s hs
    rw [framesOn] at h
    split at h
    · rename_i hsplit
      rw [frames_halves, List.mem_pair] at h
      rcases h with rfl | rfl <;>
      · cases hs
        exact ⟨hsplit.2.1, rfl, (by decide : UInt16.ofNat _ < 2)⟩
    · rw [List.mem_singleton.mp h, hm] at hs
      cases hs

/-- A reassembler hands over a whole message, or one that it completes. -/
theorem Reassembler.delivered_cases {SLOTS PER_SLOT : Nat} {r : Reassembler SLOTS PER_SLOT} (hI : r.Inv)
    {m x : Message} (h : (r.ingest m).1.delivered = some x) :
    (m.frag = none ∧ x = m) ∨ (r.ingest m).1 = .complete x := by
  cases hf : m.frag with
  | none =>
    rw [r.ingest_unfragmented hf] at h
    exact .inl ⟨rfl, (Option.some.inj h).symm⟩
  | some f =>
    refine .inr ?_
    by_cases hok : Spec.HeaderOk PER_SLOT f
    · obtain ⟨ho, -⟩ := r.ingest_refines hI hf hok
      rw [ho] at h ⊢
      cases hout : (r.table.offer r.room f m).1 with
      | passthrough y => exact absurd hout (Spec.Table.offer_ne_passthrough _ _ _ _ _)
      | complete y =>
        rw [hout] at h
        rw [Option.some.inj h]
      | buffered => rw [hout] at h; cases h
      | dropped reason => rw [hout] at h; cases h
    · rw [r.ingest_badHeader hf hok] at h
      cases h

namespace Relay

variable {NR NA NF : Nat} {r : Relay NR NA NF} {history : List Message} {m : Message}

/-- What is handed over was heard. -/
theorem ingest_sourced (hI : r.reassembler.Inv) (h : Sourced history r.reassembler.table) (source : Transport)
    (bytes : List UInt8) :
    Sourced (history ++ heard source bytes) (r.ingest source bytes).2.reassembler.table ∧
      ∀ m, delivered (r.ingest source bytes).1 = some m →
        ∃ last ∈ heard source bytes, HandedOver (history ++ heard source bytes) last m := by
  have hmono := h.mono (List.subset_append_left history (heard source bytes))
  rw [heard] at hmono ⊢
  cases hd : Message.decode bytes with
  | error e =>
    rw [hd] at hmono
    rw [r.ingest_error source hd]
    exact ⟨hmono, fun m hm => by cases hm⟩
  | ok x =>
    rw [hd] at hmono
    by_cases hk : some x.dedupKey ∈ r.seen.window
    · rw [r.ingest_known source hd hk]
      exact ⟨hmono, fun m hm => by cases hm⟩
    · rw [r.ingest_new source hd hk]
      obtain ⟨hS, hx⟩ := Reassembler.sourced_ingest hI h (x.arrived source)
      refine ⟨hS, fun m hm => ?_⟩
      rw [delivered_outcome] at hm
      have hlast : x.arrived source ∈ history ++ [x.arrived source] :=
        List.mem_append_right _ (List.mem_singleton_self _)
      refine ⟨x.arrived source, List.mem_singleton_self _, hlast, ?_⟩
      rcases Reassembler.delivered_cases hI hm with ⟨hf, rfl⟩ | hc
      · exact .inl ⟨hf, rfl⟩
      · obtain ⟨f, parts, -, hmem, hparts⟩ := hx m hc
        exact .inr ⟨f, parts, hmem, hparts⟩

/-- What is handed over is shown here or only forwarded, by where it goes to. -/
theorem direct_of_delivered {source : Transport} {bytes : List UInt8} (h : delivered (r.ingest source bytes).1 = some m) :
    (r.ingest source bytes).1 = .ok (r.direct m) := by
  cases hd : Message.decode bytes with
  | error e =>
    rw [r.ingest_error source hd] at h
    cases h
  | ok x =>
    by_cases hk : some x.dedupKey ∈ r.seen.window
    · rw [r.ingest_known source hd hk] at h
      cases h
    · rw [r.ingest_new source hd hk] at h ⊢
      rw [delivered_outcome] at h
      cases hin : (r.reassembler.ingest (x.arrived source)).1 with
      | passthrough y =>
        rw [hin] at h
        rw [Option.some.inj h]
        rfl
      | complete y =>
        rw [hin] at h
        rw [Option.some.inj h]
        rfl
      | buffered =>
        rw [hin] at h
        cases h
      | dropped reason =>
        rw [hin] at h
        cases h

/-- What ingesting leaves alone. -/
theorem ingest_self (r : Relay NR NA NF) (source : Transport) (bytes : List UInt8) :
    (r.ingest source bytes).2.selfAddr = r.selfAddr ∧ (r.ingest source bytes).2.idBase = r.idBase ∧
      (r.ingest source bytes).2.idCtr = r.idCtr := by
  cases hd : Message.decode bytes with
  | error e =>
    rw [r.ingest_error source hd]
    exact ⟨rfl, rfl, rfl⟩
  | ok x =>
    by_cases hk : some x.dedupKey ∈ r.seen.window
    · rw [r.ingest_known source hd hk]
      exact ⟨rfl, rfl, rfl⟩
    · rw [r.ingest_new source hd hk]
      exact ⟨rfl, rfl, rfl⟩

/-- A turn forwards after it has ingested. -/
theorem sameInbox_bridgeStep (r : Relay NR NA NF) (source : Transport) (bytes : List UInt8) :
    SameInbox (r.ingest source bytes).2 (r.bridgeStep source bytes).2 := by
  rcases r.bridgeStep_cases source bytes with ⟨-, h⟩ | ⟨m, -, -, h⟩
  · rw [h]
    exact .refl _
  · rw [h]
    exact .fanoutForward ..

/-- The frames of a message that is forwarded. -/
theorem mem_fanout {ts : List Transport} {skip : Transport} {f : PlannedFrame}
    (h : f ∈ (fanoutTargets m skip ts r).1) :
    m.ttl ≠ 0 ∧ f.transport ≠ skip ∧ f.addr = .fromBytes m.toAddr ∧ ∃ g, f.message ∈ m.relayed.framesOn f.transport g := by
  induction ts generalizing r with
  | nil => cases h
  | cons t ts ih =>
    rw [fanoutTargets] at h
    split at h
    · exact ih h
    · rename_i ht
      rcases List.mem_append.mp h with h | h
      · have hne := (mem_plannedFrames h).1
        obtain ⟨out, hp, hout⟩ := r.planForward_relayed hne t
        rw [hp, show plannedFrames (.ok out) = out.toList from rfl, hout] at h
        obtain ⟨x, hx, rfl⟩ := List.mem_map.mp h
        exact ⟨hne, ht, m.frameAddr_eq, _, hx⟩
      · exact ih h

/-- The frames of a turn are those of what is handed over. -/
theorem mem_bridgeStep {source : Transport} {bytes : List UInt8} {f : PlannedFrame}
    (h : f ∈ (r.bridgeStep source bytes).1.2) :
    ∃ m, delivered (r.ingest source bytes).1 = some m ∧ m.ttl ≠ 0 ∧ f.transport ≠ source ∧
      f.addr = .fromBytes m.toAddr ∧ ∃ g, f.message ∈ m.relayed.framesOn f.transport g := by
  rcases r.bridgeStep_cases source bytes with ⟨hnil, -⟩ | ⟨m, hm, hframes, -⟩
  · rw [hnil] at h
    cases h
  · rw [hframes] at h
    exact ⟨m, hm, mem_fanout h⟩

/-- The frames of a text that is sent. -/
theorem mem_planText {text : String} {f : PlannedFrame}
    (h : f ∈ plannedFrames (r.planSend .text (asBytes text) .broadcast).1) :
    f.addr = .broadcast ∧ ∃ (p : Payload) (g : UInt32), p.toList = asBytes text ∧
      f.message ∈ Message.framesOn
        ⟨r.nextId.1, DEFAULT_TTL, f.transport, r.selfAddr, BROADCAST_ADDR, .text, p, none⟩ f.transport g := by
  cases hp : (r.planSend .text (asBytes text) .broadcast).1 with
  | error e =>
    rw [hp] at h
    cases h
  | ok out =>
    rw [hp] at h
    obtain ⟨p, g, ts, htext, -, -, hout⟩ := planSend_ok hp
    rw [show plannedFrames (.ok out) = out.toList from rfl, hout] at h
    obtain ⟨t, -, hf⟩ := List.mem_flatMap.mp h
    obtain ⟨x, hx, rfl⟩ := List.mem_map.mp hf
    exact ⟨rfl, p, g, htext, hx⟩

end Relay

/-! ## Texts from the broker -/

namespace Bridge

variable {NR NA NF : Nat}

/-- A text from the broker goes into the mesh if it fits a message. -/
theorem uplinkFrame_eq_some {b : Bridge NR NA NF} {text : String} {raw : RawFrame} :
    (b.uplinkFrame text).1 = some raw ↔ ∃ p : Payload, p.toList = asBytes text ∧ raw.source = .mqtt ∧
      raw.bytes.toList =
        Message.wire ⟨b.relay.nextId.1, DEFAULT_TTL, .mqtt, CARD_ADDR, BROADCAST_ADDR, .text, p, none⟩ := by
  simp only [uplinkFrame, Message.text, Message.new, Message.unicast]
  cases hp : (HVec.empty : Payload).extendFromSlice (asBytes text) with
  | none =>
    rw [HVec.extendFromSlice_eq_none] at hp
    constructor
    · intro h
      cases h
    · rintro ⟨p, htext, -⟩
      have := p.length_le
      rw [htext] at this
      exact absurd this (Nat.not_le.mpr (by simpa using hp))
  | some p =>
    have htext : p.toList = asBytes text := by simpa using HVec.extendFromSlice_eq_some.mp hp
    dsimp only
    rw [Message.encode_max_frame]
    dsimp only
    generalize hm : (⟨b.relay.nextId.1, DEFAULT_TTL, .mqtt, CARD_ADDR, BROADCAST_ADDR, .text, p, none⟩ : Message) = m
    have hlen : m.wire.length ≤ MAX_FRAME := Nat.le_trans m.length_wire (by decide)
    cases hb : (HVec.empty : HVec UInt8 MAX_FRAME).extendFromSlice m.wire with
    | none =>
      rw [HVec.extendFromSlice_eq_none] at hb
      exact absurd hlen (Nat.not_le.mpr (by simpa using hb))
    | some bytes =>
      have hwire : bytes.toList = m.wire := by simpa using HVec.extendFromSlice_eq_some.mp hb
      constructor
      · intro h
        cases h
        exact ⟨p, htext, rfl, by rw [hwire, hm]⟩
      · rintro ⟨p', htext', hsource, hbytes⟩
        obtain rfl : p' = p := HVec.ext (htext'.trans htext.symm)
        obtain ⟨source, bytes'⟩ := raw
        cases hsource
        rw [hm] at hbytes
        rw [HVec.ext (hwire.trans hbytes.symm)]

end Bridge

/-! ## Runs -/

namespace Card

variable {NR NA NF : Nat}

/-- The message comes from outside: from a radio, or from the broker. -/
inductive External (events : List Event) : Message → Prop
  | lora {data : List UInt8} {m : Message} (h : .loraRx data ∈ events) (hm : Message.decode data = .ok m) :
      External events (m.arrived .lora)
  | espNow {data : List UInt8} {m : Message} (h : .espnowRx data ∈ events) (hm : Message.decode data = .ok m) :
      External events (m.arrived .espNow)
  | uplink {payload : List UInt8} (id : UInt32) (p : Payload) (h : .uplink payload ∈ events)
      (hp : p.toList = asBytes ((fromUtf8 payload).getD "<binary>")) :
      External events ⟨id, DEFAULT_TTL, .mqtt, CARD_ADDR, BROADCAST_ADDR, .text, p, none⟩

/-- The frame is one of a text that was typed here. -/
def Composed (events : List Event) (f : PlannedFrame) : Prop :=
  f.addr = .broadcast ∧ ∃ text id g, ∃ p : Payload, .compose text ∈ events ∧ p.toList = asBytes text ∧
    f.message ∈ Message.framesOn
      ⟨id, DEFAULT_TTL, f.transport, CARD_ADDR, BROADCAST_ADDR, .text, p, none⟩ f.transport g

/-- The frame forwards a message that came from outside, on another transport
than the one the message, or its last slice, came from. -/
def Forwarded (events : List Event) (f : PlannedFrame) : Prop :=
  ∃ history last m, (∀ y ∈ history, External events y) ∧ HandedOver history last m ∧ last.origin ≠ f.transport ∧
    m.ttl ≠ 0 ∧ f.addr = .fromBytes m.toAddr ∧ ∃ g, f.message ∈ m.relayed.framesOn f.transport g

theorem External.mono {events events' : List Event} {m : Message} (h : External events m)
    (hsub : events ⊆ events') : External events' m := by
  cases h with
  | lora h hm => exact .lora (hsub h) hm
  | espNow h hm => exact .espNow (hsub h) hm
  | uplink id p h hp => exact .uplink id p (hsub h) hp

/-- The frames for the transports, whether or not they found room in their queues. -/
def planned (es : List Effect) : List PlannedFrame :=
  es.filterMap fun | .queued f => some f | .dropped f => some f | _ => none

theorem planned_enqueued (fs : List PlannedFrame) (b : Bridge NR NA NF) : planned (enqueued fs b) = fs := by
  induction fs generalizing b with
  | nil => rfl
  | cons f fs ih =>
    rw [enqueued_cons]
    have := ih (b.enqueue f)
    split <;> simpa [planned] using this

/-- What is put into a queue was planned. -/
theorem planned_of_queuedFor {t : Transport} {es : List Effect} {addr : FrameAddr} {m : Message} (h : (addr, m) ∈ queuedFor t es) :
    ⟨t, addr, m⟩ ∈ planned es := by
  obtain ⟨e, he, hq⟩ := List.mem_filterMap.mp h
  refine List.mem_filterMap.mpr ⟨e, he, ?_⟩
  cases e with
  | queued f =>
    dsimp only at hq
    split at hq
    · rename_i ht
      cases hq
      rw [← ht]
    · cases hq
  | _ => cases hq

/-- What a relay hears when it ingests these frames. -/
def heard (raws : List RawFrame) : List Message := raws.flatMap fun raw => Relay.heard raw.source raw.bytes.toList

theorem External.heard {events : List Event} {c : Card NR NA NF} {e : Event} {raw : RawFrame} (he : e ∈ events)
    (h : c.Arrives e raw) {m : Message} (hm : m ∈ Relay.heard raw.source raw.bytes.toList) : External events m := by
  rw [Relay.heard] at hm
  split at hm
  · cases hm
  · rename_i x hx
    obtain rfl := List.mem_singleton.mp hm
    cases h with
    | lora raw hs =>
      rw [hs]
      exact .lora he hx
    | espNow raw hs =>
      rw [hs]
      exact .espNow he hx
    | uplink h =>
      obtain ⟨p, hp, hs, hwire⟩ := Bridge.uplinkFrame_eq_some.mp h
      rw [hwire, Message.decode_wire_self] at hx
      cases hx
      rw [hs]
      exact .uplink _ p he hp

/-- What holds after a run: the groups of the reassembler were received from what
was heard, and all that was heard or planned is accounted for. -/
structure Accountable (events : List Event) (es : List Effect) (c : Card NR NA NF) : Prop where
  conserved : Conserved es c
  selfAddr : c.bridge.relay.selfAddr = CARD_ADDR
  inv : c.bridge.relay.reassembler.Inv
  sourced : Sourced (heard (ingested es)) c.bridge.relay.reassembler.table
  external : ∀ m ∈ heard (received es), External events m
  accounted : ∀ f ∈ planned es, Composed events f ∨ Forwarded events f

namespace Accountable

variable {events : List Event} {es : List Effect} {c : Card NR NA NF}

theorem subset (h : Conserved es c) : ingested es ⊆ received es := fun raw hraw => by
  have := h.inbound.balance raw.source
  have hmem : raw ∈ (received es).filter (·.source = raw.source) := by
    rw [this]
    exact List.mem_append_left _ (List.mem_filter.mpr ⟨hraw, by simp⟩)
  exact (List.mem_filter.mp hmem).1

theorem taken (h : Accountable events es c) {raw : RawFrame} {inbound : Mailbox Transport RawFrame 8}
    (htake : c.inbound.take = some (raw, inbound)) : raw ∈ received es := by
  have hmem : raw ∈ (received es).filter (·.source = raw.source) := by
    rw [h.conserved.inbound.balance raw.source, (Mailbox.take_eq_some htake).1]
    simp
  exact (List.mem_filter.mp hmem).1

theorem mono (h : ∀ f ∈ planned es, Composed events f ∨ Forwarded events f) (e : Event) {f : PlannedFrame}
    (hf : f ∈ planned es) : Composed (events ++ [e]) f ∨ Forwarded (events ++ [e]) f := by
  have hsub := List.subset_append_left events [e]
  rcases h f hf with ⟨ha, text, id, g, p, hc, hp, hm⟩ | ⟨history, last, m, hext, hrest⟩
  · exact .inl ⟨ha, text, id, g, p, hsub hc, hp, hm⟩
  · exact .inr ⟨history, last, m, fun y hy => (hext y hy).mono hsub, hrest⟩

/-- What the relay hands over came from outside. -/
theorem handedOver (h : Accountable events es c) {raw : RawFrame} (hraw : raw ∈ received es) {m : Message}
    (hm : delivered (c.bridge.relay.ingest raw.source raw.bytes.toList).1 = some m) :
    ∃ history last, (∀ y ∈ history, External events y) ∧ HandedOver history last m ∧ last.origin = raw.source := by
  obtain ⟨last, hlast, hover⟩ := (Relay.ingest_sourced h.inv h.sourced raw.source raw.bytes.toList).2 m hm
  have hsub : ∀ raw' ∈ ingested es ++ [raw], raw' ∈ received es := fun raw' hraw' => by
    rcases List.mem_append.mp hraw' with hraw' | hraw'
    · exact subset h.conserved hraw'
    · rwa [List.mem_singleton.mp hraw']
  refine ⟨_, last, fun y hy => h.external y ?_, hover, ?_⟩
  · have hheard : heard (ingested es) ++ Relay.heard raw.source raw.bytes.toList = heard (ingested es ++ [raw]) := by
      simp [heard]
    rw [hheard] at hy
    obtain ⟨raw', hraw', hy⟩ := List.mem_flatMap.mp hy
    exact List.mem_flatMap.mpr ⟨raw', hsub raw' hraw', hy⟩
  · rw [Relay.heard] at hlast
    split at hlast
    · cases hlast
    · rw [List.mem_singleton.mp hlast]
      rfl

/-- The bridge takes a frame that was received. -/
theorem ingest (h : Accountable events es c) {raw : RawFrame} {c' : Card NR NA NF} (hraw : raw ∈ received es)
    (hcons : Conserved (es ++ .ingested raw ::
      enqueued (c.bridge.relay.bridgeStep raw.source raw.bytes.toList).1.2 c.bridge) c')
    (hrelay : c'.bridge.relay = (c.bridge.relay.bridgeStep raw.source raw.bytes.toList).2) (e : Event) :
    Accountable (events ++ [e]) (es ++ .ingested raw ::
      enqueued (c.bridge.relay.bridgeStep raw.source raw.bytes.toList).1.2 c.bridge) c' := by
  have hsame := c.bridge.relay.sameInbox_bridgeStep raw.source raw.bytes.toList
  have hsub := List.subset_append_left events [e]
  have hheard : heard (ingested es) ++ Relay.heard raw.source raw.bytes.toList = heard (ingested es ++ [raw]) := by
    simp [heard]
  generalize hfs : (c.bridge.relay.bridgeStep raw.source raw.bytes.toList).1.2 = fs at hcons ⊢
  have hp := planned_enqueued fs c.bridge
  obtain ⟨hr, hi, -⟩ := enqueued_only fs c.bridge
  have hreceived : received (es ++ .ingested raw :: enqueued fs c.bridge) = received es := by
    simpa [received] using hr
  have hingested : ingested (es ++ .ingested raw :: enqueued fs c.bridge) = ingested es ++ [raw] := by
    simpa [ingested] using hi
  have hplanned : planned (es ++ .ingested raw :: enqueued fs c.bridge) = planned es ++ fs := by
    simpa [planned] using hp
  refine ⟨hcons, ?_, ?_, ?_, fun m hm => ?_, fun f hf => ?_⟩
  · rw [hrelay, hsame.selfAddr, (c.bridge.relay.ingest_self _ _).1, h.selfAddr]
  · rw [hrelay, hsame.reassembler]
    exact Relay.ingest_reassembler_inv h.inv ..
  · rw [hrelay, hsame.reassembler, hingested, ← hheard]
    exact (Relay.ingest_sourced h.inv h.sourced ..).1
  · rw [hreceived] at hm
    exact (h.external m hm).mono hsub
  · rw [hplanned] at hf
    rcases List.mem_append.mp hf with hf | hf
    · exact mono h.accounted e hf
    · rw [← hfs] at hf
      obtain ⟨m, hm, httl, hsource, haddr, hframe⟩ := Relay.mem_bridgeStep hf
      obtain ⟨history, last, hext, hover, horigin⟩ := h.handedOver hraw hm
      exact .inr ⟨history, last, m, fun y hy => (hext y hy).mono hsub, hover, horigin ▸ Ne.symm hsource, httl, haddr,
        hframe⟩

theorem composed (h : Accountable events es c) {text : String} {f : PlannedFrame}
    (hf : f ∈ Relay.plannedFrames (c.bridge.relay.planSend .text (asBytes text) .broadcast).1) :
    Composed (events ++ [.compose text]) f := by
  obtain ⟨haddr, p, g, hp, hframe⟩ := Relay.mem_planText hf
  rw [h.selfAddr] at hframe
  exact ⟨haddr, text, _, g, p, by simp, hp, hframe⟩

/-- A text is typed. -/
theorem compose (h : Accountable events es c) (text : String) {c' : Card NR NA NF}
    (hcons : Conserved (es ++ enqueued (Relay.plannedFrames
      (c.bridge.relay.planSend .text (asBytes text) .broadcast).1) c.bridge) c')
    (hrelay : c'.bridge.relay = (c.bridge.relay.planSend .text (asBytes text) .broadcast).2) :
    Accountable (events ++ [.compose text]) (es ++ enqueued (Relay.plannedFrames
      (c.bridge.relay.planSend .text (asBytes text) .broadcast).1) c.bridge) c' := by
  have hsame := Relay.SameInbox.planSend c.bridge.relay .text (asBytes text) .broadcast
  generalize hfs : Relay.plannedFrames (c.bridge.relay.planSend .text (asBytes text) .broadcast).1 = fs at hcons ⊢
  have hp := planned_enqueued fs c.bridge
  obtain ⟨hr, hi, -⟩ := enqueued_only fs c.bridge
  have hreceived : received (es ++ enqueued fs c.bridge) = received es := by simpa [received] using hr
  have hingested : ingested (es ++ enqueued fs c.bridge) = ingested es := by simpa [ingested] using hi
  have hplanned : planned (es ++ enqueued fs c.bridge) = planned es ++ fs := by simpa [planned] using hp
  refine ⟨hcons, ?_, ?_, ?_, fun m hm => ?_, fun f hf => ?_⟩
  · rw [hrelay, hsame.selfAddr, h.selfAddr]
  · rw [hrelay, hsame.reassembler]
    exact h.inv
  · rw [hrelay, hsame.reassembler, hingested]
    exact h.sourced
  · rw [hreceived] at hm
    exact (h.external m hm).mono (List.subset_append_left _ _)
  · rw [hplanned] at hf
    rcases List.mem_append.mp hf with hf | hf
    · exact mono h.accounted _ hf
    · exact .inl (h.composed (hfs ▸ hf))

/-- Nothing is put into the queues. -/
theorem other (h : Accountable events es c) {e : Event} {es' : List Effect} {c' : Card NR NA NF}
    (hcons : Conserved (es ++ es') c')
    (hes : ∀ x ∈ es', (∃ raw, x = .received raw ∧ Arrives c e raw) ∨ (∃ t f, x = .taken t f) ∨ ∃ line, x = .shown line)
    (hrelay : c.bridge.relay.OnlyIds c'.bridge.relay) : Accountable (events ++ [e]) (es ++ es') c' := by
  have hi : ingested es' = [] := List.filterMap_eq_nil_iff.mpr fun x hx => by
    rcases hes x hx with ⟨raw, rfl, -⟩ | ⟨t, f, rfl⟩ | ⟨line, rfl⟩ <;> rfl
  have hp : planned es' = [] := List.filterMap_eq_nil_iff.mpr fun x hx => by
    rcases hes x hx with ⟨raw, rfl, -⟩ | ⟨t, f, rfl⟩ | ⟨line, rfl⟩ <;> rfl
  have hingested : ingested (es ++ es') = ingested es := by simpa [ingested] using hi
  have hplanned : planned (es ++ es') = planned es := by simpa [planned] using hp
  have hsame := hrelay.sameInbox
  refine ⟨hcons, ?_, ?_, ?_, fun m hm => ?_, fun f hf => ?_⟩
  · rw [hsame.selfAddr, h.selfAddr]
  · rw [hsame.reassembler]
    exact h.inv
  · rw [hsame.reassembler, hingested]
    exact h.sourced
  · obtain ⟨raw, hraw, hm⟩ := List.mem_flatMap.mp hm
    obtain ⟨x, hx, hxraw⟩ := List.mem_filterMap.mp hraw
    rcases List.mem_append.mp hx with hx | hx
    · exact (h.external m (List.mem_flatMap.mpr ⟨raw, List.mem_filterMap.mpr ⟨x, hx, hxraw⟩, hm⟩)).mono
        (List.subset_append_left _ _)
    · rcases hes x hx with ⟨raw', rfl, ha⟩ | ⟨t, f, rfl⟩ | ⟨line, rfl⟩
      · cases hxraw
        exact External.heard (by simp) ha hm
      · cases hxraw
      · cases hxraw
  · rw [hplanned] at hf
    exact mono h.accounted e hf

theorem step (h : Accountable events es c) (e : Event) :
    Accountable (events ++ [e]) (es ++ (c.step e).1) (c.step e).2 := by
  have hcons := h.conserved.step e
  have hstep := c.outcome_step e
  generalize c.step e = x at hcons hstep ⊢
  cases hstep with
  | @bridge raw inbound htake => exact h.ingest (h.taken htake) hcons (c.bridge.turn_eq raw).1 .bridge
  | compose text => exact h.compose text hcons (c.bridge.sendLocalText_eq text).1
  | other hes hrelay => exact h.other hcons hes hrelay

end Accountable

theorem boot_accountable : Accountable [] [] (boot : Card NR NA NF) :=
  ⟨conserved_life [], rfl, Reassembler.inv_of_idle Reassembler.inFlight_new,
    (Reassembler.run_sourced Reassembler.inFlight_new []).2, nofun, nofun⟩

theorem accountable_life (events : List Event) :
    Accountable events (life events : List Effect × Card NR NA NF).1 (life events : List Effect × Card NR NA NF).2 := by
  refine @run_history _ _ _ step (fun is os c => Accountable is os.flatten c) (fun is os c e h => ?_) boot ?_ events
  · rw [List.flatten_append, List.flatten_singleton]
    exact h.step e
  · exact boot_accountable

end Card

/-- In every run of the tasks, in any order, each frame that is put into the queue
of a transport, or finds it full, is one of a broadcast text that was typed here,
or one of those that forward, with one hop less to go, a message heard on another
transport, whole or put together from slices, whose frames came from a radio or,
as a text, from the broker. -/
theorem traffic_accounted {NR NA NF : Nat} (events : List Card.Event) :
    ∀ f ∈ Card.planned (Card.life events : List Card.Effect × Card NR NA NF).1,
      Card.Composed events f ∨ Card.Forwarded events f :=
  (Card.accountable_life events).accounted

/-- What the terminal has for the broker when `hi` is the first text that is typed. -/
def Card.exampleTyped : Message :=
  ⟨CARD_ID_BASE, DEFAULT_TTL, .mqtt, CARD_ADDR, BROADCAST_ADDR, .text, ⟨[104, 105], by decide⟩, none⟩

theorem traffic_accounted_typed :
    Card.Composed [.compose "hi"] ⟨.mqtt, .broadcast, Card.exampleTyped⟩ ∨
      Card.Forwarded [.compose "hi"] ⟨.mqtt, .broadcast, Card.exampleTyped⟩ :=
  @traffic_accounted 16 4 32 [.compose "hi"] ⟨.mqtt, .broadcast, Card.exampleTyped⟩ (by decide +kernel)

/-- In every run of the tasks, in any order and whatever is heard, each frame that is
put into the queue of a transport, or finds it full, has a payload that the transport
takes; it is whole, or one of the two slices of a message for LoRa. -/
theorem traffic_fits {NR NA NF : Nat} (events : List Card.Event) :
    ∀ f ∈ Card.planned (Card.life events : List Card.Effect × Card NR NA NF).1,
      f.message.payload.len ≤ f.transport.maxPayload ∧
        ∀ s, f.message.frag = some s → f.transport = .lora ∧ s.total = 2 ∧ s.seq < 2 := by
  intro f hf
  rcases (Card.accountable_life events).accounted f hf with
    ⟨-, text, id, g, p, -, -, hframe⟩ | ⟨history, last, m, -, hover, -, -, -, g, hframe⟩
  · exact Message.framesOn_fits rfl hframe
  · exact Message.framesOn_fits (show m.relayed.frag = none from hover.whole) hframe

theorem traffic_fits_typed :
    Card.exampleTyped.payload.len ≤ Transport.mqtt.maxPayload ∧
      ∀ s, Card.exampleTyped.frag = some s → Transport.mqtt = .lora ∧ s.total = 2 ∧ s.seq < 2 :=
  @traffic_fits 16 4 32 [.compose "hi"] ⟨.mqtt, .broadcast, Card.exampleTyped⟩ (by decide +kernel)

end RelayStar

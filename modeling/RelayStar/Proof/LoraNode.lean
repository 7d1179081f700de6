import RelayStar.Impl.LoraNode
import RelayStar.Proof.Reply
import RelayStar.Proof.Traffic

/-!
# The traffic of the LoRa node

In any run, and whatever the radio does, the node hands its port one frame for
each heartbeat and one for each `Ping` that is completed, in this order and no
other (`node_traffic`): one of its own messages, each with an id of its own. A
`Pong` goes to the sender of its `Ping`, unless the table of receivers had no
room for the sender. The counters on the display count what was completed and
what the port took.
-/

namespace RelayStar

namespace Relay

variable {NR NA NF : Nat} {r : Relay NR NA NF}

/-- LoRa is the only transport. -/
def Solo (r : Relay NR NA NF) : Prop := ∀ t, r.isPortRegistered t = decide (t = .lora)

/-- A new message of this relay. -/
def newMessage (r : Relay NR NA NF) (kind : MsgKind) (p : Payload) (dest : Destination) : Message :=
  ⟨r.nextId.1, DEFAULT_TTL, .lora, r.selfAddr, dest.addr, kind, p, none⟩

theorem resolveTargets_solo (h : r.Solo) (dest : Destination) :
    r.resolveTargets dest = if r.usable dest .lora then .ok [.lora] else .error .unknownReceiver := by
  have hports : r.hasPorts = true := hasPorts_iff.mpr ⟨.lora, h .lora⟩
  have hmqtt : r.usable dest .mqtt = false := by simp [usable, h .mqtt]
  have hespNow : r.usable dest .espNow = false := by simp [usable, h .espNow]
  rw [resolveTargets_eq, hports, if_neg (by decide)]
  by_cases hl : r.usable dest .lora = true <;> simp [Transport.ALL, hl, hmqtt, hespNow]

/-- A short payload is one frame, and takes two ids. -/
theorem planSend_solo (h : r.Solo) (kind : MsgKind) (p : Payload) (hp : p.len ≤ 180) {dest : Destination}
    (hd : r.usable dest .lora = true) :
    ∃ out, r.planSend kind p.toList dest = (.ok out, { r with idCtr := r.idCtr + 2 }) ∧
      out.toList = [⟨.lora, dest.frameAddr, r.newMessage kind p dest⟩] := by
  have hts := r.resolveTargets_solo h dest
  rw [if_pos hd] at hts
  have hwhole (g : UInt32) : (r.newMessage kind p dest).framesOn .lora g = [r.newMessage kind p dest] :=
    if_neg fun hs => absurd hs.2.2 (Nat.not_lt.mpr hp)
  obtain ⟨fs, hs, hfs⟩ := Fragmenter.split_eq (r.newMessage kind p dest) .lora r.nextId.2.nextId.1
  obtain ⟨out, hpush, hout⟩ := pushFrames_framesOn (by decide : 2 ≤ MAX_FRAGMENTS * 3) (r.newMessage kind p dest)
    .lora .lora r.nextId.2.nextId.1 dest.frameAddr
  rw [hwhole] at hfs hout hpush
  refine ⟨out, ?_, hout⟩
  have hids : r.nextId.2.nextId.2 = { r with idCtr := r.idCtr + 2 } := by
    simp only [nextId, UInt32.add_assoc]
    rfl
  simp only [planSend, hts, planTargets, prepare_payload, List.isEmpty_cons, Bool.false_eq_true, if_false]
  rw [show (⟨r.nextId.1, DEFAULT_TTL, .lora, r.nextId.2.selfAddr, dest.addr, kind, p, none⟩ : Message) =
    r.newMessage kind p dest from rfl, hs]
  simp only [hfs, hpush, hids]

theorem planSend_unknown (h : r.Solo) (kind : MsgKind) (payload : List UInt8) {dest : Destination}
    (hd : r.usable dest .lora = false) : r.planSend kind payload dest = (.error .unknownReceiver, r) := by
  have hts := r.resolveTargets_solo h dest
  rw [hd, if_neg (by decide)] at hts
  simp only [planSend, hts]

theorem usable_broadcast (h : r.Solo) : r.usable .broadcast .lora = true := by simp [usable, h .lora]

end Relay

/-- A port that keeps what it is handed, and whether it takes it. -/
structure Meter (P : Type) where
  port : P
  handed : List (FrameAddr × List UInt8)
  results : List Bool

/-- How many frames the port took. -/
def Meter.taken {P : Type} (p : Meter P) : Nat := p.results.count true

theorem count_taken (results : List Bool) (ok : Bool) :
    (results ++ [ok]).count true = results.count true + ok.toNat := by
  rw [List.count_append]
  cases ok <;> rfl

instance {P : Type} [TransportPort P] : TransportPort (Meter P) where
  transport p := TransportPort.transport p.port
  sendFrame p addr bytes := match TransportPort.sendFrame p.port addr bytes with
    | (.error e, port) => (.error e, ⟨port, p.handed ++ [(addr, bytes)], p.results ++ [false]⟩)
    | (.ok (), port) => (.ok (), ⟨port, p.handed ++ [(addr, bytes)], p.results ++ [true]⟩)

theorem length_asBytes (s : String) : (asBytes s).length = s.utf8ByteSize := rfl

namespace LoraNode

variable {P : Type} [TransportPort P] {NR NA NF : Nat}

/-! ## One send -/

theorem transmitAll_single (p : Meter P) (addr : FrameAddr) (m : Message) :
    ∃ (ok : Bool) (port : P), transmitAll [⟨.lora, addr, m⟩] p 0 =
      (ok.toNat, ⟨port, p.handed ++ [(addr, m.wire)], p.results ++ [ok]⟩) := by
  have hlora : ¬ Transport.lora ≠ .lora := by decide
  simp only [transmitAll, if_neg hlora, transmitPlanned, Message.encode_max_frame, TransportPort.sendFrame]
  cases TransportPort.sendFrame p.port addr m.wire with
  | mk res port =>
    cases res with
    | error e => exact ⟨false, port, rfl⟩
    | ok u => exact ⟨true, port, rfl⟩

/-- One frame with this payload is handed to the port, and counted if it takes it. -/
structure Sends (n n' : LoraNode (Meter P) NR NA NF) (kind : MsgKind) (payload : List UInt8) (dest : Destination) : Prop where
  relay : n'.relay = { n.relay with idCtr := n.relay.idCtr + 2 }
  handed : ∃ p : Payload, p.toList = payload ∧
    n'.port.handed = n.port.handed ++ [(dest.frameAddr, (n.relay.newMessage kind p dest).wire)]
  counted : ∃ ok : Bool, n'.port.results = n.port.results ++ [ok] ∧ n'.txCounter = n.txCounter + UInt32.ofNat ok.toNat
  rxCounter : n'.rxCounter = n.rxCounter

theorem sendViaPort_solo {r : Relay NR NA NF} (h : r.Solo) (p : Meter P) (kind : MsgKind) {payload : List UInt8}
    (hp : payload.length ≤ 180) {dest : Destination} (hd : r.usable dest .lora = true) :
    ∃ (q : Payload) (ok : Bool) (port : P), q.toList = payload ∧ sendViaPort p r kind payload dest =
      ((.ok ok.toNat, ⟨port, p.handed ++ [(dest.frameAddr, (r.newMessage kind q dest).wire)], p.results ++ [ok]⟩),
        { r with idCtr := r.idCtr + 2 }) := by
  have hle : payload.length ≤ MAX_PAYLOAD := Nat.le_trans hp (by decide)
  obtain ⟨out, hplan, hout⟩ := Relay.planSend_solo h kind ⟨payload, hle⟩ hp hd
  obtain ⟨ok, port, hsent⟩ := transmitAll_single p dest.frameAddr (r.newMessage kind ⟨payload, hle⟩ dest)
  refine ⟨⟨payload, hle⟩, ok, port, rfl, ?_⟩
  rw [sendViaPort, hplan]
  simp only [hout, hsent]

/-- A `Pong` goes to the sender of the `Ping`, or to all if the sender is not in
the table. -/
theorem reply_sends {n : LoraNode (Meter P) NR NA NF} (h : n.relay.Solo) (sender : Addr) :
    ∃ dest, n.Sends (n.reply sender) .pong (asBytes "pong") dest ∧
      (dest = .unicast sender ∨ dest = .broadcast ∧ n.relay.usable (.unicast sender) .lora = false) := by
  have hlen : (asBytes "pong").length ≤ 180 := by decide
  cases hd : n.relay.usable (.unicast sender) .lora with
  | true =>
    obtain ⟨q, ok, port, hq, hs⟩ := sendViaPort_solo h n.port .pong hlen hd
    rw [reply, hs]
    exact ⟨_, ⟨rfl, ⟨q, hq, rfl⟩, ⟨ok, rfl, rfl⟩, rfl⟩, .inl rfl⟩
  | false =>
    obtain ⟨q, ok, port, hq, hs⟩ := sendViaPort_solo h n.port .pong hlen (Relay.usable_broadcast h)
    have hu : sendViaPort n.port n.relay .pong (asBytes "pong") (.unicast sender) =
        ((.error .unknownReceiver, n.port), n.relay) := by
      rw [sendViaPort, Relay.planSend_unknown h .pong (asBytes "pong") hd]
    rw [reply, hu]
    simp only [hs]
    exact ⟨_, ⟨rfl, ⟨q, hq, rfl⟩, ⟨ok, rfl, rfl⟩, rfl⟩, .inr ⟨rfl, trivial⟩⟩

/-- The text of a heartbeat fits its buffer. -/
theorem text_heartbeat (n : UInt32) :
    ((HString.empty : HString 32).write ["node hb #", toString n.toNat]).text = "node hb #" ++ toString n.toNat := by
  have hjoin : String.join ["node hb #", toString n.toNat] = "node hb #" ++ toString n.toNat := by simp
  have hsize : ("" ++ String.join ["node hb #", toString n.toNat]).utf8ByteSize ≤ 32 := by
    have := HString.size_repr_le (n := n.toNat) (by decide : 0 < 10) (Nat.lt_trans n.toNat_lt (by decide))
    rw [hjoin, String.utf8ByteSize_append, String.utf8ByteSize_append, Nat.toString_eq_repr]
    have h9 : "node hb #".utf8ByteSize = 9 := rfl
    have h0 : "".utf8ByteSize = 0 := rfl
    omega
  rw [HString.text_write _ hsize, hjoin]
  simp

theorem heartbeat_sends {n : LoraNode (Meter P) NR NA NF} (h : n.relay.Solo) :
    n.Sends n.heartbeat.2 .text (asBytes ("node hb #" ++ toString n.txCounter.toNat)) .broadcast := by
  have hlen : (asBytes ("node hb #" ++ toString n.txCounter.toNat)).length ≤ 180 := by
    rw [length_asBytes, ← text_heartbeat]
    exact Nat.le_trans (HString.size_le _) (by decide)
  obtain ⟨q, ok, port, hq, hs⟩ := sendViaPort_solo h n.port .text hlen (Relay.usable_broadcast h)
  rw [heartbeat]
  simp only [text_heartbeat, hs]
  exact ⟨rfl, ⟨q, hq, rfl⟩, ⟨ok, rfl, rfl⟩, rfl⟩

end LoraNode

/-! ## Who can be answered -/

namespace Relay

variable {NR NA NF : Nat} {r : Relay NR NA NF} {a : Addr}

/-- There is no row for the peer, and none will be made. -/
def NoRow (r : Relay NR NA NF) (a : Addr) : Prop :=
  a = BROADCAST_ADDR ∨ a = r.selfAddr ∨ (r.receivers.lookup a = none ∧ r.receivers.len = NR)

/-- The peer is reachable, or has no row. -/
def Known (r : Relay NR NA NF) (a : Addr) : Prop := r.usable (.unicast a) .lora = true ∨ r.NoRow a

/-- A full table stays as it is, but for the transports of its rows. -/
theorem full_add {N : Nat} {t : ReceiverTable N} (h : t.Ok) (hnone : t.lookup a = none) (hfull : t.len = N) (addr : Addr)
    (source : Transport) : (t.add addr source).2.lookup a = none ∧ (t.add addr source).2.len = N := by
  rcases ReceiverTable.add_cases h addr source with ⟨-, hadd⟩ | ⟨hroom, -, hok, hpeers, hrest⟩
  · rw [hadd]
    exact ⟨hnone, hfull⟩
  · have hsome : t.peers addr ≠ none := fun hn => hroom ⟨hn, by rw [← ReceiverTable.len_eq h, hfull]⟩
    have hne : a ≠ addr := fun e => hsome (by rw [← e, ReceiverTable.peers_eq_none.mpr hnone])
    refine ⟨(hrest a hne).trans hnone, ?_⟩
    have hsize : (t.peers.insert addr source).size = t.peers.size := by
      rw [Spec.PeerMap.size, Spec.PeerMap.size]
      congr 1
      ext b
      by_cases hb : b = addr
      · simp [hb, hsome, Spec.PeerMap.insert]
      · simp [hb, Spec.PeerMap.insert]
    rw [ReceiverTable.len_eq hok, hpeers, hsize, ← ReceiverTable.len_eq h]
    exact hfull

/-- A reachable peer stays reachable. -/
theorem reachable_add {N : Nat} {t : ReceiverTable N} (h : t.Ok) (ha : ∃ ts, t.peers a = some ts ∧ Transport.lora ∈ ts)
    (addr : Addr) : ∃ ts, (t.add addr .lora).2.peers a = some ts ∧ Transport.lora ∈ ts := by
  rcases ReceiverTable.add_cases h addr .lora with ⟨-, hadd⟩ | ⟨-, -, -, hpeers, -⟩
  · rwa [hadd]
  · rw [hpeers, Spec.PeerMap.insert]
    by_cases hb : a = addr
    · subst hb
      exact ⟨_, Function.update_self .., Finset.mem_insert_self ..⟩
    · rwa [Function.update_of_ne hb]

theorem usable_unicast (h : r.Solo) :
    r.usable (.unicast a) .lora = true ↔ ∃ ts, r.receivers.peers a = some ts ∧ Transport.lora ∈ ts := by
  rw [← ReceiverTable.reachable_iff]
  simp [usable, h .lora, Option.any_eq_true]

theorem NoRow.ingest (hok : r.receivers.Ok) (h : r.NoRow a) (frame : List UInt8) :
    (r.ingest .lora frame).2.NoRow a := by
  rcases h with h | h | ⟨hnone, hfull⟩
  · exact .inl h
  · exact .inr (.inl (by rw [h, (r.ingest_self _ _).1]))
  · refine .inr (.inr ?_)
    cases hd : Message.decode frame with
    | error e =>
      rw [r.ingest_error .lora hd]
      exact ⟨hnone, hfull⟩
    | ok m =>
      rw [r.ingest_receivers .lora hd, learnSender]
      split
      · exact full_add hok hnone hfull ..
      · exact ⟨hnone, hfull⟩

theorem Solo.ingest (h : r.Solo) (frame : List UInt8) : (r.ingest .lora frame).2.Solo := fun t => by
  rw [isPortRegistered_ingest]
  exact h t

theorem Known.ingest (hs : r.Solo) (hok : r.receivers.Ok) (h : r.Known a) (frame : List UInt8) :
    (r.ingest .lora frame).2.Known a := by
  rcases h with h | h
  · refine .inl ((usable_unicast (hs.ingest frame)).mpr ?_)
    rw [usable_unicast hs] at h
    cases hd : Message.decode frame with
    | error e =>
      rw [r.ingest_error .lora hd]
      exact h
    | ok m =>
      rw [r.ingest_receivers .lora hd, learnSender]
      split
      · exact reachable_add hok h _
      · exact h
  · exact .inr (h.ingest hok frame)

/-- Whoever is heard is known. -/
theorem known_heard (hs : r.Solo) (hok : r.receivers.Ok) {frame : List UInt8} {m : Message}
    (hm : m ∈ heard .lora frame) : (r.ingest .lora frame).2.Known m.fromAddr := by
  rw [heard] at hm
  split at hm
  · cases hm
  · rename_i x hx
    obtain rfl := List.mem_singleton.mp hm
    by_cases hb : x.fromAddr = BROADCAST_ADDR
    · exact .inr (.inl hb)
    · by_cases hself : x.fromAddr = r.selfAddr
      · exact .inr (.inr (.inl (hself.trans (r.ingest_self _ _).1.symm)))
      · obtain ⟨hroom, hfull⟩ := learnSender_cases hok (m := x.arrived .lora) .lora hb hself
        by_cases hk : r.receivers.lookup x.fromAddr ≠ none ∨ r.receivers.len < NR
        · obtain ⟨row, hl, hr⟩ := hroom hk
          refine .inl ((usable_unicast (hs.ingest frame)).mpr ?_)
          rw [← ReceiverTable.reachable_iff, r.ingest_receivers .lora hx]
          exact ⟨row, hl, hr⟩
        · refine .inr (.inr (.inr ?_))
          rw [r.ingest_receivers .lora hx, hfull hk]
          rw [not_or, not_not, Nat.not_lt] at hk
          exact ⟨hk.1, Nat.le_antisymm r.receivers.entries.len_le hk.2⟩

theorem ingest_receivers_ok (hok : r.receivers.Ok) (source : Transport) (frame : List UInt8) :
    (r.ingest source frame).2.receivers.Ok := by
  cases hd : Message.decode frame with
  | error e =>
    rw [r.ingest_error source hd]
    exact hok
  | ok m =>
    rw [r.ingest_receivers source hd]
    exact learnSender_ok hok _ _

end Relay

/-- A message that is handed over has the sender of one that was heard. -/
theorem HandedOver.sender {history : List Message} {last m : Message} (h : HandedOver history last m) :
    ∃ y ∈ history, m.fromAddr = y.fromAddr := by
  obtain ⟨hlast, ⟨-, rfl⟩ | ⟨f, parts, -, hparts⟩⟩ := h
  · exact ⟨_, hlast, rfl⟩
  · obtain ⟨y, hy, hm⟩ := hparts.header
    exact ⟨y, hparts.mem y hy, by rw [hm]⟩

namespace LoraNode

variable {P : Type} [TransportPort P] {NR NA NF : Nat}

/-! ## Runs -/

/-- What makes the node send a frame. -/
inductive Cause where
  | heartbeat
  | ping (m : Message)

/-- The message that an event completes. -/
def completed (n : LoraNode P NR NA NF) : Event → Option Message
  | .rx frame => match (n.relay.ingest .lora frame).1 with
    | .ok (.complete m) => some m
    | _ => none
  | _ => none

/-- The cause to send that an event and what it completes are. -/
def cause : Event × Option Message → Option Cause
  | (.heartbeat, _) => some .heartbeat
  | (_, some m) => if m.kind = .ping then some (.ping m) else none
  | _ => none

/-- A turn, with its event and what it completes. -/
def observe (n : LoraNode P NR NA NF) (e : Event) : (Event × Option Message) × LoraNode P NR NA NF :=
  ((e, n.completed e), (n.turn e).2)

/-- Message number `j` of the node. -/
def message (j : Nat) (kind : MsgKind) (p : Payload) (dest : Destination) : Message :=
  ⟨NODE_ID_BASE + UInt32.ofNat (2 * j), DEFAULT_TTL, .lora, NODE_ADDR, dest.addr, kind, p, none⟩

/-- Frame number `j`, for its cause: a heartbeat counts the frames before it that
the port took. -/
def Answer (results : List Bool) (r : Relay NR NA NF) (j : Nat) : Cause → FrameAddr × List UInt8 → Prop
  | .heartbeat, f => ∃ p : Payload,
      p.toList = asBytes ("node hb #" ++ toString ((results.take j).count true % 2 ^ 32)) ∧
      f = (.broadcast, (message j .text p .broadcast).wire)
  | .ping m, f => ∃ dest, (dest = .unicast m.fromAddr ∨ dest = .broadcast ∧ r.NoRow m.fromAddr) ∧
      ∃ p : Payload, p.toList = asBytes "pong" ∧ f = (dest.frameAddr, (message j .pong p dest).wire)

/-- The state after a run, the relay apart from what it sends. -/
structure Listens (r : Relay NR NA NF) : Prop where
  solo : r.Solo
  selfAddr : r.selfAddr = NODE_ADDR
  idBase : r.idBase = NODE_ID_BASE
  receivers : r.receivers.Ok
  inv : r.reassembler.Inv
  heard : ∃ history, Sourced history r.reassembler.table ∧ ∀ y ∈ history, r.Known y.fromAddr

/-- The frames of a run, one for each cause, and their counter. -/
structure Sent (cs : List Cause) (n : LoraNode (Meter P) NR NA NF) : Prop where
  ids : n.relay.idCtr = UInt32.ofNat (2 * n.port.handed.length)
  results : n.port.results.length = n.port.handed.length
  txCounter : n.txCounter = UInt32.ofNat n.port.taken
  length : n.port.handed.length = cs.length
  answers : ∀ j c f, cs[j]? = some c → n.port.handed[j]? = some f → Answer n.port.results n.relay j c f

variable {r : Relay NR NA NF} {n n' : LoraNode (Meter P) NR NA NF} {cs : List Cause}

theorem Listens.onlyIds (h : Listens r) {r' : Relay NR NA NF} (hr : r.OnlyIds r') : Listens r' := by
  obtain ⟨k, rfl⟩ := hr
  exact ⟨h.solo, h.selfAddr, h.idBase, h.receivers, h.inv, h.heard⟩

theorem Listens.ingest (h : Listens r) (frame : List UInt8) :
    Listens (r.ingest .lora frame).2 ∧
      ∀ m, delivered (r.ingest .lora frame).1 = some m → (r.ingest .lora frame).2.Known m.fromAddr := by
  obtain ⟨hself, hbase, -⟩ := r.ingest_self .lora frame
  obtain ⟨history, hS, hknown⟩ := h.heard
  obtain ⟨hS', hdel⟩ := Relay.ingest_sourced h.inv hS .lora frame
  have hall : ∀ y ∈ history ++ Relay.heard .lora frame, (r.ingest .lora frame).2.Known y.fromAddr := fun y hy => by
    rcases List.mem_append.mp hy with hy | hy
    · exact (hknown y hy).ingest h.solo h.receivers frame
    · exact Relay.known_heard h.solo h.receivers hy
  refine ⟨⟨h.solo.ingest frame, hself.trans h.selfAddr, hbase.trans h.idBase, Relay.ingest_receivers_ok h.receivers ..,
    Relay.ingest_reassembler_inv h.inv .., _, hS', hall⟩, fun m hm => ?_⟩
  obtain ⟨last, -, hover⟩ := hdel m hm
  obtain ⟨y, hy, heq⟩ := hover.sender
  rw [heq]
  exact hall y hy

theorem Answer.ingest (h : Listens r) {results : List Bool} {j : Nat} {c : Cause} {f : FrameAddr × List UInt8}
    (ha : Answer results r j c f) (frame : List UInt8) : Answer results (r.ingest .lora frame).2 j c f := by
  cases c with
  | heartbeat => exact ha
  | ping m =>
    obtain ⟨dest, hdest, hrest⟩ := ha
    refine ⟨dest, hdest.imp_right fun hno => ?_, hrest⟩
    exact ⟨hno.1, hno.2.ingest h.receivers frame⟩

theorem Answer.onlyIds {r' : Relay NR NA NF} (hr : r.OnlyIds r') {results : List Bool} {j : Nat} {c : Cause}
    {f : FrameAddr × List UInt8} (ha : Answer results r j c f) : Answer results r' j c f := by
  obtain ⟨k, rfl⟩ := hr
  cases c with
  | heartbeat => exact ha
  | ping m => exact ha

/-- What comes of later frames does not matter. -/
theorem Answer.concat {results : List Bool} {j : Nat} (hj : j ≤ results.length) {c : Cause}
    {f : FrameAddr × List UInt8} (ha : Answer results r j c f) (ok : Bool) : Answer (results ++ [ok]) r j c f := by
  cases c with
  | heartbeat => rwa [Answer, List.take_append_of_le_length hj]
  | ping m => exact ha

section

omit [TransportPort P]

/-- A frame is ingested. -/
theorem Sent.ingest (h : Sent cs n) (hl : Listens n.relay) {frame : List UInt8} (hport : n'.port = n.port)
    (htx : n'.txCounter = n.txCounter) (hrelay : n'.relay = (n.relay.ingest .lora frame).2) : Sent cs n' := by
  refine ⟨?_, ?_, ?_, ?_, fun j c f hc hf => ?_⟩
  · rw [hrelay, (n.relay.ingest_self _ _).2.2, hport, h.ids]
  · rw [hport]
    exact h.results
  · rw [htx, hport, h.txCounter]
  · rw [hport, h.length]
  · rw [hport] at hf
    rw [hrelay, hport]
    exact (h.answers j c f hc hf).ingest hl frame

/-- A frame is sent. -/
theorem Sent.send (h : Sent cs n) (hl : Listens n.relay) {kind : MsgKind} {payload : List UInt8} {dest : Destination}
    (hs : n.Sends n' kind payload dest) {c : Cause}
    (ha : ∀ p : Payload, p.toList = payload →
      Answer n.port.results n.relay n.port.handed.length c
        (dest.frameAddr, (message n.port.handed.length kind p dest).wire)) :
    Sent (cs ++ [c]) n' := by
  obtain ⟨p, hp, hhanded⟩ := hs.handed
  obtain ⟨ok, hresults, htx⟩ := hs.counted
  have hmessage : n.relay.newMessage kind p dest = message n.port.handed.length kind p dest := by
    rw [Relay.newMessage, Relay.nextId, hl.idBase, hl.selfAddr, h.ids]
    rfl
  have hlength := h.length
  have hlen : n'.port.handed.length = n.port.handed.length + 1 := by rw [hhanded, List.length_append]; rfl
  refine ⟨?_, ?_, ?_, ?_, fun j c' f hc hf => ?_⟩
  · rw [hs.relay, hlen, Nat.mul_add, UInt32.ofNat_add, ← h.ids]
    rfl
  · rw [hresults, hlen, List.length_append, h.results]
    rfl
  · rw [htx, h.txCounter, Meter.taken, Meter.taken, hresults, count_taken, UInt32.ofNat_add]
  · rw [hlen, hlength, List.length_append]
    rfl
  · rw [hs.relay, hresults]
    refine Answer.onlyIds ⟨_, rfl⟩ ?_
    rw [hhanded] at hf
    by_cases hj : j < n.port.handed.length
    · rw [List.getElem?_append_left hj] at hf
      rw [List.getElem?_append_left (by omega)] at hc
      exact (h.answers j c' f hc hf).concat (by rw [h.results]; omega) ok
    · have hlast : j = n.port.handed.length := by
        have := (List.getElem?_eq_some_iff.mp hf).1
        rw [List.length_append, List.length_singleton] at this
        omega
      subst hlast
      rw [List.getElem?_concat_length] at hf
      rw [hlength, List.getElem?_concat_length] at hc
      cases hf
      cases hc
      rw [hmessage]
      exact (ha p hp).concat (Nat.le_of_eq h.results.symm) ok

end

/-- After a run. -/
structure Observed (es : List (Event × Option Message)) (n : LoraNode (Meter P) NR NA NF) : Prop where
  listens : Listens n.relay
  sent : Sent (es.filterMap cause) n
  rxCounter : n.rxCounter = UInt32.ofNat (es.countP (·.2.isSome))

variable {es : List (Event × Option Message)}

theorem Observed.heartbeat (h : Observed es n) : Observed (es ++ [(.heartbeat, none)]) n.heartbeat.2 := by
  have hs := heartbeat_sends h.listens.solo
  refine ⟨?_, ?_, ?_⟩
  · rw [hs.relay]
    exact h.listens.onlyIds ⟨_, rfl⟩
  · rw [List.filterMap_append]
    refine h.sent.send h.listens hs fun p hp => ⟨p, ?_, rfl⟩
    rw [hp, h.sent.txCounter, UInt32.toNat_ofNat', ← h.sent.results, List.take_length]
    rfl
  · rw [hs.rxCounter, h.rxCounter]
    simp

theorem Observed.rx (h : Observed es n) (frame : List UInt8) :
    Observed (es ++ [(.rx frame, n.completed (.rx frame))]) (n.turn (.rx frame)).2 := by
  obtain ⟨hlistens, hknown⟩ := h.listens.ingest frame
  have hother (n' : LoraNode (Meter P) NR NA NF) {o : Option Message} (hport : n'.port = n.port)
      (htx : n'.txCounter = n.txCounter) (hrx : n'.rxCounter = n.rxCounter + UInt32.ofNat o.isSome.toNat)
      (hrelay : n'.relay = (n.relay.ingest .lora frame).2) (ho : cause (.rx frame, o) = none) :
      Observed (es ++ [(.rx frame, o)]) n' := by
    refine ⟨hrelay ▸ hlistens, ?_, ?_⟩
    · rw [List.filterMap_append, List.filterMap_cons_none ho, List.filterMap_nil, List.append_nil]
      exact h.sent.ingest h.listens hport htx hrelay
    · rw [hrx, h.rxCounter, ← UInt32.ofNat_add]
      cases o <;> simp
  rw [turn, completed]
  cases hi : n.relay.ingest .lora frame with
  | mk res r =>
    rw [hi] at hlistens hknown hother
    cases res with
    | error e => exact hother _ rfl rfl (UInt32.add_zero _).symm rfl rfl
    | ok o =>
      cases o with
      | complete m =>
        dsimp only
        rw [complete]
        dsimp only
        by_cases hping : m.kind = .ping
        · rw [if_pos hping]
          obtain ⟨dest, hs, hdest⟩ := reply_sends (n := { n with
            relay := r, rxCounter := n.rxCounter + 1, lastRx := HString.empty.write [m.asText.getD "<binary>"] })
            hlistens.solo m.fromAddr
          refine ⟨?_, ?_, ?_⟩
          · rw [hs.relay]
            exact hlistens.onlyIds ⟨_, rfl⟩
          · rw [List.filterMap_append, List.filterMap_cons_some (show cause (.rx frame, some m) = some (.ping m) from
              if_pos hping)]
            have hin : Sent (es.filterMap cause) { n with
                relay := r, rxCounter := n.rxCounter + 1, lastRx := HString.empty.write [m.asText.getD "<binary>"] } :=
              h.sent.ingest h.listens rfl rfl (congrArg Prod.snd hi).symm
            refine hin.send hlistens hs fun p hp => ?_
            refine ⟨dest, hdest.imp_right fun ⟨hb, hu⟩ => ⟨hb, ?_⟩, p, hp, rfl⟩
            exact (hknown m rfl).resolve_left (by rw [hu]; decide)
          · rw [hs.rxCounter]
            show n.rxCounter + 1 = _
            rw [h.rxCounter, List.countP_append, UInt32.ofNat_add]
            rfl
        · rw [if_neg hping]
          exact hother _ rfl rfl rfl rfl (if_neg hping)
      | notForMe m => exact hother _ rfl rfl (UInt32.add_zero _).symm rfl rfl
      | duplicate => exact hother _ rfl rfl (UInt32.add_zero _).symm rfl rfl
      | buffered => exact hother _ rfl rfl (UInt32.add_zero _).symm rfl rfl
      | dropped reason => exact hother _ rfl rfl (UInt32.add_zero _).symm rfl rfl

theorem Observed.step (h : Observed es n) (e : Event) :
    Observed (es ++ [(observe n e).1]) (observe n e).2 := by
  cases e with
  | rx frame => exact h.rx frame
  | heartbeat => exact h.heartbeat
  | rxError =>
    refine ⟨h.listens, ?_, ?_⟩
    · rw [List.filterMap_append, show [(observe n .rxError).1].filterMap cause = [] from rfl, List.append_nil]
      exact h.sent
    · rw [show (observe n .rxError).2.rxCounter = n.rxCounter from rfl, h.rxCounter]
      simp [observe, completed]

omit [TransportPort P] in
theorem observed_boot (port : P) : Observed [] (boot ⟨port, [], []⟩ : LoraNode (Meter P) NR NA NF) := by
  refine ⟨⟨fun t => ?_, rfl, rfl, ReceiverTable.ok_new, Reassembler.inv_of_idle Reassembler.inFlight_new, [], ?_,
    fun y hy => (by cases hy)⟩, ⟨rfl, rfl, rfl, rfl, fun j c f hc => (by cases hc)⟩, rfl⟩
  · cases t <;> rfl
  · exact (Reassembler.run_sourced Reassembler.inFlight_new []).2

theorem Observed.append (h : Observed es n) (events : List Event) :
    Observed (es ++ (run observe n events).1) (run observe n events).2 := by
  refine @run_history _ _ _ observe (fun _ os n => Observed (es ++ os) n) (fun _ os n e h => ?_) n ?_ events
  · rw [← List.append_assoc]
    exact h.step e
  · rwa [List.append_nil]

theorem observed_run (port : P) (events : List Event) :
    Observed (run observe (boot ⟨port, [], []⟩ : LoraNode (Meter P) NR NA NF) events).1
      (run observe (boot ⟨port, [], []⟩ : LoraNode (Meter P) NR NA NF) events).2 :=
  (observed_boot port).append events

end LoraNode

/-- In any run of the LoRa node, from the start and with any port, the port is
handed one frame for each heartbeat and each completed `Ping`, in order, and no
other: frame number `j` is message number `j` of the node, whose id is `2 * j`
after the base; a heartbeat tells how many of the frames before it the port took; and a
`Pong` goes to the sender of its `Ping`, unless that is the node or the broadcast
address, or the table of receivers is full without it. The counters count what
the port took and what was completed. -/
theorem node_traffic {P : Type} [TransportPort P] {NR NA NF : Nat} (port : P) (events : List LoraNode.Event) :
    let out := run LoraNode.observe (LoraNode.boot ⟨port, [], []⟩ : LoraNode (Meter P) NR NA NF) events
    let causes := out.1.filterMap LoraNode.cause
    out.2.port.handed.length = causes.length ∧
    (∀ j c f, causes[j]? = some c → out.2.port.handed[j]? = some f →
      LoraNode.Answer out.2.port.results out.2.relay j c f) ∧
    out.2.txCounter = UInt32.ofNat out.2.port.taken ∧
    out.2.rxCounter = UInt32.ofNat (out.1.countP (·.2.isSome)) := by
  intro out causes
  have h : LoraNode.Observed out.1 out.2 := LoraNode.observed_run port events
  exact ⟨h.sent.length, h.sent.answers, h.sent.txCounter, h.rxCounter⟩

end RelayStar

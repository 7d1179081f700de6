import Mathlib.Data.List.Perm.Subperm
import RelayStar.Impl.Relay
import RelayStar.Proof.Split
import RelayStar.Spec.Reassembly

/-!
# What is planned

With payloads of at most `MAX_PAYLOAD` bytes only LoRa is too narrow for a
message, and two slices are enough there: `Message.framesOn` are the frames of
a message on a transport, `Message.plan` those of a message sent on several.
`split_eq`, `planForward_eq` and `planSend_ok` say that the source plans these;
the loop of `planSend` goes from one block of frames to the next
(`planTargets_blocks`), and always has room for them.
-/

namespace RelayStar

/-- The frames of a plan on one transport. -/
structure Block where
  transport : Transport
  group : UInt32
  frames : List Message

def Block.planned (addr : FrameAddr) (b : Block) : List PlannedFrame := b.frames.map (⟨b.transport, addr, ·⟩)

namespace Message

/-- The two slices of a message on LoRa. -/
def halves (m : Message) (g : UInt32) : Spec.Group where
  groupId := g
  header := m
  slices :=
    [⟨m.payload.toList.take 180, by
        rw [List.length_take]; have := m.payload.length_le; omega⟩,
      ⟨m.payload.toList.drop 180, by
        rw [List.length_drop]; have := m.payload.length_le; omega⟩]
  length_le := by
    simp only [List.map_cons, List.map_nil, List.flatten_cons, List.flatten_nil, List.append_nil,
      List.take_append_drop]
    exact m.payload.length_le

/-- Whether a message takes two frames on `t`. -/
def IsSplit (m : Message) (t : Transport) : Prop := m.frag = none ∧ t = .lora ∧ 180 < m.payload.len

instance (m : Message) (t : Transport) : Decidable (m.IsSplit t) := by
  unfold IsSplit; infer_instance

/-- The frames of a message on `t`, with the group id `g` if it takes two. -/
def framesOn (m : Message) (t : Transport) (g : UInt32) : List Message :=
  if m.IsSplit t then (m.halves g).frames else [m]

/-- The frames of a message sent on several transports. -/
def plan (m : Message) (addr : FrameAddr) (g : UInt32) (ts : List Transport) : List PlannedFrame :=
  ts.flatMap fun t => (framesOn { m with origin := t } t g).map (⟨t, addr, ·⟩)

/-- The blocks of a message, with group ids from `g` on. -/
def blocks (m : Message) : List Transport → UInt32 → List Block
  | [], _ => []
  | t :: ts, g => ⟨t, g, framesOn { m with origin := t } t g⟩ :: blocks m ts (g + 1)

variable {m : Message} {g : UInt32}

theorem frames_halves : (m.halves g).frames = [(m.halves g).frame 0, (m.halves g).frame 1] := rfl

theorem whole_halves (h : m.frag = none) : (m.halves g).whole = m := by
  obtain ⟨id, ttl, origin, fromAddr, toAddr, kind, payload, frag⟩ := m
  cases h
  simp only [Spec.Group.whole, halves, Message.mk.injEq, true_and, and_true]
  apply HVec.ext
  simp only [List.map_cons, List.map_nil, List.flatten_cons, List.flatten_nil, List.append_nil,
    List.take_append_drop]

/-- A frame has the header of its message. -/
theorem mem_framesOn {t : Transport} {x : Message} (h : x ∈ m.framesOn t g) :
    x = { m with payload := x.payload, frag := x.frag } := by
  rw [framesOn] at h
  split at h
  · obtain ⟨k, -, rfl⟩ := List.mem_map.mp h
    rfl
  · rw [List.mem_singleton.mp h]

theorem length_framesOn (m : Message) (t : Transport) (g : UInt32) : (m.framesOn t g).length ≤ 2 := by
  unfold framesOn
  split
  · exact Nat.le_refl 2
  · exact Nat.le_succ 1

/-- The group id matters on LoRa only. -/
theorem framesOn_congr (m : Message) {t : Transport} (ht : t ≠ .lora) (g g' : UInt32) :
    m.framesOn t g = m.framesOn t g' := by
  rw [framesOn, framesOn, if_neg fun h => ht h.2.1, if_neg fun h => ht h.2.1]

/-- One of several transports is LoRa at most, so that one group id will do. -/
theorem plan_of_blocks (m : Message) (addr : FrameAddr) {ts : List Transport} (hnd : ts.Nodup) (g : UInt32) :
    ∃ g', (m.blocks ts g).flatMap (Block.planned addr) = m.plan addr g' ts := by
  induction ts generalizing g with
  | nil => exact ⟨0, rfl⟩
  | cons t ts ih =>
    obtain ⟨hnt, hnd⟩ := List.nodup_cons.mp hnd
    obtain ⟨g', hg⟩ := ih hnd (g + 1)
    rw [blocks, List.flatMap_cons, hg]
    by_cases ht : t = .lora
    · subst ht
      refine ⟨g, congrArg _ (List.flatMap_congr fun t' ht' => ?_)⟩
      rw [framesOn_congr _ (fun e => hnt (e ▸ ht')) g']
    · exact ⟨g', by rw [Block.planned, framesOn_congr _ ht g g']; rfl⟩

end Message

namespace Fragmenter

/-- The chunks of a message too long for LoRa are its halves. -/
theorem chunkFrame_halves (m : Message) (g : UInt32) {k : Nat} (hk : k < 2) :
    chunkFrame m 180 2 g k = (m.halves g).frame k := by
  have hlen : m.payload.toList.length ≤ 200 := m.payload.len_le
  have hp : (chunkFrame m 180 2 g k).payload = (m.halves g).slices[k]?.getD .empty := by
    apply HVec.ext
    show (m.payload.toList.drop (k * 180)).take 180 = _
    obtain rfl | rfl : k = 0 ∨ k = 1 := by omega
    · rfl
    · rw [List.take_of_length_le]
      · rfl
      · rw [List.length_drop]; omega
  rw [Spec.Group.frame, ← hp]
  rfl

/-- Splitting always succeeds. -/
theorem split_eq (m : Message) (t : Transport) (g : UInt32) :
    ∃ out, split m t g = .ok out ∧ out.toList = m.framesOn t g := by
  rw [Message.framesOn]
  by_cases hs : m.IsSplit t
  · obtain ⟨hf, rfl, hl⟩ := id hs
    have hcut : sliceSize .lora < m.payload.len := hl
    obtain ⟨out, hout, hlist⟩ := split_cut g hf hcut
    have htwo : m.payload.len ⌈/⌉ sliceSize .lora = 2 :=
      Nat.le_antisymm (ceilDiv_sliceSize_le m .lora) ((lt_ceilDiv (sliceSize_pos .lora)).mpr (by omega))
    rw [htwo] at hlist
    refine ⟨out, hout, ?_⟩
    rw [hlist, if_pos hs]
    exact List.map_congr_left fun k hk => chunkFrame_halves m g (List.mem_range.mp hk)
  · rw [if_neg hs]
    refine split_single g ?_
    have hlen : m.payload.len ≤ 200 := m.payload.len_le
    by_cases hf : m.frag = none
    · refine .inl ?_
      cases t with
      | lora => exact Nat.le_of_not_lt fun h => hs ⟨hf, rfl, h⟩
      | mqtt => exact hlen
      | espNow => exact hlen
    · exact .inr hf

end Fragmenter

namespace Relay

variable {NR NA NF : Nat}

theorem pushFrames_eq {cap : Nat} {t : Transport} {addr : FrameAddr} {frames : List Message}
    {out w : HVec PlannedFrame cap} :
    pushFrames t addr frames out = .ok w ↔ w.toList = out.toList ++ frames.map (⟨t, addr, ·⟩) := by
  induction frames generalizing out with
  | nil =>
    rw [pushFrames, List.map_nil, List.append_nil, Except.ok.injEq]
    exact ⟨fun h => h ▸ rfl, fun h => HVec.ext h.symm⟩
  | cons m frames ih =>
    rw [pushFrames]
    cases hp : out.push ⟨t, addr, m⟩ with
    | none =>
      refine ⟨fun h => (by cases h), fun h => ?_⟩
      have hw : w.toList.length ≤ cap := w.length_le
      rw [h, List.map_cons, List.length_append, List.length_cons] at hw
      have hfit : (out.toList ++ [(⟨t, addr, m⟩ : PlannedFrame)]).length ≤ cap := by
        rw [List.length_append, List.length_singleton]; omega
      have hpush : out.push ⟨t, addr, m⟩ = some ⟨_, hfit⟩ := HVec.push_eq_some.mpr rfl
      rw [hp] at hpush
      cases hpush
    | some v =>
      rw [HVec.push_eq_some] at hp
      rw [ih, hp, List.map_cons, List.append_assoc]
      rfl

/-- The frames of a message on one transport fit a plan that is empty. -/
theorem pushFrames_framesOn {cap : Nat} (hcap : 2 ≤ cap) (m : Message) (t t' : Transport) (g : UInt32)
    (addr : FrameAddr) :
    ∃ out : HVec PlannedFrame cap, pushFrames t' addr (m.framesOn t g) .empty = .ok out ∧
      out.toList = (m.framesOn t g).map (⟨t', addr, ·⟩) := by
  have hlen := m.length_framesOn t g
  refine ⟨⟨(m.framesOn t g).map (⟨t', addr, ·⟩), ?_⟩, pushFrames_eq.mpr rfl, rfl⟩
  rw [List.length_map]
  exact Nat.le_trans hlen hcap

/-- Forwarding plans the frames of the message with one hop less to go. -/
theorem planForward_relayed (r : Relay NR NA NF) {m : Message} (h : m.ttl ≠ 0) (t : Transport) :
    ∃ out, r.planForward m t = (.ok out, r.nextId.2) ∧
      out.toList = (Message.framesOn { m with ttl := m.ttl - 1 } t r.nextId.1).map
        (⟨t, if m.isBroadcast then .broadcast else .unicast m.toAddr, ·⟩) := by
  obtain ⟨fs, hs, hfs⟩ := Fragmenter.split_eq { m with ttl := m.ttl - 1 } t r.nextId.1
  obtain ⟨out, hp, hout⟩ := pushFrames_framesOn (by decide : 2 ≤ MAX_FRAGMENTS) { m with ttl := m.ttl - 1 } t t
    r.nextId.1 (if m.isBroadcast then .broadcast else .unicast m.toAddr)
  refine ⟨out, ?_, hout⟩
  rw [planForward, Message.preparedForRelay, if_neg h]
  simp only [hs, hfs]
  exact congrArg (fun x => (x, r.nextId.2)) hp

theorem planForward_eq (r : Relay NR NA NF) {m : Message} (h : m.ttl ≠ 0) (t : Transport) :
    ∃ out addr, (r.planForward m t).1 = .ok out ∧
      out.toList = (Message.framesOn { m with ttl := m.ttl - 1 } t r.nextId.1).map (⟨t, addr, ·⟩) := by
  obtain ⟨out, hp, hout⟩ := r.planForward_relayed h t
  exact ⟨out, _, congrArg Prod.fst hp, hout⟩

/-- A message with no hop to go is not forwarded. -/
theorem planForward_exhausted (r : Relay NR NA NF) {m : Message} (h : m.ttl = 0) (t : Transport) :
    r.planForward m t = (.ok .empty, r) := by
  rw [planForward, Message.preparedForRelay, if_pos h]

/-- Forwarding always succeeds, with no frame exactly when there is no hop to go. -/
theorem planForward_total (r : Relay NR NA NF) (m : Message) (t : Transport) :
    ∃ out, (r.planForward m t).1 = .ok out ∧ (out.toList = [] ↔ m.ttl = 0) := by
  by_cases h : m.ttl = 0
  · exact ⟨.empty, congrArg Prod.fst (r.planForward_exhausted h t), fun _ => h, fun _ => rfl⟩
  · obtain ⟨out, hp, hout⟩ := r.planForward_relayed h t
    refine ⟨out, congrArg Prod.fst hp, fun hnil => ?_, fun h0 => absurd h0 h⟩
    rw [hout, List.map_eq_nil_iff, Message.framesOn] at hnil
    split at hnil
    · cases hnil
    · cases hnil

theorem prepare_ok {id : UInt32} {ttl : UInt8} {origin : Transport} {fromAddr toAddr : Addr} {kind : MsgKind}
    {payload : List UInt8} {m : Message}
    (h : Fragmenter.prepare id ttl origin fromAddr toAddr kind payload = .ok m) : m.payload.toList = payload := by
  unfold Fragmenter.prepare at h
  split at h
  · cases h
  · rename_i p hp
    rw [HVec.extendFromSlice_eq_some] at hp
    cases h
    exact hp

/-- A payload that fits one message is prepared. -/
theorem prepare_payload (id : UInt32) (ttl : UInt8) (origin : Transport) (fromAddr toAddr : Addr) (kind : MsgKind)
    (p : Payload) :
    Fragmenter.prepare id ttl origin fromAddr toAddr kind p.toList =
      .ok ⟨id, ttl, origin, fromAddr, toAddr, kind, p, none⟩ := by
  rw [Fragmenter.prepare, HVec.extendFromSlice_empty]

/-- The loop over the targets plans their blocks, if they fit the plan. -/
theorem planTargets_blocks (id : UInt32) (kind : MsgKind) (p : Payload) (dest : Destination) {ts : List Transport}
    {out : HVec PlannedFrame (MAX_FRAGMENTS * 3)} (h : out.toList.length + 2 * ts.length ≤ MAX_FRAGMENTS * 3)
    (r : Relay NR NA NF) :
    ∃ w, (planTargets id kind p.toList dest ts out r).1 = .ok w ∧
      w.toList = out.toList ++ ((⟨id, DEFAULT_TTL, .lora, r.selfAddr, dest.addr, kind, p, none⟩ : Message).blocks ts
        r.nextId.1).flatMap (Block.planned dest.frameAddr) := by
  induction ts generalizing out r with
  | nil => exact ⟨out, rfl, (List.append_nil _).symm⟩
  | cons t ts ih =>
    obtain ⟨fs, hs, hfs⟩ := Fragmenter.split_eq ⟨id, DEFAULT_TTL, t, r.selfAddr, dest.addr, kind, p, none⟩ t
      r.nextId.1
    have hlen : fs.toList.length ≤ 2 := hfs ▸ Message.length_framesOn ..
    rw [List.length_cons] at h
    have hroom : (out.toList ++ fs.toList.map (⟨t, dest.frameAddr, ·⟩ : Message → PlannedFrame)).length +
        2 * ts.length ≤ MAX_FRAGMENTS * 3 := by
      rw [List.length_append, List.length_map]
      omega
    have hpush : pushFrames t dest.frameAddr fs.toList out = .ok ⟨_, Nat.le_trans (Nat.le_add_right ..) hroom⟩ :=
      pushFrames_eq.mpr rfl
    obtain ⟨w, hw, hlist⟩ := @ih ⟨_, Nat.le_trans (Nat.le_add_right ..) hroom⟩ hroom r.nextId.2
    refine ⟨w, ?_, ?_⟩
    · simp only [planTargets, prepare_payload, hs, hpush]
      exact hw
    · refine hlist.trans ?_
      show (out.toList ++ fs.toList.map (⟨t, dest.frameAddr, ·⟩)) ++ _ = _
      rw [hfs, List.append_assoc, Message.blocks, List.flatMap_cons]
      have hnext : r.nextId.2.nextId.1 = r.nextId.1 + 1 := (UInt32.add_assoc ..).symm
      rw [hnext]
      rfl

/-! ## Targets -/

variable {r : Relay NR NA NF}

/-- Whether `dest` is sent to on `t`. -/
def usable (r : Relay NR NA NF) (dest : Destination) (t : Transport) : Bool :=
  r.isPortRegistered t && match dest with
    | .broadcast => true
    | .unicast addr => (r.receivers.lookup addr).any (·.reachableVia t)

theorem hasPorts_iff : r.hasPorts = true ↔ ∃ t, r.isPortRegistered t = true := by
  rw [hasPorts, List.any_eq_true]
  constructor
  · rintro ⟨b, hb, hid⟩
    obtain ⟨i, hi, rfl⟩ := Vector.mem_iff_getElem.mp (Vector.mem_toList_iff.mp hb)
    obtain rfl | rfl | rfl : i = 0 ∨ i = 1 ∨ i = 2 := by omega
    · exact ⟨.lora, hid⟩
    · exact ⟨.mqtt, hid⟩
    · exact ⟨.espNow, hid⟩
  · rintro ⟨t, ht⟩
    exact ⟨_, Vector.mem_toList_iff.mpr (Vector.getElem_mem (transportIdx t).isLt), ht⟩

/-- The targets are the usable transports, if there are any. -/
theorem resolveTargets_eq (r : Relay NR NA NF) (dest : Destination) :
    r.resolveTargets dest =
      if r.hasPorts = false then .error .noPortsRegistered
      else if (Transport.ALL.filter (r.usable dest)) = [] then .error .unknownReceiver
      else .ok (Transport.ALL.filter (r.usable dest)) := by
  unfold resolveTargets
  cases hp : r.hasPorts with
  | false => rfl
  | true =>
    rw [if_neg (by decide), if_neg (by decide)]
    cases dest with
    | broadcast =>
      have hall : r.usable .broadcast = r.isPortRegistered := funext fun t => Bool.and_true _
      obtain ⟨t, ht⟩ := hasPorts_iff.mp hp
      rw [hall, if_neg]
      intro hnil
      have : t ∈ Transport.ALL.filter r.isPortRegistered := List.mem_filter.mpr ⟨by cases t <;> decide, ht⟩
      rw [hnil] at this
      cases this
    | unicast addr =>
      cases hl : r.receivers.lookup addr with
      | none =>
        have hnil : Transport.ALL.filter (r.usable (.unicast addr)) = [] := by
          refine List.filter_eq_nil_iff.mpr fun t _ ht => ?_
          rw [usable, hl, Bool.and_eq_true] at ht
          cases ht.2
        simp only [hl, if_pos hnil]
      | some row =>
        have hfilter : row.transports.iter.filter r.isPortRegistered =
            Transport.ALL.filter (r.usable (.unicast addr)) := by
          rw [TransportBitmap.iter, List.filter_filter]
          refine List.filter_congr fun t _ => ?_
          rw [usable, hl]
          rfl
        simp only [hl, hfilter, List.isEmpty_iff]

theorem resolveTargets_nodup {dest : Destination} {ts : List Transport}
    (h : r.resolveTargets dest = .ok ts) : ts.Nodup := by
  have hall : Transport.ALL.Nodup := by decide
  rw [resolveTargets_eq] at h
  split at h
  · cases h
  · split at h
    · cases h
    · cases h
      exact hall.filter _

theorem resolveTargets_length {dest : Destination} {ts : List Transport}
    (h : r.resolveTargets dest = .ok ts) : ts.length ≤ 3 := by
  have hall : ts ⊆ Transport.ALL := fun t _ => by cases t <;> decide
  exact (List.subperm_of_subset (resolveTargets_nodup h) hall).length_le

/-! ## The plan of a message -/

/-- A plan has room for the frames of all its targets. -/
theorem planTargets_resolved {dest : Destination} {ts : List Transport}
    (hts : r.resolveTargets dest = .ok ts) (kind : MsgKind) (p : Payload) :
    ∃ w, (planTargets r.nextId.1 kind p.toList dest ts .empty r.nextId.2).1 = .ok w ∧
      w.toList = ((⟨r.nextId.1, DEFAULT_TTL, .lora, r.selfAddr, dest.addr, kind, p, none⟩ : Message).blocks ts
        (r.nextId.1 + 1)).flatMap (Block.planned dest.frameAddr) := by
  have hlen := resolveTargets_length hts
  have hroom : (HVec.empty : HVec PlannedFrame (MAX_FRAGMENTS * 3)).toList.length + 2 * ts.length ≤
      MAX_FRAGMENTS * 3 := by
    rw [HVec.toList_empty, List.length_nil, show MAX_FRAGMENTS * 3 = 96 from rfl]
    omega
  have hnext : r.nextId.2.nextId.1 = r.nextId.1 + 1 := (UInt32.add_assoc ..).symm
  obtain ⟨w, hw, hlist⟩ := planTargets_blocks r.nextId.1 kind p dest hroom r.nextId.2
  rw [HVec.toList_empty, List.nil_append, hnext] at hlist
  exact ⟨w, hw, hlist⟩

/-- The first target settles whether the payload fits a message. -/
theorem planTargets_payload {id : UInt32} {kind : MsgKind} {payload : List UInt8} {dest : Destination}
    {ts : List Transport} (hne : ts ≠ []) {out w : HVec PlannedFrame (MAX_FRAGMENTS * 3)}
    (h : (planTargets id kind payload dest ts out r).1 = .ok w) : ∃ p : Payload, p.toList = payload := by
  cases ts with
  | nil => exact absurd rfl hne
  | cons t ts =>
    rw [planTargets] at h
    split at h
    · cases h
    · rename_i m hm
      exact ⟨m.payload, prepare_ok hm⟩

theorem planSend_targets {dest : Destination} {ts : List Transport}
    (hts : r.resolveTargets dest = .ok ts) (hne : ts ≠ []) (kind : MsgKind) (payload : List UInt8) :
    r.planSend kind payload dest = planTargets r.nextId.1 kind payload dest ts .empty r.nextId.2 := by
  simp only [planSend, hts, List.isEmpty_iff, if_neg hne]

/-- A successful plan is the plan of one message, with the id allocated first,
on the transports that the destination resolves to. -/
theorem planSend_on {kind : MsgKind} {payload : List UInt8} {dest : Destination}
    {ts : List Transport} (hts : r.resolveTargets dest = .ok ts) {out : HVec PlannedFrame (MAX_FRAGMENTS * 3)}
    (h : (r.planSend kind payload dest).1 = .ok out) :
    ts ≠ [] ∧ ∃ (p : Payload) (g : UInt32), p.toList = payload ∧
      out.toList = Message.plan ⟨r.nextId.1, DEFAULT_TTL, .lora, r.selfAddr, dest.addr, kind, p, none⟩
        dest.frameAddr g ts := by
  have hne : ts ≠ [] := by
    rintro rfl
    simp only [planSend, hts] at h
    cases h
  rw [planSend_targets hts hne] at h
  obtain ⟨p, rfl⟩ := planTargets_payload hne h
  obtain ⟨w, hw, hlist⟩ := planTargets_resolved hts kind p
  obtain rfl : w = out := Except.ok.inj (hw.symm.trans h)
  obtain ⟨g, hg⟩ := Message.plan_of_blocks ⟨r.nextId.1, DEFAULT_TTL, .lora, r.selfAddr, dest.addr, kind, p, none⟩
    dest.frameAddr (resolveTargets_nodup hts) (r.nextId.1 + 1)
  exact ⟨hne, p, g, rfl, hlist.trans hg⟩

theorem planSend_ok {kind : MsgKind} {payload : List UInt8} {dest : Destination}
    {out : HVec PlannedFrame (MAX_FRAGMENTS * 3)} (h : (r.planSend kind payload dest).1 = .ok out) :
    ∃ (p : Payload) (g : UInt32) (ts : List Transport), p.toList = payload ∧ ts.Nodup ∧ ts ≠ [] ∧
      out.toList = Message.plan ⟨r.nextId.1, DEFAULT_TTL, .lora, r.selfAddr, dest.addr, kind, p, none⟩
        dest.frameAddr g ts := by
  cases hts : r.resolveTargets dest with
  | error e => simp only [planSend, hts] at h; cases h
  | ok ts =>
    obtain ⟨hne, p, g, hp, hout⟩ := planSend_on hts h
    exact ⟨p, g, ts, hp, resolveTargets_nodup hts, hne, hout⟩

/-- A payload is planned exactly if it fits one message, when there is a target. -/
theorem planSend_ok_iff {dest : Destination} {ts : List Transport}
    (hts : r.resolveTargets dest = .ok ts) (hne : ts ≠ []) (kind : MsgKind) (payload : List UInt8) :
    (∃ out, (r.planSend kind payload dest).1 = .ok out) ↔ payload.length ≤ MAX_PAYLOAD := by
  constructor
  · rintro ⟨out, h⟩
    obtain ⟨-, p, -, rfl, -⟩ := planSend_on hts h
    exact p.length_le
  · intro h
    obtain ⟨w, hw, -⟩ := planTargets_resolved hts kind ⟨payload, h⟩
    rw [planSend_targets hts hne]
    exact ⟨w, hw⟩

end Relay

end RelayStar

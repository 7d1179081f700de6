import RelayStar.Proof.Delivery
import RelayStar.Proof.History

/-!
# A node hears its own message

The frames of a send come back to the node that sent them, as they were or by
way of other relays (`Echo`). `planSend` does not record their keys, so the node
takes the first of them for news. What it makes of an echo is decided by what it
has received, and in which order: the echo is ignored if its key is known, or if
it is a slice and the other one was not news (`Message.IgnoredAfter`); for a node
that had heard nothing of the message, exactly if an earlier frame had its key,
or the first frame with the key of the other slice was not that slice
(`Message.IgnoredSince`, `echoes_ignored_iff`).
-/

namespace RelayStar

/-- The messages that the frames of a send can come back as. -/
inductive Echo (frames : List PlannedFrame) : Message → Prop
  /-- A frame itself. -/
  | planned {f : PlannedFrame} (h : f ∈ frames) : Echo frames f.message
  /-- An echo as another relay has it, when it arrives there from `t`. -/
  | received {m : Message} (h : Echo frames m) (t : Transport) : Echo frames (m.arrived t)
  /-- A message that another relay reassembles from echoes. -/
  | reassembled {G : Spec.Group} (hne : G.slices ≠ []) (h : ∀ m ∈ G.frames, Echo frames m) :
      Echo frames G.whole
  /-- A frame of an echo that another relay forwards. -/
  | forwarded {NR NA NF : Nat} {m : Message} (h : Echo frames m) (r : Relay NR NA NF) {t : Transport}
      {out : HVec PlannedFrame MAX_FRAGMENTS} (hout : (r.planForward m t).1 = .ok out) {f : PlannedFrame}
      (hf : f ∈ out.toList) : Echo frames f.message

namespace Message

/-- The message is whole, or one of the two slices of LoRa. -/
def IsHalf (m : Message) : Prop :=
  m.frag = none ∨ ∃ f, m.frag = some f ∧ f.total = 2 ∧ f.seq < 2 ∧ m.payload.len ≤ if f.seq = 0 then 180 else 20

theorem isHalf_framesOn {m x : Message} {t : Transport} {g : UInt32} (h : x ∈ m.framesOn t g) (hm : m.IsHalf) :
    x.IsHalf := by
  unfold framesOn at h
  split at h
  · have hlen : m.payload.toList.length ≤ 200 := m.payload.len_le
    rw [frames_halves, List.mem_pair] at h
    rcases h with rfl | rfl
    · refine .inr ⟨_, rfl, rfl, (by decide : UInt16.ofNat 0 < 2), ?_⟩
      show (m.payload.toList.take 180).length ≤ 180
      rw [List.length_take]
      exact Nat.min_le_left ..
    · refine .inr ⟨_, rfl, rfl, (by decide : UInt16.ofNat 1 < 2), ?_⟩
      show (m.payload.toList.drop 180).length ≤ 20
      rw [List.length_drop]
      omega
  · exact List.mem_singleton.mp h ▸ hm

/-- `y` is the other one of two slices of a group. -/
def Pairs (x y : Message) : Prop :=
  ∃ f f', x.frag = some f ∧ y.frag = some f' ∧ Spec.key f' = Spec.key f ∧ f'.seq ≠ f.seq

/-- What was received since the start rules out that the echo `x` is handed over:
its key is known, or it is a slice, and the other one of its group was not news
when it arrived, if it did. -/
def IgnoredAfter (x : Message) (received : List Message) : Prop :=
  x.dedupKey ∈ knownKeys received ∨ x.frag ≠ none ∧ ∀ y ∈ news received, ¬ x.Pairs y

/-- What was received since the send rules out that the echo `x` is handed over:
a frame of its key, or `x` is a slice, and the first frame with the key of the
other one of its group was not that slice. -/
def IgnoredSince (x : Message) (since : List Message) : Prop :=
  (∃ y ∈ since, y.dedupKey = x.dedupKey) ∨
    x.frag ≠ none ∧ ∀ y, x.Pairs y → since.find? (·.dedupKey = y.dedupKey) ≠ some y

end Message

theorem planForward_half {NR NA NF : Nat} {r : Relay NR NA NF} {m : Message} {t : Transport}
    {out : HVec PlannedFrame MAX_FRAGMENTS} (h : (r.planForward m t).1 = .ok out) {f : PlannedFrame}
    (hf : f ∈ out.toList) (hm : m.IsHalf) : f.message.id = m.id ∧ f.message.IsHalf := by
  by_cases httl : m.ttl = 0
  · rw [Relay.planForward, Message.preparedForRelay, if_pos httl] at h
    cases h
    cases hf
  · obtain ⟨out', addr, h', hout⟩ := r.planForward_eq httl t
    obtain rfl : out' = out := Except.ok.inj (h'.symm.trans h)
    rw [hout] at hf
    obtain ⟨x, hx, rfl⟩ := List.mem_map.mp hf
    exact ⟨by rw [Message.mem_framesOn hx], Message.isHalf_framesOn hx hm⟩

/-- An echo has the id of the send, and is whole or one of two slices. -/
theorem Echo.half {NR NA NF : Nat} {s : Relay NR NA NF} {kind : MsgKind} {payload : List UInt8}
    {dest : Destination} {out : HVec PlannedFrame (MAX_FRAGMENTS * 3)}
    (hplan : (s.planSend kind payload dest).1 = .ok out) {x : Message} (h : Echo out.toList x) :
    x.id = s.nextId.1 ∧ x.IsHalf := by
  induction h with
  | planned h =>
    obtain ⟨m, g, ts, hs, -, -, hout⟩ := Relay.planSend_copies hplan
    rw [hout] at h
    obtain ⟨t, -, hf⟩ := List.mem_flatMap.mp h
    obtain ⟨x, hx, rfl⟩ := List.mem_map.mp hf
    refine ⟨?_, Message.isHalf_framesOn hx (.inl hs.frag)⟩
    rw [Message.mem_framesOn hx]
    exact hs.id
  | received _ t ih => exact ih
  | @reassembled G hne _ ih =>
    have h0 : G.frame 0 ∈ G.frames := Spec.Group.mem_frames.mpr ⟨0, List.length_pos_of_ne_nil hne, rfl⟩
    exact ⟨(ih _ h0).1, .inl rfl⟩
  | forwarded _ r hout hf ih =>
    obtain ⟨hid, hhalf⟩ := planForward_half hout hf ih.2
    exact ⟨hid.trans ih.1, hhalf⟩

/-! ## Slices -/

theorem seq_cases {q : UInt16} (h : q < 2) : q = 0 ∨ q = 1 := by
  have h : q.toNat < 2 := UInt16.lt_iff_toNat_lt.mp h
  rcases (by omega : q.toNat = 0 ∨ q.toNat = 1) with h | h
  · exact .inl (UInt16.toNat_inj.mp h)
  · exact .inr (UInt16.toNat_inj.mp h)

theorem Spec.Partial.length_payload_two {p : Partial} {a b : Payload} (h0 : p.slices 0 = some a)
    (h1 : p.slices 1 = some b) : (p.payload 2).length = a.len + b.len := by
  have hall : ∀ k (hk : k < [a, b].length), p.slices k = some [a, b][k] := fun k hk => by
    rcases Nat.lt_succ_iff_lt_or_eq.mp hk with hk | rfl
    · obtain rfl : k = 0 := Nat.lt_one_iff.mp hk
      exact h0
    · exact h1
  rw [payload, show p.slices.gather 2 = [a, b] from Parts.gather_eq hall, List.map_cons, List.map_cons, List.map_nil,
    List.flatten_cons, List.flatten_cons, List.flatten_nil, List.append_nil, List.length_append]
  rfl

/-- The table holds the other one of the two slices of the group of `f`, and
`n` bytes fit with it. -/
def Spec.Table.Awaits (T : Table) (f : Fragment) (n : Nat) : Prop :=
  ∃ p a, T (key f) = some p ∧ p.slices f.seq.toNat = none ∧ p.slices (1 - f.seq.toNat) = some a ∧
    a.len + n ≤ MAX_PAYLOAD

theorem Spec.Table.Awaits.completes {T : Table} {f : Fragment} {b : Payload} (h : T.Awaits f b.len) (h2 : f.total = 2)
    (hlt : f.seq < 2) : T.Completes f b := by
  obtain ⟨p, a, hp, hnone, ha, hlen⟩ := h
  have htotal : f.total.toNat = 2 := by rw [h2]; rfl
  have hq : f.seq.toNat < 2 := UInt16.lt_iff_toNat_lt.mp hlt
  have hself : (p.add f.seq.toNat b).slices f.seq.toNat = some b := Parts.insert_self ..
  have hother : (p.add f.seq.toNat b).slices (1 - f.seq.toNat) = some a :=
    (Parts.insert_of_ne _ _ (by omega)).trans ha
  refine ⟨p, hp, hnone, fun k hk hne => ?_, ?_⟩
  · obtain rfl : k = 1 - f.seq.toNat := by omega
    rw [ha]
    exact Option.some_ne_none a
  · rw [htotal]
    rcases (by omega : f.seq.toNat = 0 ∨ f.seq.toNat = 1) with h | h
    · rw [h] at hself hother ⊢
      rw [Partial.length_payload_two hself hother]
      omega
    · rw [h] at hself hother ⊢
      rw [Partial.length_payload_two hother hself]
      exact hlen

theorem headerOk_two {PER_SLOT : Nat} {f : Fragment} (h2 : f.total = 2) (hlt : f.seq < 2) (hP : 2 ≤ PER_SLOT) :
    Spec.HeaderOk PER_SLOT f := by
  rw [Spec.HeaderOk, h2]
  exact ⟨by decide, hlt, hP, by decide⟩

namespace Reassembler

variable {SLOTS PER_SLOT : Nat} {r : Reassembler SLOTS PER_SLOT}

/-- A slice of several is handed over exactly when it completes its group. -/
theorem delivered_eq_none_iff (hI : r.Inv)
    {m : Message} {f : Fragment} (h : m.frag = some f) (hf : Spec.HeaderOk PER_SLOT f) (h2 : 2 ≤ f.total.toNat) :
    (r.ingest m).1.delivered = none ↔ ¬ r.table.Completes f m.payload := by
  rw [(r.ingest_refines hI h hf).1, ← r.table.offer_complete_iff r.room h2]
  cases ho : (r.table.offer r.room f m).1 with
  | passthrough x => exact absurd ho (Spec.Table.offer_ne_passthrough _ _ _ _ _)
  | complete x => exact ⟨fun h => (by cases h), fun h => absurd ⟨x, rfl⟩ h⟩
  | buffered => exact ⟨fun _ ⟨_, h⟩ => (by cases h), fun _ => rfl⟩
  | dropped reason => exact ⟨fun _ ⟨_, h⟩ => (by cases h), fun _ => rfl⟩

/-- A message leaves the groups alone that it is not a slice of. -/
theorem table_ingest_of_ne (hI : r.Inv) {m : Message} {g : Spec.GroupKey}
    (hg : ∀ f, m.frag = some f → Spec.key f ≠ g) : (r.ingest m).2.table g = r.table g := by
  cases hf : m.frag with
  | none => rw [r.ingest_unfragmented hf]
  | some f =>
    by_cases hok : Spec.HeaderOk PER_SLOT f
    · obtain ⟨-, ht, -⟩ := r.ingest_refines hI hf hok
      rw [ht]
      rcases r.table.offer_cases r.room f m with ⟨_, h⟩ | ⟨p, -, -, h⟩
      · rw [h]
      · rw [h, Spec.Table.join]
        split <;> exact Function.update_of_ne (hg f hf).symm ..
    · rw [r.ingest_badHeader hf hok]

/-- A slice of two is not handed over if the other one is not in the history. -/
theorem delivered_eq_none_of_unpaired {history : List Message} (hI : r.Inv) (hS : Sourced history r.table)
    {m : Message} {f : Fragment} (hf : m.frag = some f) (h2 : f.total = 2) (hlt : f.seq < 2)
    (hno : ∀ y ∈ history, ¬ m.Pairs y) : (r.ingest m).1.delivered = none := by
  by_cases hok : Spec.HeaderOk PER_SLOT f
  · rw [delivered_eq_none_iff hI hf hok (by rw [h2]; decide)]
    rintro ⟨p, hp, -, hall, -⟩
    obtain ⟨src, hsrc⟩ := hS _ p hp
    have hlt : f.seq.toNat < 2 := UInt16.lt_iff_toNat_lt.mp hlt
    have hother := hall (1 - f.seq.toNat) (by rw [h2]; exact (by omega : 1 - f.seq.toNat < 2)) (by omega)
    obtain ⟨y, hy⟩ : ∃ y, src (1 - f.seq.toNat) = some y :=
      Option.ne_none_iff_exists'.mp fun h => hother (by rw [hsrc.slices, h]; rfl)
    obtain ⟨hmem, f', hf', hkey, hq, -⟩ := hsrc.mem _ y hy
    refine hno y hmem ⟨f, f', hf, hf', hkey, fun h => ?_⟩
    rw [h] at hq
    omega
  · rw [r.ingest_badHeader hf hok]
    rfl

end Reassembler

/-! ## What the node has received -/

/-- The group of a slice. -/
def Message.groupKey (m : Message) : Option Spec.GroupKey := m.frag.map Spec.key

/-- The echo is a slice of a group that the node can take: nothing of it came
before the send and only echoes since, and the slices of fewer than `NA` other
groups were received. -/
structure HasRoom (NA NF : Nat) (frames : List PlannedFrame) (before since : List Message) (x : Message) : Prop where
  perSlot : 2 ≤ NF
  unheard : ∀ y ∈ before, y.groupKey ≠ x.groupKey
  echoes : ∀ y ∈ since, y.groupKey = x.groupKey → Echo frames y
  others : ∃ groups : List Spec.GroupKey, groups.length < NA ∧
    ∀ y ∈ before ++ since, ∀ g, y.groupKey = some g → x.groupKey ≠ some g → g ∈ groups

/-- The node knew no key of an echo at the send, at most 64 keys were recorded
since, and if the echo is a slice it has room for it. -/
structure Unaware (NA NF : Nat) (frames : List PlannedFrame) (before since : List Message) (x : Message) : Prop where
  unseen : ∀ y, Echo frames y → y.dedupKey ∉ knownKeys before
  few : (fresh 64 Message.dedupKey ((news before).map Message.dedupKey) since).length ≤ 64
  room : x.frag ≠ none → HasRoom NA NF frames before since x

section History

variable {frames : List PlannedFrame} {before since : List Message} {x : Message} {k : UInt32}

theorem HasRoom.of_append {NA NF : Nat} {since' : List Message}
    (h : HasRoom NA NF frames before (since ++ since') x) : HasRoom NA NF frames before since x where
  perSlot := h.perSlot
  unheard := h.unheard
  echoes y hy := h.echoes y (List.mem_append_left _ hy)
  others := by
    obtain ⟨groups, hlen, hall⟩ := h.others
    refine ⟨groups, hlen, fun y hy => hall y ?_⟩
    rw [← List.append_assoc]
    exact List.mem_append_left _ hy

/-- A key that is not known at the send, after a frame of it has arrived. -/
theorem known_of_mem (hfew : (fresh 64 Message.dedupKey ((news before).map Message.dedupKey) since).length ≤ 64)
    (hk : k ∉ knownKeys before) (h : ∃ y ∈ since, y.dedupKey = k) : k ∈ knownKeys (before ++ since) := by
  rw [knownKeys, news_append, List.map_append]
  exact mem_rtake_of_length_le (by rw [List.length_map]; exact hfew) (key_mem_fresh hk h)

/-- A key that is not known at the send, before a frame of it has arrived. -/
theorem not_known (hk : k ∉ knownKeys before) (h : ∀ y ∈ since, y.dedupKey ≠ k) :
    k ∉ knownKeys (before ++ since) := by
  rw [knownKeys, news_append, List.map_append]
  intro hmem
  rcases mem_rtake_append hmem with hmem | hmem
  · exact hk hmem
  · obtain ⟨y, hy, hyk⟩ := List.mem_map.mp hmem
    exact h y (mem_of_mem_fresh hy) hyk

end History

namespace Relay

variable {NR NA NF : Nat} {r : Relay NR NA NF} {history : List Message} {x : Message} {frame : List UInt8}

theorem Remembers.ignored (h : Remembers history r) (source : Transport) (hx : Message.decode frame = .ok x)
    (hhalf : x.IsHalf) (hig : x.IgnoredAfter history) : delivered (r.ingest source frame).1 = none := by
  by_cases hk : some x.dedupKey ∈ r.seen.window
  · rw [r.ingest_known source hx hk]
    rfl
  · rcases hig with hknown | ⟨hfrag, hno⟩
    · exact absurd (h.known_iff.mpr hknown) hk
    · rw [r.ingest_new source hx hk, delivered_outcome]
      rcases hhalf with hf | ⟨f, hf, h2, hlt, -⟩
      · exact absurd hf hfrag
      · exact Reassembler.delivered_eq_none_of_unpaired h.inv h.sourced (m := x.arrived source) hf h2 hlt hno

/-- A whole message is handed over unless its key is known. -/
theorem Remembers.known_of_whole (h : Remembers history r) (source : Transport) (hx : Message.decode frame = .ok x)
    (hf : x.frag = none) (hd : delivered (r.ingest source frame).1 = none) : x.dedupKey ∈ knownKeys history := by
  by_contra hk
  rw [r.ingest_new source hx (h.known_iff.not.mpr hk), delivered_outcome,
    r.reassembler.ingest_unfragmented (m := x.arrived source) hf] at hd
  cases hd

/-- A slice that the table awaits is handed over unless its key is known. -/
theorem Remembers.known_of_awaits (h : Remembers history r) (source : Transport) (hx : Message.decode frame = .ok x)
    {f : Fragment} (hf : x.frag = some f) (h2 : f.total = 2) (hlt : f.seq < 2) (hNF : 2 ≤ NF)
    (hT : r.reassembler.table.Awaits f x.payload.len) (hd : delivered (r.ingest source frame).1 = none) :
    x.dedupKey ∈ knownKeys history := by
  by_contra hk
  rw [r.ingest_new source hx (h.known_iff.not.mpr hk), delivered_outcome,
    Reassembler.delivered_eq_none_iff h.inv (m := x.arrived source) hf (headerOk_two h2 hlt hNF)
      (by rw [h2]; decide)] at hd
  exact hd (hT.completes h2 hlt)

/-- A slice of every group that a relay holds was received. -/
theorem Remembers.exists_slice (h : Remembers history r) {g : Spec.GroupKey} {p : Spec.Partial}
    (hg : r.reassembler.table g = some p) : ∃ y ∈ history, y.groupKey = some g := by
  obtain ⟨src, hsrc⟩ := h.sourced g p hg
  obtain ⟨k, y, hy, -⟩ := hsrc.template
  obtain ⟨hmem, f, hf, hkey, -⟩ := hsrc.mem k y hy
  exact ⟨y, mem_of_mem_fresh hmem, by rw [Message.groupKey, hf, ← hkey]; rfl⟩

/-- The groups that a relay holds take no more slots than groups were received. -/
theorem Remembers.room (h : Remembers history r) {g : Spec.GroupKey} (hg : r.reassembler.table g = none)
    {groups : List Spec.GroupKey} (hlen : groups.length < NA)
    (hall : ∀ y ∈ history, ∀ g', y.groupKey = some g' → some g ≠ some g' → g' ∈ groups) :
    r.reassembler.room = true := by
  have hheld : ∀ g', r.reassembler.table g' ≠ none → g' ∈ groups := fun g' hg' => by
    obtain ⟨p, hp⟩ := Option.ne_none_iff_exists'.mp hg'
    obtain ⟨y, hy, hyg⟩ := h.exists_slice hp
    exact hall y hy g' hyg fun he => hg' (Option.some.inj he ▸ hg)
  have hle := Reassembler.inFlight_le h.inv hheld
  rw [Reassembler.room, decide_eq_true_eq]
  omega

end Relay

/-! ## The slot of an echo -/

theorem Message.Pairs.groupKey {x y : Message} (h : x.Pairs y) : y.groupKey = x.groupKey := by
  obtain ⟨f, f', hf, hf', hkey, -⟩ := h
  rw [Message.groupKey, Message.groupKey, hf, hf']
  exact congrArg some hkey

theorem Message.dedupKey_of_frag {m : Message} {f : Fragment} (h : m.frag = some f) :
    m.dedupKey = m.id ^^^ (f.seq.toUInt32 <<< 16) := by
  rw [dedupKey, h]

/-- The echo `x` is the slice `f` of two, and `k` is the key of the other one. -/
structure EchoSlice (frames : List PlannedFrame) (x : Message) (f : Fragment) (k : UInt32) : Prop where
  frag : x.frag = some f
  total : f.total = 2
  seq : f.seq < 2
  same : ∀ y, Echo frames y → y.groupKey = x.groupKey → ¬ x.Pairs y → y.dedupKey = x.dedupKey
  other : ∀ y, Echo frames y → x.Pairs y → y.dedupKey = k ∧ y.payload.len + x.payload.len ≤ MAX_PAYLOAD ∧
    ∃ f', y.frag = some f' ∧ Spec.key f' = Spec.key f ∧ f'.seq < 2 ∧ f'.seq.toNat = 1 - f.seq.toNat

theorem Echo.slice {NR NA NF : Nat} {s : Relay NR NA NF} {kind : MsgKind} {payload : List UInt8}
    {dest : Destination} {out : HVec PlannedFrame (MAX_FRAGMENTS * 3)}
    (hplan : (s.planSend kind payload dest).1 = .ok out) {x : Message} (h : Echo out.toList x) {f : Fragment}
    (hf : x.frag = some f) :
    EchoSlice out.toList x f (s.nextId.1 ^^^ ((1 - f.seq).toUInt32 <<< 16)) := by
  obtain ⟨hid, hhalf⟩ := h.half hplan
  obtain ⟨f₀, hx, h2, hlt, hlen⟩ := hhalf.resolve_left (by rw [hf]; exact Option.some_ne_none f)
  obtain rfl := Option.some.inj (hf.symm.trans hx)
  refine ⟨hf, h2, hlt, fun y hy hg hno => ?_, fun y hy ⟨g, f', hg, hf', hkey, hne⟩ => ?_⟩
  · obtain ⟨f', hf', hkey⟩ : ∃ f', y.frag = some f' ∧ Spec.key f' = Spec.key f := by
      rw [Message.groupKey, Message.groupKey, hf] at hg
      exact Option.map_eq_some_iff.mp hg
    have hseq : f'.seq = f.seq := by
      by_contra hne
      exact hno ⟨f, f', hf, hf', hkey, hne⟩
    rw [Message.dedupKey_of_frag hf', Message.dedupKey_of_frag hf, hseq, (hy.half hplan).1, hid]
  · obtain rfl := Option.some.inj (hf.symm.trans hg)
    obtain ⟨hyid, hyhalf⟩ := hy.half hplan
    obtain ⟨f₁, hy', -, hylt, hylen⟩ := hyhalf.resolve_left (by rw [hf']; exact Option.some_ne_none f')
    obtain rfl := Option.some.inj (hf'.symm.trans hy')
    have hboth : f'.seq = 1 - f.seq ∧ y.payload.len + x.payload.len ≤ 200 := by
      rcases seq_cases hlt with hq | hq <;> rcases seq_cases hylt with hq' | hq'
      · exact absurd (hq'.trans hq.symm) hne
      · rw [hq, if_pos rfl] at hlen
        rw [hq', if_neg (by decide)] at hylen
        exact ⟨by rw [hq, hq']; rfl, by omega⟩
      · rw [hq, if_neg (by decide)] at hlen
        rw [hq', if_pos rfl] at hylen
        exact ⟨by rw [hq, hq']; rfl, by omega⟩
      · exact absurd (hq'.trans hq.symm) hne
    refine ⟨by rw [Message.dedupKey_of_frag hf', hyid, hboth.1], hboth.2, f', hf', hkey, hylt, ?_⟩
    rw [hboth.1]
    rcases seq_cases hlt with hq | hq <;> rw [hq] <;> rfl

/-- What the table holds of the group of `x` after the messages `since`: nothing
before a frame of the key `k`, and the other slice if that came first. -/
structure Tracks (x : Message) (f : Fragment) (k : UInt32) (since : List Message) (T : Spec.Table) : Prop where
  empty : (∀ y ∈ since, y.dedupKey ≠ k) → T (Spec.key f) = none
  awaits : ∀ y, x.Pairs y → since.find? (·.dedupKey = k) = some y → T.Awaits f x.payload.len

namespace Tracks

variable {frames : List PlannedFrame} {before since : List Message} {x z : Message} {f : Fragment} {k : UInt32}
  {T T' : Spec.Table} {NR NA NF : Nat}

/-- A message that does not change the group, and is not the first of its key to be the other slice. -/
theorem keep (h : Tracks x f k since T) (ht : T' (Spec.key f) = T (Spec.key f))
    (hz : x.Pairs z → z.dedupKey = k → ∃ y ∈ since, y.dedupKey = k) : Tracks x f k (since ++ [z]) T' where
  empty hno := ht.trans (h.empty fun y hy => hno y (List.mem_append_left _ hy))
  awaits y hp hfind := by
    have hawaits : since.find? (·.dedupKey = k) = some y := by
      cases hf : since.find? (·.dedupKey = k) with
      | some y' => rwa [List.find?_append, hf, Option.some_or] at hfind
      | none =>
        rw [List.find?_append, hf, Option.none_or] at hfind
        obtain rfl := List.mem_singleton.mp (List.mem_of_find?_eq_some hfind)
        obtain ⟨y', hy', hk⟩ := hz hp (by simpa using List.find?_some hfind)
        exact absurd (List.find?_eq_none.mp hf y' hy') (by simpa using hk)
    rw [Spec.Table.Awaits, ht]
    exact h.awaits y hp hawaits

/-- The other slice comes first. -/
theorem first {r : Relay NR NA NF} (hE : EchoSlice frames x f k) (hI : r.reassembler.Inv)
    (hT : r.reassembler.table (Spec.key f) = none) (hroom : r.reassembler.room = true) (hNF : 2 ≤ NF)
    (hp : x.Pairs z) (hz : Echo frames z) : (r.reassembler.ingest z).2.table.Awaits f x.payload.len := by
  obtain ⟨-, hlen, f', hf', hkey, hlt, hseq⟩ := hE.other z hz hp
  have hlt' : f.seq.toNat < 2 := UInt16.lt_iff_toNat_lt.mp hE.seq
  have h2 : f'.total = 2 := (Prod.mk.inj hkey).2.trans hE.total
  have hnone : ((Spec.Partial.start z).add f'.seq.toNat z.payload).slices f.seq.toNat = none :=
    Parts.insert_of_ne _ _ (by omega)
  have hpart : ¬ ∀ k < f'.total.toNat, ((Spec.Partial.start z).add f'.seq.toNat z.payload).slices k ≠ none :=
    fun h => h f.seq.toNat (by rw [h2]; exact hlt') hnone
  obtain ⟨-, ht, -⟩ := r.reassembler.ingest_refines hI hf' (headerOk_two h2 hlt hNF)
  rw [ht, Spec.Table.offer_of_none (hkey ▸ hT) hroom, Spec.Table.join, if_neg hpart, hkey]
  refine ⟨_, z.payload, Function.update_self .., hnone, ?_, hlen⟩
  rw [← hseq]
  exact Parts.insert_self ..

section Step

variable {r : Relay NR NA NF} (hE : EchoSlice frames x f k) (hk : k ∉ knownKeys before)

include hE hk

/-- One more frame is received. -/
theorem ingest (h : Tracks x f k since r.reassembler.table) (hR : Relay.Remembers (before ++ since) r)
    (source : Transport) {frame : List UInt8} {m : Message} (hd : Message.decode frame = .ok m)
    (hroom : HasRoom NA NF frames before (since ++ [m.arrived source]) x)
    (hfew : (fresh 64 Message.dedupKey ((news before).map Message.dedupKey) since).length ≤ 64)
    (hx : m.dedupKey ≠ x.dedupKey) :
    Tracks x f k (since ++ [m.arrived source]) (r.ingest source frame).2.reassembler.table := by
  by_cases hknown : some m.dedupKey ∈ r.seen.window
  · rw [r.ingest_known source hd hknown]
    refine h.keep rfl fun _ hz => ?_
    by_contra hno
    refine not_known hk (fun y hy he => hno ⟨y, hy, he⟩) ?_
    rw [← hz]
    exact hR.known_iff.mp hknown
  · have hnew : m.dedupKey ∉ knownKeys (before ++ since) := hR.known_iff.not.mp hknown
    rw [r.ingest_new source hd hknown]
    by_cases hg : (m.arrived source).groupKey = x.groupKey
    · have hecho := hroom.echoes _ (List.mem_append_right _ (List.mem_singleton_self _)) hg
      have hp : x.Pairs (m.arrived source) := by
        by_contra hno
        exact hx (hE.same (m.arrived source) hecho hg hno)
      have hz : (m.arrived source).dedupKey = k := (hE.other _ hecho hp).1
      have hT := h.empty fun y hy he => hnew (hz ▸ known_of_mem hfew hk ⟨y, hy, he⟩)
      obtain ⟨groups, hlen, hall⟩ := hroom.of_append.others
      have hfree := hR.room hT hlen fun y hy g hyg hne => hall y hy g hyg (by
        rw [Message.groupKey, hE.frag]
        exact hne)
      refine ⟨fun hno => absurd hz (hno _ (List.mem_append_right _ (List.mem_singleton_self _))), fun _ _ _ => ?_⟩
      exact first hE hR.inv hT hfree hroom.perSlot hp hecho
    · refine h.keep (Reassembler.table_ingest_of_ne hR.inv fun f' hf' he => hg ?_) fun hp _ => absurd hp.groupKey hg
      rw [Message.groupKey, Message.groupKey, hf', hE.frag]
      exact congrArg some he

end Step

end Tracks

/-- What the slots hold of the group of an echo after a run. -/
theorem Relay.run_tracks {NR NA NF : Nat} {frames : List PlannedFrame} {before : List Message} {x : Message}
    {f : Fragment} {k : UInt32} (hE : EchoSlice frames x f k) (hk : k ∉ knownKeys before) {s r : Relay NR NA NF}
    (hs : Remembers before s) {since : List (Relay NR NA NF × Transport × List UInt8)} (hrun : Run s since r)
    (hroom : HasRoom NA NF frames before (received since) x)
    (hfew : (fresh 64 Message.dedupKey ((news before).map Message.dedupKey) (received since)).length ≤ 64)
    (hx : ∀ y ∈ received since, y.dedupKey ≠ x.dedupKey) :
    Remembers (before ++ received since) r ∧ Tracks x f k (received since) r.reassembler.table := by
  induction hrun with
  | start =>
    refine ⟨(List.append_nil before).symm ▸ hs, fun _ => ?_, fun y _ hy => by cases hy⟩
    cases hT : s.reassembler.table (Spec.key f) with
    | none => rfl
    | some p =>
      obtain ⟨y, hy, hg⟩ := hs.exists_slice hT
      refine absurd ?_ (hroom.unheard y hy)
      rw [hg, Message.groupKey, hE.frag]
      rfl
  | other _ hop ih =>
    obtain ⟨hR, hT⟩ := ih hroom hfew hx
    have hsame := op_sameInbox hop
    exact ⟨hR.sameInbox hsame, hsame.reassembler ▸ hT⟩
  | @ingest calls r _ source frame ih =>
    rw [received_append, received_singleton] at hroom hfew hx ⊢
    have hfew' := hfew
    rw [fresh_append, List.length_append] at hfew'
    obtain ⟨hR, hT⟩ := ih hroom.of_append (by omega) fun y hy => hx y (List.mem_append_left _ hy)
    refine ⟨by rw [← List.append_assoc]; exact hR.ingest source frame, ?_⟩
    cases hd : Message.decode frame with
    | error e =>
      rw [heard_error hd, List.append_nil, r.ingest_error source hd]
      exact hT
    | ok m =>
      rw [heard_ok hd] at hroom hx ⊢
      exact hT.ingest hE hk hR source hd hroom (by omega)
        (hx (m.arrived source) (List.mem_append_right _ (List.mem_singleton_self _)))

/-- For a node that was unaware of the message, what came since the send decides. -/
theorem Unaware.ignoredAfter {NA NF : Nat} {frames : List PlannedFrame} {before since : List Message} {x : Message}
    (h : Unaware NA NF frames before since x) (hecho : Echo frames x) (hig : x.IgnoredSince since) :
    x.IgnoredAfter (before ++ since) := by
  rcases hig with hmem | ⟨hfrag, hfirst⟩
  · exact .inl (known_of_mem h.few (h.unseen x hecho) hmem)
  · refine .inr ⟨hfrag, fun y hy hp => ?_⟩
    have hroom := h.room hfrag
    rw [news_append] at hy
    rcases List.mem_append.mp hy with hy | hy
    · exact hroom.unheard y (mem_of_mem_fresh hy) hp.groupKey
    · have hyecho := hroom.echoes y (mem_of_mem_fresh hy) hp.groupKey
      exact hfirst y hp (find?_of_mem_fresh h.few hy (h.unseen y hyecho))

/-- In every run of a node after a send, the echo that arrives next is not
handed over if what the node has received since it was started rules it out,
and a whole one only then. For a node that had heard nothing of the message,
and has room for its slices, it is decided by what came since the send. -/
theorem echoes_ignored_iff {NR NA NF : Nat} (selfAddr : Addr) (idBase : UInt32)
    (before : List (Relay NR NA NF × Transport × List UInt8)) (s : Relay NR NA NF)
    (hstart : Relay.Run (.new selfAddr idBase) before s) (kind : MsgKind) (payload : List UInt8) (dest : Destination)
    (out : HVec PlannedFrame (MAX_FRAGMENTS * 3)) (hplan : (s.planSend kind payload dest).1 = .ok out)
    (since : List (Relay NR NA NF × Transport × List UInt8)) (r : Relay NR NA NF)
    (hrun : Relay.Run (s.planSend kind payload dest).2 since r) (source : Transport) (frame : List UInt8) (x : Message)
    (hx : Message.decode frame = .ok x) (hecho : Echo out.toList x) :
    (x.IgnoredAfter (Relay.received (before ++ since)) → delivered (r.ingest source frame).1 = none) ∧
      (x.frag = none → delivered (r.ingest source frame).1 = none →
        x.IgnoredAfter (Relay.received (before ++ since))) ∧
      (Unaware NA NF out.toList (Relay.received before) (Relay.received since) x →
        (delivered (r.ingest source frame).1 = none ↔ x.IgnoredSince (Relay.received since))) := by
  have hsend : Relay.Remembers (Relay.received before) (s.planSend kind payload dest).2 :=
    (Relay.run_remembers hstart).sameInbox (.planSend ..)
  have hR := Relay.run_remembers ((hstart.other (.planSend s kind payload dest)).trans hrun)
  obtain ⟨-, hhalf⟩ := hecho.half hplan
  refine ⟨hR.ignored source hx hhalf, fun hf hd => .inl (hR.known_of_whole source hx hf hd), fun hU => ?_⟩
  rw [Relay.received_append] at hR
  constructor
  · intro hd
    by_contra hno
    obtain ⟨hkey, hslice⟩ := not_or.mp hno
    have hunknown : x.dedupKey ∉ knownKeys (Relay.received before ++ Relay.received since) :=
      not_known (hU.unseen x hecho) fun y hy he => hkey ⟨y, hy, he⟩
    rcases hhalf with hf | ⟨f, hf, h2, hlt, -⟩
    · exact hunknown (hR.known_of_whole source hx hf hd)
    · have hfrag : x.frag ≠ none := by rw [hf]; exact Option.some_ne_none f
      have hroom := hU.room hfrag
      obtain ⟨y, hp, hfind⟩ : ∃ y, x.Pairs y ∧ (Relay.received since).find? (·.dedupKey = y.dedupKey) = some y := by
        by_contra hnone
        exact hslice ⟨hfrag, fun y hp hfind => hnone ⟨y, hp, hfind⟩⟩
      have hy := hroom.echoes y (List.mem_of_find?_eq_some hfind) hp.groupKey
      have hE := hecho.slice hplan hf
      obtain ⟨hk, -⟩ := hE.other y hy hp
      rw [← hk] at hE
      obtain ⟨-, hT⟩ := Relay.run_tracks hE (hU.unseen y hy) hsend hrun hroom hU.few
        fun y hy he => hkey ⟨y, hy, he⟩
      exact hunknown (hR.known_of_awaits source hx hf h2 hlt hroom.perSlot (hT.awaits y hp hfind) hd)
  · intro hig
    exact hR.ignored source hx hhalf (hU.ignoredAfter hecho hig)

/-- `exampleSender` after its send. -/
def exampleOrigin : Relay 1 1 2 := (exampleSender.planSend .text (List.replicate 181 7) .broadcast).2

/-- The whole copy it sends on MQTT. -/
def exampleCopy : Message :=
  ⟨256, 4, .mqtt, nodeAddr 1, BROADCAST_ADDR, .text, examplePayload, none⟩

theorem exampleCopy_planned : ⟨.mqtt, .broadcast, exampleCopy⟩ ∈ exampleFrames.toList := by decide +kernel

/-- Slice 0 of it on LoRa. -/
def exampleHalf : Message :=
  ⟨256, 4, .lora, nodeAddr 1, BROADCAST_ADDR, .text, ⟨List.replicate 180 7, by decide +kernel⟩, some ⟨257, 0, 2⟩⟩

/-- Slice 1. -/
def exampleRest : Message :=
  ⟨256, 4, .lora, nodeAddr 1, BROADCAST_ADDR, .text, ⟨List.replicate 1 7, by decide +kernel⟩, some ⟨257, 1, 2⟩⟩

theorem exampleRest_planned : ⟨.lora, .broadcast, exampleRest⟩ ∈ exampleFrames.toList := by decide +kernel

theorem exampleSender_run : Relay.Run (.new (nodeAddr 1) 256) [] exampleSender :=
  .other (.other .start (.registerPort _ .lora)) (.registerPort _ .mqtt)

/-- Only the frame of `m` was received. -/
theorem received_single (t : Transport) (m : Message) :
    Relay.received [(exampleOrigin, t, m.wire)] = [m.arrived t] := by
  rw [Relay.received_singleton, Relay.heard_ok m.decode_wire_self]

/-- Slice 0 comes back before the whole copy, or the whole copy before slice 1. -/
theorem echoes_ignored_iff_once :
    delivered ((exampleOrigin.ingest .lora exampleHalf.wire).2.ingest .mqtt exampleCopy.wire).1 = none ∧
      delivered ((exampleOrigin.ingest .mqtt exampleCopy.wire).2.ingest .lora exampleRest.wire).1 = none := by
  constructor
  · have hunaware : Unaware 1 2 exampleFrames.toList []
        (Relay.received [(exampleOrigin, .lora, exampleHalf.wire)]) exampleCopy := by
      rw [received_single]
      exact ⟨fun _ _ => List.not_mem_nil, by decide, fun h => absurd rfl h⟩
    have hsince : exampleCopy.IgnoredSince (Relay.received [(exampleOrigin, .lora, exampleHalf.wire)]) := by
      rw [received_single]
      exact .inl ⟨_, List.mem_singleton_self _, rfl⟩
    exact ((echoes_ignored_iff (nodeAddr 1) 256 [] exampleSender exampleSender_run .text (List.replicate 181 7)
      .broadcast exampleFrames planSend_exampleFrames [(exampleOrigin, .lora, exampleHalf.wire)] _
      (.ingest .start .lora exampleHalf.wire) .mqtt exampleCopy.wire exampleCopy exampleCopy.decode_wire_self
      (.planned exampleCopy_planned)).2.2 hunaware).mpr hsince
  · have hnone : ∀ y ∈ [exampleCopy.arrived .mqtt], y.frag = none := by
      intro y hy
      rw [List.mem_singleton.mp hy]
      rfl
    have hunaware : Unaware 1 2 exampleFrames.toList []
        (Relay.received [(exampleOrigin, .mqtt, exampleCopy.wire)]) exampleRest := by
      rw [received_single]
      refine ⟨fun _ _ => List.not_mem_nil, by decide, fun _ => ⟨Nat.le_refl 2, fun _ hy => (by cases hy), ?_, [],
        Nat.one_pos, ?_⟩⟩
      · intro y hy hg
        rw [Message.groupKey, hnone y hy] at hg
        cases hg
      · intro y hy g hg
        rw [Message.groupKey, hnone y hy] at hg
        cases hg
    have hsince : exampleRest.IgnoredSince (Relay.received [(exampleOrigin, .mqtt, exampleCopy.wire)]) := by
      rw [received_single]
      refine .inr ⟨Option.some_ne_none _, fun y ⟨_, _, _, hf, _⟩ hfind => ?_⟩
      rw [hnone y (List.mem_of_find?_eq_some hfind)] at hf
      cases hf
    exact ((echoes_ignored_iff (nodeAddr 1) 256 [] exampleSender exampleSender_run .text (List.replicate 181 7)
      .broadcast exampleFrames planSend_exampleFrames [(exampleOrigin, .mqtt, exampleCopy.wire)] _
      (.ingest .start .mqtt exampleCopy.wire) .lora exampleRest.wire exampleRest exampleRest.decode_wire_self
      (.planned exampleRest_planned)).2.2 hunaware).mpr hsince

/-- The broker hands a node its own broadcast: the node shows it. -/
theorem own_broadcast_delivered :
    Relay.Run (.new (nodeAddr 1) 256) [] exampleSender ∧
      (exampleSender.planSend .text (List.replicate 181 7) .broadcast).1 = .ok exampleFrames ∧
      Echo exampleFrames.toList exampleCopy ∧
      (exampleOrigin.ingest .mqtt exampleCopy.wire).1 = .ok (.complete exampleCopy) :=
  ⟨exampleSender_run, planSend_exampleFrames, .planned exampleCopy_planned, by decide +kernel⟩

end RelayStar

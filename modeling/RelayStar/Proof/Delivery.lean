import RelayStar.Proof.Copies

/-!
# Delivery of one send

The frames of one `planSend` arrive at a relay that knows none of them and is
reassembling nothing (`Relay.Fresh`). If all of them arrive, in any order and
any number of times, the message is handed over exactly once
(`delivered_exactly_once`). A slot of the reassembler is left in use exactly
when a whole copy overtakes slice 0 (`no_slot_leaked_iff`), and if frames are
lost a complete set of one transport is enough exactly when slice 1 arrives or
a whole copy overtakes slice 0 (`delivered_despite_loss_iff`).
-/

namespace RelayStar

/-- The receptions of planned frames: each on its transport. -/
def calls (frames : List PlannedFrame) : List (Transport × Message) :=
  frames.map fun f => (f.transport, f.message)

namespace Relay

variable {NR NA NF : Nat}

/-- A relay that has not seen any of the frames and is reassembling nothing. -/
structure Fresh (r : Relay NR NA NF) (frames : List PlannedFrame) : Prop where
  slots : 1 ≤ NA
  perSlot : 2 ≤ NF ∧ NF ≤ 64
  idle : r.reassembler.inFlight = 0
  unseen : ∀ f ∈ frames, r.seen.contains f.message.dedupKey = false

theorem fresh_new (selfAddr : Addr) (idBase : UInt32) (hNA : 1 ≤ NA) (hNF : 2 ≤ NF ∧ NF ≤ 64)
    (frames : List PlannedFrame) : (new selfAddr idBase : Relay NR NA NF).Fresh frames where
  slots := hNA
  perSlot := hNF
  idle := Reassembler.inFlight_new
  unseen _ _ := SeenCache.contains_new _

/-- `m` is what `s` sends next, if that is `payload` to `dest`. -/
structure Sends (s : Relay NR NA NF) (kind : MsgKind) (payload : List UInt8) (dest : Destination)
    (m : Message) : Prop where
  id : m.id = s.nextId.1
  fromAddr : m.fromAddr = s.selfAddr
  toAddr : m.toAddr = dest.addr
  kind : m.kind = kind
  payload : m.payload.toList = payload
  frag : m.frag = none

end Relay

/-! ## The frames of a plan -/

section Plan

variable {m : Message} {addr : FrameAddr} {g : UInt32} {ts : List Transport} {c : Transport × Message}

/-- The receptions of a plan, transport by transport. -/
theorem mem_calls_plan : c ∈ calls (m.plan addr g ts) ↔
    ∃ t ∈ ts, ∃ x ∈ Message.framesOn { m with origin := t } t g, c = (t, x) := by
  simp only [calls, Message.plan, List.mem_map, List.mem_flatMap]
  constructor
  · rintro ⟨f, ⟨t, ht, x, hx, rfl⟩, rfl⟩; exact ⟨t, ht, x, hx, rfl⟩
  · rintro ⟨t, ht, x, hx, rfl⟩; exact ⟨_, ⟨t, ht, x, hx, rfl⟩, rfl⟩

theorem framesOn_cases (t : Transport) :
    (Message.framesOn { m with origin := t } t g = [{ m with origin := t }] ∧
        ¬ Message.IsSplit { m with origin := t } t) ∨
      t = .lora ∧ Message.framesOn { m with origin := t } t g =
        [(m.loraGroup g).frame 0, (m.loraGroup g).frame 1] := by
  unfold Message.framesOn
  split
  · rename_i h
    obtain ⟨-, rfl, -⟩ := h
    exact Or.inr ⟨rfl, rfl⟩
  · rename_i h
    exact Or.inl ⟨rfl, h⟩

theorem copy_of_mem_plan (h : c ∈ calls (m.plan addr g ts)) : Copy m g c := by
  obtain ⟨t, -, x, hx, rfl⟩ := mem_calls_plan.mp h
  rcases framesOn_cases t (m := m) (g := g) with ⟨he, -⟩ | ⟨rfl, he⟩
  · rw [he, List.mem_singleton] at hx
    exact hx ▸ .whole t
  · rw [he, List.mem_pair] at hx
    rcases hx with rfl | rfl
    · exact .slice 0 (by decide)
    · exact .slice 1 (by decide)

/-- Each frame is planned once. -/
theorem calls_plan_nodup (hts : ts.Nodup) : (calls (m.plan addr g ts)).Nodup := by
  simp only [calls, Message.plan, List.map_flatMap, List.map_map]
  rw [List.nodup_flatMap]
  refine ⟨fun t _ => ?_, hts.imp fun hne => ?_⟩
  · rcases framesOn_cases t (m := m) (g := g) with ⟨he, -⟩ | ⟨rfl, he⟩
    · rw [he]; exact List.nodup_singleton _
    · rw [he]
      apply List.Nodup.map fun x y h => (Prod.mk.inj h).2
      exact (m.loraGroup g).frames_nodup (Nat.le_of_ble_eq_true rfl)
  · intro c hc hc'
    obtain ⟨x, -, rfl⟩ := List.mem_map.mp hc
    obtain ⟨y, -, he⟩ := List.mem_map.mp hc'
    exact hne (congrArg Prod.fst he).symm

variable (hm : m.frag = none)

include hm

/-- Each transport of a plan has a frame of the first key. -/
theorem exists_key0 {t : Transport} (ht : t ∈ ts) :
    ∃ c ∈ calls (m.plan addr g ts), c.1 = t ∧ callKey c = m.key0 := by
  rcases framesOn_cases t (m := m) (g := g) with ⟨he, -⟩ | ⟨rfl, he⟩
  · exact ⟨_, mem_calls_plan.mpr ⟨t, ht, _, he ▸ List.mem_singleton_self _, rfl⟩, rfl, callKey_whole hm t⟩
  · exact ⟨_, mem_calls_plan.mpr ⟨_, ht, _, he ▸ List.mem_cons_self, rfl⟩, rfl, callKey_slice0⟩

/-- If all frames of a plan arrive, one of the first key does. -/
theorem exists_key0_of_all (hne : ts ≠ []) {l : List (Transport × Message)}
    (hl : ∀ c ∈ calls (m.plan addr g ts), c ∈ l) : ∃ c ∈ l, callKey c = m.key0 := by
  obtain ⟨t, ht⟩ := List.exists_mem_of_ne_nil ts hne
  obtain ⟨c, hc, -, hk⟩ := exists_key0 hm ht
  exact ⟨c, hl c hc, hk⟩

/-- The two slices of a plan come together. -/
theorem slice0_mem_iff : (Transport.lora, (m.loraGroup g).frame 0) ∈ calls (m.plan addr g ts) ↔
    (Transport.lora, (m.loraGroup g).frame 1) ∈ calls (m.plan addr g ts) := by
  have key : ∀ k < 2, (Transport.lora, (m.loraGroup g).frame k) ∈ calls (m.plan addr g ts) ↔
      .lora ∈ ts ∧ Message.IsSplit { m with origin := .lora } .lora := by
    intro k hk
    rw [mem_calls_plan]
    constructor
    · rintro ⟨t, ht, x, hx, he⟩
      obtain ⟨rfl, rfl⟩ := Prod.mk.inj he
      refine ⟨ht, ?_⟩
      by_contra hs
      rw [Message.framesOn, if_neg hs, List.mem_singleton] at hx
      have := congrArg Message.frag hx
      rw [show Message.frag { m with origin := .lora } = m.frag from rfl, hm] at this
      cases this
    · rintro ⟨ht, hs⟩
      refine ⟨_, ht, _, ?_, rfl⟩
      rw [Message.framesOn, if_pos hs]
      exact Spec.Group.mem_frames.mpr ⟨k, hk, rfl⟩
  rw [key 0 (by decide), key 1 (by decide)]

end Plan

namespace Relay

variable {NR NA NF NR' NA' NF' : Nat} {s : Relay NR' NA' NF'} {r : Relay NR NA NF} {kind : MsgKind}
  {payload : List UInt8} {dest : Destination} {out : HVec PlannedFrame (MAX_FRAGMENTS * 3)}

/-- What is planned are copies of the message that is sent. -/
theorem planSend_copies (h : (s.planSend kind payload dest).1 = .ok out) :
    ∃ m g ts, s.Sends kind payload dest m ∧ ts.Nodup ∧ ts ≠ [] ∧
      out.toList = m.plan dest.frameAddr g ts := by
  obtain ⟨p, g, ts, hp, hts, hne, hout⟩ := planSend_ok h
  exact ⟨_, g, ts, ⟨rfl, rfl, rfl, rfl, hp, rfl⟩, hts, hne, hout⟩

theorem Fresh.unseen_calls {frames : List PlannedFrame} (h : r.Fresh frames) :
    ∀ c ∈ calls frames, r.seen.contains (callKey c) = false := by
  intro c hc
  obtain ⟨f, hf, rfl⟩ := List.mem_map.mp hc
  exact h.unseen f hf

/-- Frames of a send arrive at a relay that knows none of them. -/
theorem Fresh.arrivals (hr : r.Fresh out.toList) (h : (s.planSend kind payload dest).1 = .ok out)
    {l : List (Transport × Message)} (hl : ∀ c ∈ l, c ∈ calls out.toList) :
    ∃ m g ts, s.Sends kind payload dest m ∧ ts.Nodup ∧ ts ≠ [] ∧
      out.toList = m.plan dest.frameAddr g ts ∧ (∀ c ∈ l, Copy m g c) ∧
      ∀ c ∈ l, r.seen.contains (callKey c) = false := by
  obtain ⟨m, g, ts, hs, hts, hne, hout⟩ := planSend_copies h
  refine ⟨m, g, ts, hs, hts, hne, hout, ?_, fun c hc => hr.unseen_calls c (hl c hc)⟩
  intro c hc
  exact copy_of_mem_plan (hout ▸ hl c hc)

theorem Sends.withOrigin {m : Message} (h : s.Sends kind payload dest m) (t : Transport) :
    s.Sends kind payload dest { m with origin := t } :=
  ⟨h.id, h.fromAddr, h.toAddr, h.kind, h.payload, h.frag⟩

theorem Sends.direct_eq {m : Message} (h : s.Sends kind payload dest m) (r : Relay NR NA NF) :
    r.direct m = if dest.addr = BROADCAST_ADDR ∨ dest.addr = r.selfAddr then .complete m else .notForMe m := by
  simp only [direct, Message.isBroadcast, decide_eq_true_eq, h.toAddr, or_comm]

end Relay

def examplePayload : Payload := ⟨List.replicate 181 7, by decide +kernel⟩

/-- A node on LoRa and MQTT. -/
def exampleSender : Relay 1 1 2 := ((Relay.new (nodeAddr 1) 256).registerPort .lora).registerPort .mqtt

def exampleReceiver : Relay 1 1 2 := Relay.new (nodeAddr 2) 512

/-- The frames of 181 bytes broadcast: two slices on LoRa, a whole copy on MQTT. -/
def exampleFrames : HVec PlannedFrame (MAX_FRAGMENTS * 3) :=
  match (exampleSender.planSend .text (List.replicate 181 7) .broadcast).1 with
  | .ok out => out
  | .error _ => .empty

theorem planSend_exampleFrames :
    (exampleSender.planSend .text (List.replicate 181 7) .broadcast).1 = .ok exampleFrames := by
  decide +kernel

theorem fresh_exampleReceiver : exampleReceiver.Fresh exampleFrames.toList :=
  Relay.fresh_new _ _ (by decide) (by decide) _

/-! ## All frames arrive -/

/-- All frames of a send arrive, in any order and any number of times: the
message is handed over exactly once, and every other answer is `Buffered` or
`Duplicate`. -/
theorem delivered_exactly_once {NR NA NF NR' NA' NF' : Nat} (s : Relay NR' NA' NF') (r : Relay NR NA NF)
    (kind : MsgKind) (payload : List UInt8) (dest : Destination) (out : HVec PlannedFrame (MAX_FRAGMENTS * 3))
    (hplan : (s.planSend kind payload dest).1 = .ok out) (hr : r.Fresh out.toList)
    (l : List (Transport × Message)) (hl : ∀ c, c ∈ l ↔ c ∈ calls out.toList) :
    ∃ m pre post, s.Sends kind payload dest m ∧
      (run Relay.receive r l).1 =
        pre ++ .ok (if dest.addr = BROADCAST_ADDR ∨ dest.addr = r.selfAddr then .complete m else .notForMe m) ::
          post ∧
      ∀ o ∈ pre ++ post, o = .ok .buffered ∨ o = .ok .duplicate := by
  obtain ⟨m, g, ts, hs, hts, hne, hout, hcopy, hun⟩ := hr.arrivals hplan fun c => (hl c).mp
  have hm := hs.frag
  have hkey := fun c hc => (hcopy c hc).key hm
  obtain ⟨hfilter, -⟩ := r.run_copies hkey hun
  have hex : ∃ c ∈ l, callKey c = m.key0 := exists_key0_of_all hm hne fun c hc => (hl c).mpr (hout ▸ hc)
  rcases first_cases hcopy hex with ⟨t, ha⟩ | ha
  · obtain ⟨⟨x, y, hrun, hxy⟩, -⟩ := run_whole hr.slots hr.perSlot.1 hr.idle hm hcopy ha
    rw [hrun] at hfilter
    obtain ⟨pre, post, hos, hrest⟩ := Relay.split_of_filter hxy hfilter
    refine ⟨_, pre, post, hs.withOrigin t, ?_, hrest⟩
    rw [hos, ← (hs.withOrigin t).direct_eq]
    rfl
  · have h1 := (slice0_mem_iff hm).mp (hout ▸ (hl _).mp (List.mem_of_find?_eq_some ha))
    obtain ⟨hrun, -⟩ := run_slices hr.slots hr.perSlot.1 hr.idle hm hcopy ha
      ⟨_, (hl _).mpr (hout ▸ h1), callKey_slice1⟩
    rw [hrun] at hfilter
    obtain ⟨pre, post, hos, hrest⟩ := Relay.split_of_filter (x := [.buffered]) (y := [])
      (fun o ho => List.mem_singleton.mp ho) hfilter
    refine ⟨_, pre, post, hs.withOrigin .lora, ?_, hrest⟩
    rw [hos, ← (hs.withOrigin .lora).direct_eq, Message.whole_loraGroup hm]
    rfl

theorem delivered_exactly_once_reversed :
    ∃ m pre post, exampleSender.Sends .text (List.replicate 181 7) .broadcast m ∧
      (run Relay.receive exampleReceiver (calls exampleFrames.toList).reverse).1 =
        pre ++ .ok (if Destination.broadcast.addr = BROADCAST_ADDR ∨
          Destination.broadcast.addr = exampleReceiver.selfAddr then .complete m else .notForMe m) :: post ∧
      ∀ o ∈ pre ++ post, o = .ok .buffered ∨ o = .ok .duplicate :=
  delivered_exactly_once exampleSender exampleReceiver .text (List.replicate 181 7) .broadcast exampleFrames
    planSend_exampleFrames fresh_exampleReceiver (calls exampleFrames.toList).reverse fun _ => List.mem_reverse

/-- All frames of a send arrive once each, in any order: no slot stays in use
exactly when no whole copy arrives before slice 0. -/
theorem no_slot_leaked_iff {NR NA NF NR' NA' NF' : Nat} (s : Relay NR' NA' NF') (r : Relay NR NA NF)
    (kind : MsgKind) (payload : List UInt8) (dest : Destination) (out : HVec PlannedFrame (MAX_FRAGMENTS * 3))
    (hplan : (s.planSend kind payload dest).1 = .ok out) (hr : r.Fresh out.toList)
    (l : List (Transport × Message)) (hl : l.Perm (calls out.toList)) :
    (run Relay.receive r l).2.reassembler.inFlight = 0 ↔
      l.Pairwise fun a b => a.2.frag = none → ¬ b.2.IsSlice 0 := by
  have hmem := fun c => hl.mem_iff (a := c)
  obtain ⟨m, g, ts, hs, hts, hne, hout, hcopy, hun⟩ := hr.arrivals hplan fun c => (hmem c).mp
  have hm := hs.frag
  have hkey := fun c hc => (hcopy c hc).key hm
  have hnd : l.Nodup := hl.nodup_iff.mpr (hout ▸ calls_plan_nodup hts)
  have hex : ∃ c ∈ l, callKey c = m.key0 := exists_key0_of_all hm hne fun c hc => (hmem c).mpr (hout ▸ hc)
  have hboth : (Transport.lora, (m.loraGroup g).frame 0) ∈ l ↔ (.lora, (m.loraGroup g).frame 1) ∈ l := by
    rw [hmem, hmem, hout]; exact slice0_mem_iff hm
  rw [(r.run_copies hkey hun).2]
  rcases first_cases hcopy hex with ⟨t, ha⟩ | ha
  · rw [(run_whole hr.slots hr.perSlot.1 hr.idle hm hcopy ha).2]
    by_cases h0 : (Transport.lora, (m.loraGroup g).frame 0) ∈ l
    · exact ⟨fun h => absurd callKey_slice1 (h _ (hboth.mp h0)),
        fun h => absurd h (not_pairwise_of_whole hm hcopy ha h0)⟩
    · refine ⟨fun _ => List.pairwise_of_forall_mem_list fun a _ b hb _ hs => ?_, fun _ c hc hk => ?_⟩
      · rw [(hcopy b hb).isSlice0 hm] at hs
        exact h0 (hs ▸ hb)
      · exact h0 (hboth.mpr ((hcopy c hc).of_key1 hm hk ▸ hc))
  · have h1 := hboth.mp (List.mem_of_find?_eq_some ha)
    obtain ⟨-, hidle⟩ := run_slices hr.slots hr.perSlot.1 hr.idle hm hcopy ha ⟨_, h1, callKey_slice1⟩
    exact ⟨fun _ => pairwise_of_slice0 hm hcopy hnd ha, fun _ => hidle⟩

theorem no_slot_leaked_iff_in_order :
    (run Relay.receive exampleReceiver (calls exampleFrames.toList)).2.reassembler.inFlight = 0 ↔
      (calls exampleFrames.toList).Pairwise fun a b => a.2.frag = none → ¬ b.2.IsSlice 0 :=
  no_slot_leaked_iff exampleSender exampleReceiver .text (List.replicate 181 7) .broadcast exampleFrames
    planSend_exampleFrames fresh_exampleReceiver _ (List.Perm.refl _)

/-- The whole copy arrives first: slice 1 stays in a slot. -/
theorem slot_leaked :
    (exampleSender.planSend .text (List.replicate 181 7) .broadcast).1 = .ok exampleFrames ∧
      exampleReceiver.Fresh exampleFrames.toList ∧
      (calls exampleFrames.toList).reverse.Perm (calls exampleFrames.toList) ∧
      (run Relay.receive exampleReceiver (calls exampleFrames.toList).reverse).2.reassembler.inFlight ≠ 0 :=
  ⟨planSend_exampleFrames, fresh_exampleReceiver, List.reverse_perm _, by decide +kernel⟩

/-! ## Frames are lost -/

/-- Frames of a send are lost, but not all those of some transport `t`: the
message is handed over exactly when slice 1 arrives, or a whole copy arrives
before any slice 0. -/
theorem delivered_despite_loss_iff {NR NA NF NR' NA' NF' : Nat} (s : Relay NR' NA' NF') (r : Relay NR NA NF)
    (kind : MsgKind) (payload : List UInt8) (dest : Destination) (out : HVec PlannedFrame (MAX_FRAGMENTS * 3))
    (hplan : (s.planSend kind payload dest).1 = .ok out) (hr : r.Fresh out.toList)
    (l : List (Transport × Message)) (hl : ∀ c ∈ l, c ∈ calls out.toList) (t : Transport)
    (ht : ∃ c ∈ calls out.toList, c.1 = t) (hlt : ∀ c ∈ calls out.toList, c.1 = t → c ∈ l) :
    (∃ m ∈ (run Relay.receive r l).1.filterMap delivered, m.id = s.nextId.1 ∧ m.payload.toList = payload) ↔
      (∃ c ∈ l, c.2.IsSlice 1) ∨
        ∃ pre w post, l = pre ++ w :: post ∧ w.2.frag = none ∧ ∀ c ∈ pre, ¬ c.2.IsSlice 0 := by
  obtain ⟨m, g, ts, hs, hts, hne, hout, hcopy, hun⟩ := hr.arrivals hplan hl
  have hm := hs.frag
  have hex : ∃ c ∈ l, callKey c = m.key0 := by
    obtain ⟨c, hc, hct⟩ := ht
    rw [hout] at hc
    obtain ⟨t', ht', x, -, rfl⟩ := mem_calls_plan.mp hc
    obtain ⟨c, hc, hct', hk⟩ := exists_key0 hm ht'
    exact ⟨c, hlt c (hout ▸ hc) (hct'.trans hct), hk⟩
  have hkey := fun c hc => (hcopy c hc).key hm
  have hslice1 : (∃ c ∈ l, c.2.IsSlice 1) ↔ ∃ c ∈ l, callKey c = m.key1 :=
    exists_congr fun c => and_congr_right fun hc => (hcopy c hc).isSlice1 hm
  rw [r.delivered_copies hkey hun, hslice1, overtakes_iff hm hcopy hex]
  rcases first_cases hcopy hex with ⟨t, ha⟩ | ha
  · obtain ⟨⟨x, y, hrun, -⟩, -⟩ := run_whole hr.slots hr.perSlot.1 hr.idle hm hcopy ha
    refine ⟨fun _ => Or.inr ⟨t, ha⟩, fun _ => ⟨{ m with origin := t }, ?_, hs.id, hs.payload⟩⟩
    rw [hrun, List.mem_filterMap]
    exact ⟨_, List.mem_append_right _ List.mem_cons_self, rfl⟩
  · have hnot : ¬ ∃ t, l.find? (callKey · = m.key0) = some (t, { m with origin := t }) := by
      rintro ⟨t, h⟩
      rw [ha] at h
      have := congrArg Message.frag (Prod.mk.inj (Option.some.inj h)).2
      rw [show Message.frag { m with origin := t } = m.frag from rfl, hm] at this
      cases this
    by_cases h1 : ∃ c ∈ l, callKey c = m.key1
    · obtain ⟨hrun, -⟩ := run_slices hr.slots hr.perSlot.1 hr.idle hm hcopy ha h1
      refine ⟨fun _ => Or.inl h1, fun _ => ⟨{ m with origin := .lora }, ?_, hs.id, hs.payload⟩⟩
      rw [hrun, Message.whole_loraGroup hm]
      exact List.mem_singleton_self _
    · have hrun := run_lost hr.slots hr.perSlot.1 hr.idle hm hcopy ha fun c hc hk => h1 ⟨c, hc, hk⟩
      rw [hrun]
      refine ⟨fun h => ?_, fun h => absurd h (not_or.mpr ⟨h1, hnot⟩)⟩
      obtain ⟨_, h, -⟩ := h
      cases h

/-- The whole copy arrives before slice 0, and slice 1 is lost. -/
theorem delivered_despite_loss_iff_mqtt :
    ∃ m ∈ (run Relay.receive exampleReceiver ((calls exampleFrames.toList).eraseIdx 1).reverse).1.filterMap delivered,
      m.id = exampleSender.nextId.1 ∧ m.payload.toList = List.replicate 181 7 := by
  have hfirst : ((calls exampleFrames.toList).eraseIdx 1).reverse.head?.map (·.2.frag) = some none := by
    decide +kernel
  obtain ⟨w, hw, hfrag⟩ := Option.map_eq_some_iff.mp hfirst
  obtain ⟨post, hl⟩ := List.head?_eq_some_iff.mp hw
  exact (delivered_despite_loss_iff exampleSender exampleReceiver .text (List.replicate 181 7) .broadcast exampleFrames
    planSend_exampleFrames fresh_exampleReceiver _ (fun _ hc => List.mem_of_mem_eraseIdx (List.mem_reverse.mp hc)) .mqtt
    (by decide +kernel) (by decide +kernel)).mpr (.inr ⟨[], w, post, hl, hfrag, fun _ hc => (by cases hc)⟩)

/-- Slice 1 is lost, and the whole copy that arrives after slice 0 is taken for
a duplicate: nothing is delivered. -/
theorem whole_copy_suppressed :
    (exampleSender.planSend .text (List.replicate 181 7) .broadcast).1 = .ok exampleFrames ∧
      exampleReceiver.Fresh exampleFrames.toList ∧
      (∀ c ∈ (calls exampleFrames.toList).eraseIdx 1, c ∈ calls exampleFrames.toList) ∧
      (∃ c ∈ calls exampleFrames.toList, c.1 = .mqtt) ∧
      (∀ c ∈ calls exampleFrames.toList, c.1 = .mqtt → c ∈ (calls exampleFrames.toList).eraseIdx 1) ∧
      (run Relay.receive exampleReceiver ((calls exampleFrames.toList).eraseIdx 1)).1.filterMap delivered = [] :=
  ⟨planSend_exampleFrames, fresh_exampleReceiver, fun _ => List.mem_of_mem_eraseIdx, by decide +kernel,
    by decide +kernel, by decide +kernel⟩

end RelayStar

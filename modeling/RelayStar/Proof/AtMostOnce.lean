import Mathlib.Data.List.Nodup
import RelayStar.Proof.Leads

/-!
# At most one delivery in the dedup window

Between the leads of two deliveries of one id at least 64 keys are recorded
(`at_most_once_in_window`). Between the deliveries themselves there may be
fewer: a slice waits in its slot while the window moves on.
-/

namespace RelayStar

/-- Two deliveries of one id have leads with at least 64 recorded keys in between. -/
theorem at_most_once_in_window {NR NA NF : Nat} (selfAddr : Addr) (idBase : UInt32)
    (l : List (Transport × List UInt8)) (h : OneMessagePerGroup l) (i j : Nat) (hij : i < j) (e e' : Entry)
    (m m' : Message) (hi : ((Relay.new selfAddr idBase : Relay NR NA NF).trace l)[i]? = some e)
    (hj : ((Relay.new selfAddr idBase : Relay NR NA NF).trace l)[j]? = some e')
    (hm : delivered e.2 = some m) (hm' : delivered e'.2 = some m') (hid : m.id = m'.id) :
    ∃ a b, Lead ((Relay.new selfAddr idBase : Relay NR NA NF).trace l) i a m.id ∧
      Lead ((Relay.new selfAddr idBase : Relay NR NA NF).trace l) j b m.id ∧ a ≠ b ∧
      64 ≤ newBetween ((Relay.new selfAddr idBase : Relay NR NA NF).trace l) (min a b) (max a b) := by
  obtain ⟨a, ha⟩ := Relay.exists_lead (Relay.track_new selfAddr idBase) h hi hm
  obtain ⟨b, hb⟩ := Relay.exists_lead (Relay.track_new selfAddr idBase) h hj hm'
  rw [← hid] at hb
  have hne : a ≠ b := fun hab => ha.ne hij hi (by rw [hm]; exact Option.some_ne_none m) (hab ▸ hb)
  refine ⟨a, b, ha, hb, hne, ?_⟩
  obtain ⟨ea, x, hea, hna, hx, hk⟩ := ha.entry
  obtain ⟨eb, y, heb, hnb, hy, hk'⟩ := hb.entry
  rcases Nat.lt_or_gt_of_ne hne with hab | hab
  · rw [Nat.min_eq_left (Nat.le_of_lt hab), Nat.max_eq_right (Nat.le_of_lt hab)]
    exact Relay.newBetween_of_same_key hab hea heb hna hnb hx hy (hk.trans hk'.symm)
  · rw [Nat.min_eq_right (Nat.le_of_lt hab), Nat.max_eq_left (Nat.le_of_lt hab)]
    exact Relay.newBetween_of_same_key hab heb hea hnb hna hy hx (hk'.trans hk.symm)

/-- 64 whole messages. -/
def otherMessages : List (Transport × Message) :=
  (List.range 64).map fun k => (.mqtt, wholeFrame (UInt32.ofNat (100 + k)))

/-- Slice 0 of a message, 64 other messages, the whole copy, and slice 1. -/
def agedCalls : List (Transport × Message) :=
  (.lora, sliceFrame 7 ⟨1, 0, 2⟩) :: otherMessages ++ [(.mqtt, wholeFrame 7), (.lora, sliceFrame 7 ⟨1, 1, 2⟩)]

theorem mem_otherMessages {c : Transport × Message} (h : c ∈ otherMessages) :
    ∃ k < 64, c = (.mqtt, wholeFrame (UInt32.ofNat (100 + k))) := by
  obtain ⟨k, hk, rfl⟩ := List.mem_map.mp h
  exact ⟨k, List.mem_range.mp hk, rfl⟩

theorem callKey_otherMessages :
    otherMessages.map callKey = (List.range 64).map fun k => UInt32.ofNat (100 + k) := by
  rw [otherMessages, List.map_map]
  rfl

theorem nodup_otherMessages : (otherMessages.map callKey).Nodup := by
  rw [callKey_otherMessages]
  refine (List.nodup_map_iff_inj_on List.nodup_range).mpr fun a ha b hb h => ?_
  have h := congrArg UInt32.toNat h
  simp only [UInt32.toNat_ofNat'] at h
  have := List.mem_range.mp ha
  have := List.mem_range.mp hb
  omega

/-- The other messages have keys from 100 to 163. -/
theorem not_mem_otherMessages {k : UInt32} (hk : k.toNat < 100 ∨ 164 ≤ k.toNat) :
    k ∉ otherMessages.map callKey := by
  rw [callKey_otherMessages]
  intro h
  obtain ⟨j, hj, rfl⟩ := List.mem_map.mp h
  have := List.mem_range.mp hj
  rw [UInt32.toNat_ofNat'] at hk
  omega

theorem agedCalls_oneMessage : OneMessagePerGroup (agedCalls.map Relay.wired) := by
  have h : ∀ c ∈ agedCalls.map Relay.wired, ∀ x f, Message.decode c.2 = .ok x → x.frag = some f → x.id = 7 := by
    intro c hc x f hx hf
    obtain ⟨b, hb, rfl⟩ := List.mem_map.mp hc
    rw [Relay.wired, Message.decode_wire_self] at hx
    cases hx
    simp only [agedCalls, List.cons_append, List.mem_cons, List.mem_append, List.not_mem_nil, or_false] at hb
    rcases hb with rfl | hb | rfl | rfl
    · rfl
    · obtain ⟨k, -, rfl⟩ := mem_otherMessages hb
      cases hf
    · cases hf
    · rfl
  intro c hc c' hc' x x' f f' hx hx' hf hf' _
  rw [h c hc x f hx hf, h c' hc' x' f' hx' hf']

section Aged

variable {NR NA NF : Nat} {r : Relay NR NA NF} (hr : ∀ k, some k ∈ r.seen.window → k = 7)

include hr

/-- The other messages push slice 0 out of the window, and not out of its slot. -/
theorem behind_otherMessages : Relay.Behind r (otherMessages.map callKey).reverse
    (run Relay.receive r otherMessages).2 r.reassembler := by
  have h7 : (7 : UInt32) ∉ otherMessages.map callKey := not_mem_otherMessages (Or.inl (by decide))
  have h := (Relay.Behind.refl r).run_new nodup_otherMessages fun c hc =>
    ⟨List.not_mem_nil, fun hw => h7 (List.mem_map.mpr ⟨c, hc, hr _ hw⟩)⟩
  have ht : (run Reassembler.receive r.reassembler otherMessages).2 = r.reassembler :=
    run_inv (P := (· = r.reassembler)) (Q := fun c => c.2.frag = none)
      (fun t c hc ht => by rw [Reassembler.receive, t.ingest_unfragmented (m := c.2.arrived c.1) hc]; exact ht)
      (fun c hc => by obtain ⟨k, -, rfl⟩ := mem_otherMessages hc; rfl) rfl
  rwa [ht, List.append_nil] at h

theorem mem_window_otherMessages {k : UInt32}
    (h : some k ∈ (run Relay.receive r otherMessages).2.seen.window) : k ∈ otherMessages.map callKey := by
  rw [(behind_otherMessages hr).window, List.take_append_of_le_length (Nat.le_of_ble_eq_true rfl)] at h
  obtain ⟨j, hj, e⟩ := List.mem_map.mp (List.mem_of_mem_take h)
  exact Option.some.inj e ▸ List.mem_reverse.mp hj

/-- The whole copy is new after them, and handed over. -/
theorem receive_whole_aged :
    ((run Relay.receive r otherMessages).2.receive (.mqtt, wholeFrame 7)).1 =
        .ok (.complete ((wholeFrame 7).arrived .mqtt)) ∧
      ((run Relay.receive r otherMessages).2.receive (.mqtt, wholeFrame 7)).2.seen =
        (run Relay.receive r otherMessages).2.seen.insert 7 ∧
      ((run Relay.receive r otherMessages).2.receive (.mqtt, wholeFrame 7)).2.reassembler = r.reassembler := by
  obtain ⟨ho, hs, ht⟩ := (run Relay.receive r otherMessages).2.receive_new_whole (c := (.mqtt, wholeFrame 7))
    (fun h => not_mem_otherMessages (Or.inl (by decide)) (mem_window_otherMessages hr h)) rfl
  rw [Relay.direct_of_isBroadcast _ rfl] at ho
  exact ⟨ho, hs, ht.trans (behind_otherMessages hr).reassembler⟩

/-- Slice 1 is new after this, and given to the reassembler. -/
theorem receive_slice_aged {m : Message}
    (hm : (r.reassembler.ingest (sliceFrame 7 ⟨1, 1, 2⟩)).1 = .complete m) (hb : m.isBroadcast = true) :
    (((run Relay.receive r otherMessages).2.receive (.mqtt, wholeFrame 7)).2.receive
      (.lora, sliceFrame 7 ⟨1, 1, 2⟩)).1 = .ok (.complete m) := by
  obtain ⟨-, hs, ht⟩ := receive_whole_aged hr
  rw [Relay.receive, Relay.ingest_new _ _ (sliceFrame 7 ⟨1, 1, 2⟩).decode_wire_self, ht]
  · have hm' : (r.reassembler.ingest ((sliceFrame 7 ⟨1, 1, 2⟩).arrived .lora)).1 = .complete m := hm
    rw [hm', Relay.outcome, Relay.direct_of_isBroadcast _ hb]
  · rw [hs, SeenCache.window_insert]
    intro h
    rcases List.mem_cons.mp (List.mem_of_mem_take h) with h | h
    · exact absurd (Option.some.inj h) (by decide)
    · exact not_mem_otherMessages (Or.inr (by decide)) (mem_window_otherMessages hr h)

end Aged

/-- A relay with one slot. -/
def agedNew : Relay 1 1 2 := .new (nodeAddr 2) 512

theorem agedNew_window (k : UInt32)
    (h : some k ∈ (agedNew.receive (.lora, sliceFrame 7 ⟨1, 0, 2⟩)).2.seen.window) : k = 7 := by
  have hnew := agedNew.hear_new (Relay.wired (.lora, sliceFrame 7 ⟨1, 0, 2⟩))
    (sliceFrame 7 ⟨1, 0, 2⟩).decode_wire_self (by decide +kernel)
  have h : some k ∈ (some (sliceFrame 7 ⟨1, 0, 2⟩).dedupKey :: SeenCache.new.window).take 64 := hnew.2 ▸ h
  rw [SeenCache.window_new] at h
  rcases List.mem_cons.mp (List.mem_of_mem_take h) with h | h
  · exact Option.some.inj h
  · cases (List.mem_replicate.mp h).2

/-- The run on this relay. -/
def agedTrace : List Entry := agedNew.trace (agedCalls.map Relay.wired)

theorem agedTrace_whole : agedTrace[65]? =
    some (Relay.wired (.mqtt, wholeFrame 7), .ok (.complete ((wholeFrame 7).arrived .mqtt))) := by
  have h := agedNew.getElem?_trace_wired ((.lora, sliceFrame 7 ⟨1, 0, 2⟩) :: otherMessages) (.mqtt, wholeFrame 7)
    [(.lora, sliceFrame 7 ⟨1, 1, 2⟩)]
  rw [run_cons_snd, (receive_whole_aged agedNew_window).1] at h
  exact h

theorem agedTrace_slice : agedTrace[66]? = some (Relay.wired (.lora, sliceFrame 7 ⟨1, 1, 2⟩),
    .ok (.complete { wholeFrame 7 with payload := ⟨[7, 7], by decide⟩ })) := by
  have h := agedNew.getElem?_trace_wired
    ((.lora, sliceFrame 7 ⟨1, 0, 2⟩) :: (otherMessages ++ [(.mqtt, wholeFrame 7)]))
    (.lora, sliceFrame 7 ⟨1, 1, 2⟩) []
  rw [run_cons_snd, run_snoc_snd, receive_slice_aged agedNew_window
      (m := { wholeFrame 7 with payload := ⟨[7, 7], by decide⟩ }) (by decide +kernel) rfl] at h
  exact h

theorem at_most_once_in_window_aged :
    ∃ a b, Lead agedTrace 65 a 7 ∧ Lead agedTrace 66 b 7 ∧ a ≠ b ∧
      64 ≤ newBetween agedTrace (min a b) (max a b) :=
  at_most_once_in_window _ _ _ agedCalls_oneMessage 65 66 (by decide) _ _ _ _ agedTrace_whole agedTrace_slice
    rfl rfl rfl

/-- The message is delivered twice, and no key is recorded in between. -/
theorem delivered_twice_in_window :
    OneMessagePerGroup (agedCalls.map Relay.wired) ∧
      ∃ e e' m m', agedTrace[65]? = some e ∧ agedTrace[66]? = some e' ∧ delivered e.2 = some m ∧
        delivered e'.2 = some m' ∧ m.id = m'.id ∧ newBetween agedTrace 65 66 = 0 :=
  ⟨agedCalls_oneMessage, _, _, _, _, agedTrace_whole, agedTrace_slice, rfl, rfl, rfl, by
    rw [newBetween, Nat.sub_self, List.take_zero, List.countP_nil]⟩

end RelayStar

import RelayStar.Proof.Ready

/-!
# How much one send carries

A payload is cut into slices only after it was put into one message, so what
is sent is bounded by `MAX_PAYLOAD`, not by `MAX_FRAGMENTS` slices: a payload
is planned, and on each transport reassembled by a new relay, exactly if it fits
one message (`blob_delivered_iff`).
-/

namespace RelayStar

section Plan

variable {m : Message} {addr : FrameAddr} {g : UInt32} {ts : List Transport} {t : Transport}

theorem plan_cons : m.plan addr g (t :: ts) =
    (Message.framesOn { m with origin := t } t g).map (⟨t, addr, ·⟩) ++ m.plan addr g ts := rfl

theorem transport_mem_of_mem_plan {f : PlannedFrame} (h : f ∈ m.plan addr g ts) : f.transport ∈ ts := by
  obtain ⟨t, ht, hf⟩ := List.mem_flatMap.mp h
  obtain ⟨x, -, rfl⟩ := List.mem_map.mp hf
  exact ht

/-- The frames of a plan on one of its transports. -/
theorem filter_plan (hts : ts.Nodup) (ht : t ∈ ts) :
    (m.plan addr g ts).filter (·.transport = t) = m.plan addr g [t] := by
  induction ts with
  | nil => cases ht
  | cons t' ts ih =>
    obtain ⟨hnot, hnd⟩ := List.nodup_cons.mp hts
    rw [plan_cons, List.filter_append]
    by_cases he : t' = t
    · subst he
      have hrest : (m.plan addr g ts).filter (·.transport = t') = [] :=
        List.filter_eq_nil_iff.mpr fun f hf e => hnot (of_decide_eq_true e ▸ transport_mem_of_mem_plan hf)
      rw [hrest, plan_cons, List.filter_eq_self.mpr]
      · rfl
      · intro f hf
        obtain ⟨x, -, rfl⟩ := List.mem_map.mp hf
        exact decide_eq_true rfl
    · rw [ih hnd ((List.mem_cons.mp ht).resolve_left (Ne.symm he)), List.filter_eq_nil_iff.mpr, List.nil_append]
      intro f hf e
      obtain ⟨x, -, rfl⟩ := List.mem_map.mp hf
      exact he (of_decide_eq_true e)

end Plan

/-- A payload is planned, and its frames on each of the transports make a new
relay hand it over, exactly if it fits one message. -/
theorem blob_delivered_iff {NR NA NF : Nat} (s : Relay NR NA NF) (kind : MsgKind) (payload : List UInt8)
    (dest : Destination) (ts : List Transport) (hts : s.resolveTargets dest = .ok ts) (hne : ts ≠ []) :
    (∃ out, (s.planSend kind payload dest).1 = .ok out ∧
        ∀ t ∈ ts, ∀ NR' NA', 1 ≤ NA' → ∀ selfAddr idBase, ∀ l : List (Transport × Message),
          l.Perm (calls (out.toList.filter (·.transport = t))) →
            ∃ x, (run Relay.receive (Relay.new selfAddr idBase : Relay NR' NA' 32) l).1.filterMap delivered = [x] ∧
              x.payload.toList = payload) ↔
      payload.length ≤ MAX_PAYLOAD := by
  rw [← Relay.planSend_ok_iff hts hne kind payload]
  refine ⟨fun ⟨out, h, _⟩ => ⟨out, h⟩, fun ⟨out, h⟩ => ⟨out, h, ?_⟩⟩
  intro t ht NR' NA' hNA selfAddr idBase l hl
  obtain ⟨-, p, g, rfl, hout⟩ := Relay.planSend_on hts h
  rw [hout, filter_plan (Relay.resolveTargets_nodup hts) ht] at hl
  have hr : (Relay.new selfAddr idBase : Relay NR' NA' 32).Fresh _ := Relay.fresh_new selfAddr idBase hNA (by decide)
    (Message.plan ⟨s.nextId.1, DEFAULT_TTL, .lora, s.selfAddr, dest.addr, kind, p, none⟩ dest.frameAddr g [t])
  rw [Relay.plan_single] at hl hr
  exact ⟨_, hr.ready.delivered_framesOn (Reassembler.inv_of_idle hr.idle) rfl fun c => hl.mem_iff, rfl⟩

theorem blob_delivered_iff_fits :
    (∃ out, (exampleSender.planSend .text (List.replicate 181 7) .broadcast).1 = .ok out ∧
        ∀ t ∈ [Transport.lora, .mqtt], ∀ NR' NA', 1 ≤ NA' → ∀ selfAddr idBase, ∀ l : List (Transport × Message),
          l.Perm (calls (out.toList.filter (·.transport = t))) →
            ∃ x, (run Relay.receive (Relay.new selfAddr idBase : Relay NR' NA' 32) l).1.filterMap delivered = [x] ∧
              x.payload.toList = List.replicate 181 7) ↔
      (List.replicate 181 (7 : UInt8)).length ≤ MAX_PAYLOAD :=
  blob_delivered_iff exampleSender .text (List.replicate 181 7) .broadcast [.lora, .mqtt] (by decide +kernel)
    (List.cons_ne_nil _ _)

/-- 2 KB are 12 slices on LoRa and 11 on MQTT, but are not planned. -/
theorem blob_refused :
    exampleSender.resolveTargets .broadcast = .ok [.lora, .mqtt] ∧
      (∀ t ∈ [Transport.lora, .mqtt], ((List.replicate 2048 (7 : UInt8)).length +
        min t.maxPayload MAX_PAYLOAD - 1) / min t.maxPayload MAX_PAYLOAD ≤ MAX_FRAGMENTS) ∧
      (exampleSender.planSend .text (List.replicate 2048 7) .broadcast).1 = .error (.protocol .payloadTooLarge) :=
  ⟨by decide +kernel, by decide +kernel, by decide +kernel⟩

end RelayStar

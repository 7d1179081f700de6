import RelayStar.Proof.Path
import RelayStar.Proof.Traffic

/-!
# From the broker into the mesh

A text that is published on the uplink topic crosses the terminal: the frame
made of it is shown and forwarded onto LoRa and ESP-NOW, not back to MQTT
(`filter_fanoutForward`), and a relay that hears the frames of one of these, in
any order, obtains the text (`uplink_crosses`).
-/

namespace RelayStar

namespace Relay

variable {NR NA NF : Nat} {r : Relay NR NA NF} {m : Message} {skip t : Transport}

/-- The frames for other transports are not among these. -/
theorem filter_frames_ne {t' : Transport} (hne : t' ≠ t) (addr : FrameAddr) (l : List Message) :
    (l.map (⟨t', addr, ·⟩ : Message → PlannedFrame)).filter (·.transport = t) = [] :=
  List.filter_eq_nil_iff.mpr fun f hf => by
    obtain ⟨x, -, rfl⟩ := List.mem_map.mp hf
    simpa using hne

theorem filter_frames_self (addr : FrameAddr) (l : List Message) :
    (l.map (⟨t, addr, ·⟩ : Message → PlannedFrame)).filter (·.transport = t) = l.map (⟨t, addr, ·⟩) :=
  List.filter_eq_self.mpr fun f hf => by
    obtain ⟨x, -, rfl⟩ := List.mem_map.mp hf
    exact decide_eq_true rfl

/-- The frames of one transport, in the order of the targets. -/
theorem filter_fanoutTargets (h : m.ttl ≠ 0) {ts : List Transport} (hnd : ts.Nodup) (r : Relay NR NA NF) :
    (t ∉ ts ∨ t = skip → (fanoutTargets m skip ts r).1.filter (·.transport = t) = []) ∧
      (t ∈ ts → t ≠ skip → ∃ g, (fanoutTargets m skip ts r).1.filter (·.transport = t) =
        (Message.framesOn { m with ttl := m.ttl - 1 } t g).map
          (⟨t, if m.isBroadcast then .broadcast else .unicast m.toAddr, ·⟩)) := by
  induction ts generalizing r with
  | nil => exact ⟨fun _ => rfl, fun ht => (by cases ht)⟩
  | cons t' ts ih =>
    obtain ⟨hnt, hnd⟩ := List.nodup_cons.mp hnd
    rw [fanoutTargets]
    by_cases hskip : t' = skip
    · rw [if_pos hskip]
      obtain ⟨hnone, hsome⟩ := ih hnd r
      refine ⟨fun ht => hnone (ht.imp_left fun hn hmem => hn (List.mem_cons_of_mem _ hmem)), fun ht hne => ?_⟩
      exact hsome ((List.mem_cons.mp ht).resolve_left fun e => hne (e.trans hskip)) hne
    · rw [if_neg hskip]
      obtain ⟨out, hp, hout⟩ := r.planForward_relayed h t'
      obtain ⟨hnone, hsome⟩ := ih hnd (r.planForward m t').2
      rw [hp] at hnone hsome ⊢
      dsimp only [plannedFrames] at hnone hsome ⊢
      rw [List.filter_append, hout]
      constructor
      · intro ht
        have hne : t' ≠ t := fun e => by
          subst e
          exact ht.elim (fun hn => hn List.mem_cons_self) hskip
        rw [filter_frames_ne hne, hnone (ht.imp_left fun hn hmem => hn (List.mem_cons_of_mem _ hmem))]
        rfl
      · intro ht hne
        by_cases he : t' = t
        · subst he
          rw [filter_frames_self, hnone (.inl hnt), List.append_nil]
          exact ⟨_, rfl⟩
        · rw [filter_frames_ne he]
          exact hsome ((List.mem_cons.mp ht).resolve_left (Ne.symm he)) hne

/-- A message is forwarded onto every transport but the one it came on. -/
theorem filter_fanoutForward (h : m.ttl ≠ 0) (r : Relay NR NA NF) :
    (r.fanoutForward m skip).1.filter (·.transport = skip) = [] ∧
      ∀ t, t ≠ skip → ∃ g, (r.fanoutForward m skip).1.filter (·.transport = t) =
        (Message.framesOn { m with ttl := m.ttl - 1 } t g).map
          (⟨t, if m.isBroadcast then .broadcast else .unicast m.toAddr, ·⟩) :=
  ⟨(filter_fanoutTargets h (by decide) r).1 (.inr rfl),
    fun t ht => (filter_fanoutTargets h (by decide) r).2 (by cases t <;> decide) ht⟩

/-- A whole broadcast of a new key is shown and forwarded. -/
theorem bridgeStep_whole {source : Transport} (hun : r.seen.contains m.dedupKey = false) (hm : m.frag = none)
    (hb : m.isBroadcast = true) (ho : m.origin = source) :
    ∃ r' : Relay NR NA NF, (r.bridgeStep source m.wire).1 = (some m, (r'.fanoutForward m source).1) := by
  have harrived : m.arrived source = m := by rw [← ho]; rfl
  have hin := r.ingest_new source m.decode_wire_self (SeenCache.not_mem_window hun)
  rw [harrived, r.reassembler.ingest_unfragmented hm] at hin
  refine ⟨(r.ingest source m.wire).2, ?_⟩
  rw [bridgeStep, hin, outcome, r.direct_of_isBroadcast hb]
  dsimp only
  rw [if_pos hb]

end Relay

/-- A text from the broker becomes a frame exactly if it fits one message. Where
the relay has not seen the id when it ingests it, in whatever state it is then,
the text is shown as it came and is not published again; on LoRa and on ESP-NOW
each relay that is ready for its frames and gets them, in any order and any number of
times, obtains the same message with one hop less to go. -/
theorem uplink_crosses {NR NA NF NR' NA' NF' : Nat} (b : Bridge NR NA NF) (text : String) :
    ((∃ raw, (b.uplinkFrame text).1 = some raw) ↔ (asBytes text).length ≤ MAX_PAYLOAD) ∧
    ∀ raw, (b.uplinkFrame text).1 = some raw →
      ∃ m, Message.decode raw.bytes.toList = .ok m ∧ m.payload.toList = asBytes text ∧ m.ttl = DEFAULT_TTL ∧
        ∀ r : Relay NR NA NF, r.seen.contains m.dedupKey = false →
          ∃ frames, (r.bridgeStep raw.source raw.bytes.toList).1 = (some m, frames) ∧
            frames.filter (·.transport = .mqtt) = [] ∧
            ∀ t, t ≠ .mqtt → ∀ r' : Relay NR' NA' NF', r'.Reachable → r'.Ready (frames.filter (·.transport = t)) →
              ∀ l, (∀ c, c ∈ l ↔ c ∈ calls (frames.filter (·.transport = t))) →
                (run Relay.receive r' l).1.filterMap delivered = [{ m with ttl := m.ttl - 1, origin := t }] := by
  constructor
  · constructor
    · rintro ⟨raw, h⟩
      obtain ⟨p, hp, -⟩ := Bridge.uplinkFrame_eq_some.mp h
      rw [← hp]
      exact p.length_le
    · intro hlen
      let m : Message :=
        ⟨b.relay.nextId.1, DEFAULT_TTL, .mqtt, CARD_ADDR, BROADCAST_ADDR, .text, ⟨asBytes text, hlen⟩, none⟩
      exact ⟨⟨.mqtt, ⟨m.wire, Nat.le_trans m.length_wire (by decide)⟩⟩,
        Bridge.uplinkFrame_eq_some.mpr ⟨⟨asBytes text, hlen⟩, rfl, rfl, rfl⟩⟩
  · intro raw h
    obtain ⟨p, hp, hs, hwire⟩ := Bridge.uplinkFrame_eq_some.mp h
    generalize hm : (⟨b.relay.nextId.1, DEFAULT_TTL, .mqtt, CARD_ADDR, BROADCAST_ADDR, .text, p, none⟩ : Message) = m
      at hwire
    have hfrag : m.frag = none := by rw [← hm]
    have hb : m.isBroadcast = true := by rw [← hm]; rfl
    have httl : m.ttl ≠ 0 := by rw [← hm]; exact (by decide : DEFAULT_TTL ≠ 0)
    refine ⟨m, by rw [hwire, Message.decode_wire_self], by rw [← hm]; exact hp, by rw [← hm], fun r hun => ?_⟩
    obtain ⟨r₁, hturn⟩ := @Relay.bridgeStep_whole _ _ _ r m .mqtt hun hfrag hb (by rw [← hm])
    obtain ⟨hnone, hsome⟩ := @Relay.filter_fanoutForward _ _ _ m .mqtt httl r₁
    refine ⟨_, by rw [hwire, hs]; exact hturn, hnone, fun t ht r' hreach hr l hl => ?_⟩
    obtain ⟨g, hframes⟩ := hsome t ht
    rw [hframes] at hr hl
    exact hr.delivered_framesOn (m := { m with ttl := m.ttl - 1 }) (Relay.reachable_inv hreach) hfrag hl

end RelayStar

import RelayStar.Impl.Bridge
import RelayStar.Proof.Planning
import RelayStar.Proof.Reachable

/-!
# One turn of the bridge

What is forwarded is the message that was handed over, with one hop less to go
(`mem_fanoutForward`), in at most two frames on each of two transports
(`length_fanoutForward`); nothing else is forwarded (`bridgeStep_cases`). Of
several copies of one message only the first to arrive is forwarded, whatever
hops the others have left (`reach_of_first_copy`).
-/

namespace RelayStar

/-- One hop less. -/
theorem toNat_sub_one {n : UInt8} (h : n ≠ 0) : (n - 1).toNat = n.toNat - 1 := by
  have h0 : n.toNat ≠ 0 := fun e => h (UInt8.toNat_inj.mp e)
  have := n.toNat_lt
  rw [UInt8.toNat_sub, show (1 : UInt8).toNat = 1 from rfl]
  omega

theorem Message.ttl_framesOn {m x : Message} {t : Transport} {g : UInt32} (h : x ∈ m.framesOn t g) :
    x.ttl = m.ttl := by
  rw [mem_framesOn h]

namespace Relay

variable {NR NA NF : Nat} {r : Relay NR NA NF} {m : Message} {skip : Transport}

/-! ## What is forwarded -/

/-- The frames for one transport: none exactly if the message has no hop to go,
and otherwise those of the message with one hop less. -/
theorem plannedFrames_eq_nil_iff (r : Relay NR NA NF) (m : Message) (t : Transport) :
    plannedFrames (r.planForward m t).1 = [] ↔ m.ttl = 0 := by
  obtain ⟨out, hp, hout⟩ := r.planForward_total m t
  rw [hp]
  exact hout

theorem mem_plannedFrames {t : Transport} {f : PlannedFrame} (h : f ∈ plannedFrames (r.planForward m t).1) :
    m.ttl ≠ 0 ∧ f.message.ttl = m.ttl - 1 := by
  have hne : m.ttl ≠ 0 := fun h0 => by
    rw [(r.plannedFrames_eq_nil_iff m t).mpr h0] at h
    cases h
  obtain ⟨out, hp, hout⟩ := r.planForward_relayed hne t
  rw [hp, show plannedFrames (.ok out) = out.toList from rfl, hout] at h
  obtain ⟨x, hx, rfl⟩ := List.mem_map.mp h
  exact ⟨hne, Message.ttl_framesOn hx⟩

theorem length_plannedFrames (r : Relay NR NA NF) (m : Message) (t : Transport) :
    (plannedFrames (r.planForward m t).1).length ≤ 2 := by
  by_cases h : m.ttl = 0
  · rw [(r.plannedFrames_eq_nil_iff m t).mpr h]
    exact Nat.zero_le 2
  · obtain ⟨out, hp, hout⟩ := r.planForward_relayed h t
    rw [hp, show plannedFrames (.ok out) = out.toList from rfl, hout, List.length_map]
    exact Message.length_framesOn ..

theorem mem_fanoutTargets {ts : List Transport} {f : PlannedFrame} (h : f ∈ (fanoutTargets m skip ts r).1) :
    m.ttl ≠ 0 ∧ f.message.ttl = m.ttl - 1 := by
  induction ts generalizing r with
  | nil => cases h
  | cons t ts ih =>
    rw [fanoutTargets] at h
    split at h
    · exact ih h
    · rcases List.mem_append.mp h with h | h
      · exact mem_plannedFrames h
      · exact ih h

theorem length_fanoutTargets (ts : List Transport) (r : Relay NR NA NF) :
    (fanoutTargets m skip ts r).1.length ≤ 2 * ts.countP (· ≠ skip) := by
  induction ts generalizing r with
  | nil => exact Nat.le_refl 0
  | cons t ts ih =>
    rw [fanoutTargets]
    by_cases ht : t = skip
    · rw [if_pos ht, List.countP_cons_of_neg (by simpa using ht)]
      exact ih r
    · rw [if_neg ht, List.countP_cons_of_pos (by simpa using ht)]
      have hlen := r.length_plannedFrames m t
      have := ih (r.planForward m t).2
      show (_ ++ _ : List PlannedFrame).length ≤ _
      rw [List.length_append]
      omega

theorem fanoutTargets_ne_nil (h : m.ttl ≠ 0) {ts : List Transport} (hts : ∃ t ∈ ts, t ≠ skip)
    (r : Relay NR NA NF) : (fanoutTargets m skip ts r).1 ≠ [] := by
  induction ts generalizing r with
  | nil => obtain ⟨t, ht, -⟩ := hts; cases ht
  | cons t ts ih =>
    rw [fanoutTargets]
    by_cases ht : t = skip
    · rw [if_pos ht]
      obtain ⟨t', ht', hne⟩ := hts
      exact ih ⟨t', (List.mem_cons.mp ht').resolve_left fun e => hne (e ▸ ht), hne⟩ r
    · rw [if_neg ht]
      exact List.append_ne_nil_of_left_ne_nil (fun hn => h ((r.plannedFrames_eq_nil_iff m t).mp hn)) _

/-- A forwarded frame has one hop less to go. -/
theorem mem_fanoutForward {f : PlannedFrame} (h : f ∈ (r.fanoutForward m skip).1) :
    m.ttl ≠ 0 ∧ f.message.ttl = m.ttl - 1 := mem_fanoutTargets h

/-- At most two frames on each of two transports. -/
theorem length_fanoutForward (r : Relay NR NA NF) (m : Message) (skip : Transport) :
    (r.fanoutForward m skip).1.length ≤ 4 := by
  refine Nat.le_trans (length_fanoutTargets Transport.ALL r) ?_
  cases skip <;> decide

theorem fanoutForward_eq_nil_iff : (r.fanoutForward m skip).1 = [] ↔ m.ttl = 0 := by
  constructor
  · intro h
    by_contra hne
    refine fanoutTargets_ne_nil hne ?_ r h
    cases skip with
    | lora => exact ⟨.mqtt, by decide⟩
    | mqtt => exact ⟨.lora, by decide⟩
    | espNow => exact ⟨.lora, by decide⟩
  · intro h
    exact List.eq_nil_iff_forall_not_mem.mpr fun f hf => (mem_fanoutForward hf).1 h

/-- Forwarding leaves the receiving side alone. -/
theorem SameInbox.fanoutTargets (m : Message) (skip : Transport) (ts : List Transport) (r : Relay NR NA NF) :
    SameInbox r (fanoutTargets m skip ts r).2 := by
  induction ts generalizing r with
  | nil => exact refl r
  | cons t ts ih =>
    rw [Relay.fanoutTargets]
    split
    · exact ih r
    · exact (planForward r m t).trans (ih _)

theorem SameInbox.fanoutForward (r : Relay NR NA NF) (m : Message) (skip : Transport) :
    SameInbox r (r.fanoutForward m skip).2 := .fanoutTargets m skip Transport.ALL r

/-! ## One turn -/

/-- What a turn forwards: nothing, or what `ingest` handed over. -/
theorem bridgeStep_cases (r : Relay NR NA NF) (source : Transport) (bytes : List UInt8) :
    ((r.bridgeStep source bytes).1.2 = [] ∧ (r.bridgeStep source bytes).2 = (r.ingest source bytes).2) ∨
      ∃ m, delivered (r.ingest source bytes).1 = some m ∧
        (r.bridgeStep source bytes).1.2 = ((r.ingest source bytes).2.fanoutForward m source).1 ∧
        (r.bridgeStep source bytes).2 = ((r.ingest source bytes).2.fanoutForward m source).2 := by
  rw [bridgeStep]
  cases r.ingest source bytes with
  | mk res r' =>
    cases res with
    | error e => exact Or.inl ⟨rfl, rfl⟩
    | ok o =>
      cases o with
      | complete m =>
        dsimp only
        split
        · exact Or.inr ⟨m, rfl, rfl, rfl⟩
        · exact Or.inl ⟨rfl, rfl⟩
      | notForMe m => exact Or.inr ⟨m, rfl, rfl, rfl⟩
      | duplicate => exact Or.inl ⟨rfl, rfl⟩
      | buffered => exact Or.inl ⟨rfl, rfl⟩
      | dropped reason => exact Or.inl ⟨rfl, rfl⟩

/-- A message that is broadcast, or for another node, is forwarded. -/
theorem bridgeStep_direct {r r' : Relay NR NA NF} {source : Transport} {bytes : List UInt8}
    (h : (r.ingest source bytes).1 = .ok (r'.direct m)) (hfwd : m.isBroadcast = true ∨ m.toAddr ≠ r'.selfAddr) :
    (r.bridgeStep source bytes).1.2 = ((r.ingest source bytes).2.fanoutForward m source).1 ∧
      (r.bridgeStep source bytes).2 = ((r.ingest source bytes).2.fanoutForward m source).2 := by
  rw [bridgeStep]
  cases hin : r.ingest source bytes with
  | mk res r'' =>
    rw [hin] at h
    obtain rfl : res = .ok (r'.direct m) := h
    by_cases hto : m.toAddr = r'.selfAddr ∨ m.isBroadcast = true
    · have hb : m.isBroadcast = true := hfwd.elim id fun hne => hto.resolve_left hne
      rw [direct, if_pos hto]
      dsimp only
      rw [if_pos hb]
      exact ⟨rfl, rfl⟩
    · rw [direct, if_neg hto]
      exact ⟨rfl, rfl⟩

section Copies

variable {bytes : List UInt8} (source : Transport) (h : Message.decode bytes = .ok m)

include h

/-- A frame of a known key forwards nothing. -/
theorem bridgeStep_known (hk : some m.dedupKey ∈ r.seen.window) :
    (r.bridgeStep source bytes).1.2 = [] ∧ (r.bridgeStep source bytes).2.seen = r.seen := by
  rw [bridgeStep, r.ingest_known source h hk]
  exact ⟨rfl, rfl⟩

/-- A whole message that is broadcast, or for another node, is forwarded. -/
theorem bridgeStep_new (hk : some m.dedupKey ∉ r.seen.window) (hm : m.frag = none)
    (hfwd : m.isBroadcast = true ∨ m.toAddr ≠ r.selfAddr) :
    ∃ r' : Relay NR NA NF, (r.bridgeStep source bytes).1.2 = (r'.fanoutForward (m.arrived source) source).1 ∧
      (r.bridgeStep source bytes).2.seen = r.seen.insert m.dedupKey := by
  have hin := r.ingest_new source h hk
  rw [r.reassembler.ingest_unfragmented (m := m.arrived source) hm] at hin
  obtain ⟨h1, h2⟩ := bridgeStep_direct (congrArg Prod.fst hin) hfwd
  refine ⟨_, h1, ?_⟩
  rw [h2, (SameInbox.fanoutForward ..).seen, hin]

end Copies

/-! ## Copies with different hop budgets -/

/-- A turn on a copy of `m`, with its transport and its ttl. -/
def bridgeCopy (m : Message) (r : Relay NR NA NF) (c : Transport × UInt8) :
    (Option Message × List PlannedFrame) × Relay NR NA NF :=
  r.bridgeStep c.1 (Message.wire { m with ttl := c.2 })

/-- The frames that are forwarded while copies arrive. -/
def forwardCopies (r : Relay NR NA NF) (m : Message) (l : List (Transport × UInt8)) : List PlannedFrame :=
  (run (bridgeCopy m) r l).1.flatMap Prod.snd

/-- Copies of a known key forward nothing. -/
theorem forwardCopies_known (hk : some m.dedupKey ∈ r.seen.window) (l : List (Transport × UInt8)) :
    r.forwardCopies m l = [] := by
  induction l generalizing r with
  | nil => rfl
  | cons c l ih =>
    obtain ⟨h1, h2⟩ := r.bridgeStep_known c.1 (Message.decode_wire_self { m with ttl := c.2 }) hk
    rw [forwardCopies, run_cons, List.flatMap_cons, show (bridgeCopy m r c).1.2 = [] from h1, List.nil_append]
    apply ih
    rw [show (bridgeCopy m r c).2.seen = r.seen from h2]
    exact hk

end Relay

theorem max?_eq_of_forall {l : List Nat} {n : Nat} (hne : l ≠ []) (h : ∀ a ∈ l, a = n) : l.max? = some n := by
  rw [List.max?_eq_some_iff]
  obtain ⟨a, ha⟩ := List.exists_mem_of_ne_nil l hne
  exact ⟨h a ha ▸ ha, fun b hb => Nat.le_of_eq (h b hb)⟩

/-- Copies of one message with different hop budgets arrive, none of them known:
the largest budget among the frames that are forwarded is that of the copy that
arrives first, less one, and nothing is forwarded if that copy has none. -/
theorem reach_of_first_copy {NR NA NF : Nat} (r : Relay NR NA NF) (m : Message) (hm : m.frag = none)
    (hfwd : m.isBroadcast = true ∨ m.toAddr ≠ r.selfAddr) (hun : r.seen.contains m.dedupKey = false)
    (first : Transport × UInt8) (rest : List (Transport × UInt8)) :
    ((r.forwardCopies m (first :: rest)).map fun f => f.message.ttl.toNat).max? =
      if first.2 = 0 then none else some (first.2.toNat - 1) := by
  rw [← Bool.not_eq_true, SeenCache.contains_iff] at hun
  obtain ⟨r', h1, h2⟩ := r.bridgeStep_new first.1 (Message.decode_wire_self { m with ttl := first.2 }) hun hm hfwd
  have hrest : (r.bridgeCopy m first).2.forwardCopies m rest = [] := by
    apply Relay.forwardCopies_known
    rw [show (r.bridgeCopy m first).2.seen = r.seen.insert m.dedupKey from h2, SeenCache.window_insert,
      List.take_succ_cons]
    exact List.mem_cons_self
  have hfirst : r.forwardCopies m (first :: rest) =
      (r'.fanoutForward (Message.arrived { m with ttl := first.2 } first.1) first.1).1 := by
    rw [Relay.forwardCopies, run_cons, List.flatMap_cons]
    exact (congrArg _ hrest).trans ((List.append_nil _).trans h1)
  rw [hfirst]
  split
  · rename_i h0
    rw [Relay.fanoutForward_eq_nil_iff.mpr h0]
    rfl
  · rename_i h0
    apply max?_eq_of_forall
    · rw [ne_eq, List.map_eq_nil_iff, Relay.fanoutForward_eq_nil_iff]
      exact h0
    · intro n hn
      obtain ⟨f, hf, rfl⟩ := List.mem_map.mp hn
      rw [(Relay.mem_fanoutForward hf).2]
      exact toNat_sub_one h0

/-- A broadcast of five bytes. -/
def exampleHello : Message :=
  ⟨7, 4, .lora, nodeAddr 9, BROADCAST_ADDR, .text, ⟨[104, 101, 108, 108, 111], by decide⟩, none⟩

theorem reach_of_first_copy_exhausted :
    (((Relay.new (nodeAddr 2) 512 : Relay 1 1 2).forwardCopies exampleHello [(.lora, 0), (.mqtt, 4)]).map
        fun f => f.message.ttl.toNat).max? =
      if (0 : UInt8) = 0 then none else some ((0 : UInt8).toNat - 1) :=
  reach_of_first_copy (Relay.new (nodeAddr 2) 512 : Relay 1 1 2) exampleHello rfl (Or.inl (by decide))
    (SeenCache.contains_new _) (.lora, 0) [(.mqtt, 4)]

/-- A copy with no hop left that comes first keeps the others from being
forwarded; in the other order they are. -/
theorem reach_shrinks :
    exampleHello.frag = none ∧ exampleHello.isBroadcast = true ∧
      (Relay.new (nodeAddr 2) 512 : Relay 1 1 2).seen.contains exampleHello.dedupKey = false ∧
      (Relay.new (nodeAddr 2) 512 : Relay 1 1 2).forwardCopies exampleHello [(.lora, 0), (.mqtt, 4)] = [] ∧
      (((Relay.new (nodeAddr 2) 512 : Relay 1 1 2).forwardCopies exampleHello [(.mqtt, 4), (.lora, 0)]).map
        fun f => f.message.ttl.toNat).max? = some 3 :=
  ⟨rfl, by decide, SeenCache.contains_new _, by decide +kernel, by decide +kernel⟩

end RelayStar

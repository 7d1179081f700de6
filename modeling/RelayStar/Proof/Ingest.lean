import Mathlib.Data.List.Perm.Subperm
import RelayStar.Framework.Machine
import RelayStar.Proof.Proto
import RelayStar.Proof.Reassembler

/-!
# Ingesting frames

What one call of `Relay.ingest` does: a frame of a known key is answered
`Duplicate` (`ingest_known`), another is recorded and given to the reassembler
(`ingest_new`). Over a run on frames with few keys, none of them known at the
start, the relay is the reassembler behind a filter: apart from the duplicates
its answers are those of the reassembler to the first frame of each key
(`run_receive`).
-/

namespace RelayStar

/-- A message as it is handled when its frame arrives from `source`. -/
def Message.arrived (m : Message) (source : Transport) : Message := { m with origin := source }

@[simp] theorem Message.dedupKey_arrived (m : Message) (source : Transport) :
    (m.arrived source).dedupKey = m.dedupKey := rfl

/-- The address of node `k`. -/
def nodeAddr (k : UInt8) : Addr := #v[k, 0, 0, 0, 0, 0]

namespace Relay

variable {NR NA NF : Nat}

/-! ## One call -/

section Call

variable (r : Relay NR NA NF) (source : Transport) {frame : List UInt8}

theorem ingest_error {e : ProtoError} (h : Message.decode frame = .error e) :
    r.ingest source frame = (.error (.protocol e), r) := by
  rw [ingest, h]

variable {m : Message}

theorem ingest_known (h : Message.decode frame = .ok m) (hk : some m.dedupKey ∈ r.seen.window) :
    r.ingest source frame =
      (.ok .duplicate, { r with receivers := r.learnSender (m.arrived source) source }) := by
  simp only [ingest, h]
  rw [show ({ m with origin := source } : Message).dedupKey = m.dedupKey from rfl,
    SeenCache.checkAndInsert_of_mem hk]
  rfl

theorem ingest_new (h : Message.decode frame = .ok m) (hk : some m.dedupKey ∉ r.seen.window) :
    r.ingest source frame =
      (.ok (r.outcome (r.reassembler.ingest (m.arrived source)).1),
        { r with
          receivers := r.learnSender (m.arrived source) source
          seen := r.seen.insert m.dedupKey
          reassembler := (r.reassembler.ingest (m.arrived source)).2 }) := by
  simp only [ingest, h]
  rw [show ({ m with origin := source } : Message).dedupKey = m.dedupKey from rfl,
    SeenCache.checkAndInsert_of_not_mem hk]
  rfl

end Call

/-- The outcome depends on the address of the relay only. -/
theorem outcome_congr {r r' : Relay NR NA NF} (h : r.selfAddr = r'.selfAddr) : r.outcome = r'.outcome := by
  funext o
  cases o <;> simp only [outcome, direct, h]

theorem outcome_ne_duplicate (r : Relay NR NA NF) (o : ReassembleOutcome) : r.outcome o ≠ .duplicate := by
  cases o <;> simp only [outcome, direct] <;> (try split) <;> exact fun h => by cases h

/-! ## A run -/

/-- Ingest the bytes of a message. -/
def receive (r : Relay NR NA NF) (c : Transport × Message) : Except RelayError IngestOutcome × Relay NR NA NF :=
  r.ingest c.1 c.2.wire

theorem direct_of_isBroadcast (r : Relay NR NA NF) {m : Message} (h : m.isBroadcast = true) :
    r.direct m = .complete m := if_pos (Or.inr h)

/-- A whole message of a new key. -/
theorem receive_new_whole (r : Relay NR NA NF) {c : Transport × Message}
    (hk : some c.2.dedupKey ∉ r.seen.window) (hc : c.2.frag = none) :
    (r.receive c).1 = .ok (r.direct (c.2.arrived c.1)) ∧ (r.receive c).2.seen = r.seen.insert c.2.dedupKey ∧
      (r.receive c).2.reassembler = r.reassembler := by
  rw [receive, r.ingest_new c.1 c.2.decode_wire_self hk,
    r.reassembler.ingest_unfragmented (m := c.2.arrived c.1) hc]
  exact ⟨rfl, rfl, rfl⟩

end Relay

/-- The reassembler alone. -/
def Reassembler.receive {SLOTS PER_SLOT : Nat} (r : Reassembler SLOTS PER_SLOT) (c : Transport × Message) :
    ReassembleOutcome × Reassembler SLOTS PER_SLOT := r.ingest (c.2.arrived c.1)

/-- The key of a received message. -/
def callKey (c : Transport × Message) : UInt32 := c.2.dedupKey

/-- The message a reassembler hands over, if it does. -/
def ReassembleOutcome.delivered : ReassembleOutcome → Option Message
  | passthrough m => some m
  | complete m => some m
  | _ => none

/-- The message a relay hands over, if it does. -/
def delivered : Except RelayError IngestOutcome → Option Message
  | .ok (.complete m) => some m
  | .ok (.notForMe m) => some m
  | _ => none

def isDuplicate : Except RelayError IngestOutcome → Bool
  | .ok .duplicate => true
  | _ => false

namespace Relay

variable {NR NA NF : Nat}

theorem isDuplicate_outcome (r : Relay NR NA NF) (o : ReassembleOutcome) :
    isDuplicate (.ok (r.outcome o)) = false := by
  have := r.outcome_ne_duplicate o
  cases h : r.outcome o <;> first | rfl | exact absurd h this

theorem delivered_direct (r : Relay NR NA NF) (m : Message) : delivered (.ok (r.direct m)) = some m := by
  rw [direct]; split <;> rfl

theorem delivered_outcome (r : Relay NR NA NF) (o : ReassembleOutcome) :
    delivered (.ok (r.outcome o)) = o.delivered := by
  cases o with
  | passthrough m => exact r.delivered_direct m
  | complete m => exact r.delivered_direct m
  | buffered => rfl
  | dropped reason => rfl

theorem eq_of_isDuplicate {o : Except RelayError IngestOutcome} (h : isDuplicate o = true) :
    o = .ok .duplicate := by
  unfold isDuplicate at h
  split at h
  · rfl
  · cases h

theorem filterMap_delivered (os : List (Except RelayError IngestOutcome)) :
    (os.filter fun o => !isDuplicate o).filterMap delivered = os.filterMap delivered := by
  rw [List.filterMap_filter]
  refine List.filterMap_congr fun o _ => ?_
  cases h : isDuplicate o with
  | false => rfl
  | true => rw [eq_of_isDuplicate h]; rfl

/-- What a run answers, if the reassembler behind it buffers all frames but one. -/
theorem split_of_filter {r : Relay NR NA NF} {os : List (Except RelayError IngestOutcome)}
    {x y : List ReassembleOutcome} {o : ReassembleOutcome} (hxy : ∀ o ∈ x ++ y, o = .buffered)
    (h : os.filter (fun o => !isDuplicate o) = (x ++ o :: y).map fun o => .ok (r.outcome o)) :
    ∃ pre post, os = pre ++ .ok (r.outcome o) :: post ∧
      ∀ e ∈ pre ++ post, e = .ok .buffered ∨ e = .ok .duplicate := by
  have hmem : ∀ z : List ReassembleOutcome, (∀ o ∈ z, o = .buffered) → ∀ os : List (Except _ _),
      os.filter (fun o => !isDuplicate o) = z.map (fun o => .ok (r.outcome o)) →
      ∀ e ∈ os, e = .ok .buffered ∨ e = .ok .duplicate := by
    intro z hz os h e he
    cases hd : isDuplicate e with
    | true => exact Or.inr (eq_of_isDuplicate hd)
    | false =>
      have hf : e ∈ os.filter fun o => !isDuplicate o := List.mem_filter.mpr ⟨he, by rw [hd]; rfl⟩
      rw [h] at hf
      obtain ⟨b, hb, rfl⟩ := List.mem_map.mp hf
      rw [hz b hb]
      exact Or.inl rfl
  rw [List.map_append, List.map_cons, List.filter_eq_append_iff] at h
  obtain ⟨pre, rest, rfl, hpre, hrest⟩ := h
  obtain ⟨mid, post, rfl, hmid, hd, hpost⟩ := List.filter_eq_cons_iff.mp hrest
  refine ⟨pre ++ mid, post, (List.append_assoc ..).symm, fun e he => ?_⟩
  rcases List.mem_append.mp he with he | he
  · rcases List.mem_append.mp he with he | he
    · exact hmem x (fun o ho => hxy o (List.mem_append_left _ ho)) pre hpre e he
    · refine Or.inr (eq_of_isDuplicate ?_)
      have := hmid e he
      rwa [Bool.not_eq_true', Bool.not_eq_false] at this
  · exact hmem y (fun o ho => hxy o (List.mem_append_right _ ho)) post hpost e he

/-- The relay `r` after recording `keys`, the newest first, behind which `t` is. -/
structure Behind (r₀ : Relay NR NA NF) (keys : List UInt32) (r : Relay NR NA NF) (t : Reassembler NA NF) :
    Prop where
  reassembler : r.reassembler = t
  selfAddr : r.selfAddr = r₀.selfAddr
  nodup : keys.Nodup
  window : r.seen.window = (keys.map some ++ r₀.seen.window).take 64

section Run

variable {r₀ r : Relay NR NA NF} {K keys : List UInt32} {t : Reassembler NA NF} {c : Transport × Message}

theorem Behind.known (h : Behind r₀ keys r t) (hlen : keys.length ≤ 64) (hc : callKey c ∈ keys) :
    isDuplicate (r.receive c).1 = true ∧ Behind r₀ keys (r.receive c).2 t := by
  have hw : some c.2.dedupKey ∈ r.seen.window := by
    rw [h.window, List.take_append, List.mem_append]
    apply Or.inl
    rw [List.take_of_length_le (by rw [List.length_map]; exact hlen)]
    exact List.mem_map.mpr ⟨_, hc, rfl⟩
  rw [receive, ingest_known r c.1 c.2.decode_wire_self hw]
  exact ⟨rfl, h.reassembler, h.selfAddr, h.nodup, h.window⟩

theorem Behind.new (h : Behind r₀ keys r t) (hc : callKey c ∉ keys)
    (hun : some (callKey c) ∉ r₀.seen.window) :
    (r.receive c).1 = .ok (r₀.outcome (t.receive c).1) ∧
      Behind r₀ (callKey c :: keys) (r.receive c).2 (t.receive c).2 := by
  have hw : some c.2.dedupKey ∉ r.seen.window := by
    rw [h.window]
    intro hmem
    rcases List.mem_append.mp (List.mem_of_mem_take hmem) with hk | hk
    · obtain ⟨k, hk, e⟩ := List.mem_map.mp hk
      cases e
      exact hc hk
    · exact hun hk
  rw [receive, ingest_new r c.1 c.2.decode_wire_self hw, outcome_congr h.selfAddr, h.reassembler]
  refine ⟨rfl, rfl, h.selfAddr, List.nodup_cons.mpr ⟨hc, h.nodup⟩, ?_⟩
  rw [SeenCache.window_insert, h.window]
  simp only [List.map_cons, List.cons_append, List.take_succ_cons, List.take_take]
  rfl

/-- Frames of distinct new keys. -/
theorem Behind.run_new (h : Behind r₀ keys r t) {l : List (Transport × Message)} (hl : (l.map callKey).Nodup)
    (hk : ∀ c ∈ l, callKey c ∉ keys ∧ some (callKey c) ∉ r₀.seen.window) :
    Behind r₀ ((l.map callKey).reverse ++ keys) (run receive r l).2 (run Reassembler.receive t l).2 := by
  induction l generalizing keys r t with
  | nil => exact h
  | cons c l ih =>
    rw [List.map_cons, List.nodup_cons] at hl
    obtain ⟨hc, hun⟩ := hk c List.mem_cons_self
    have := ih (h.new hc hun).2 hl.2 fun c' hc' => by
      obtain ⟨h₁, h₂⟩ := hk c' (List.mem_cons_of_mem _ hc')
      refine ⟨fun hmem => ?_, h₂⟩
      rcases List.mem_cons.mp hmem with e | hmem
      · exact hl.1 (e ▸ List.mem_map_of_mem hc')
      · exact h₁ hmem
    rwa [List.map_cons, List.reverse_cons, List.append_assoc]

theorem Behind.refl (r : Relay NR NA NF) : Behind r [] r r.reassembler where
  reassembler := rfl
  selfAddr := rfl
  nodup := List.nodup_nil
  window := by
    rw [List.map_nil, List.nil_append, List.take_of_length_le]
    exact Nat.le_of_eq r.seen.length_window

/-- The relay guards its reassembler, as long as all keys fit its window. -/
theorem guards (hK : K.length ≤ 64) (hun : ∀ k ∈ K, some k ∉ r.seen.window) :
    Guards callKey receive Reassembler.receive (fun o => .ok (r.outcome o)) isDuplicate
      (fun keys s t => Behind r keys s t ∧ ∀ k ∈ keys, k ∈ K) (fun c => callKey c ∈ K) where
  out_new := r.isDuplicate_outcome
  known keys s t c _ hR hc := by
    have hlen := (List.subperm_of_subset hR.1.nodup fun k hk => hR.2 k hk).length_le
    obtain ⟨ho, hB⟩ := hR.1.known (Nat.le_trans hlen hK) hc
    exact ⟨ho, hB, hR.2⟩
  new keys s t c hcK hR hc := by
    obtain ⟨ho, hB⟩ := hR.1.new hc (hun _ hcK)
    exact ⟨ho, hB, fun k hk => (List.mem_cons.mp hk).elim (fun e => e ▸ hcK) (hR.2 k)⟩

/-- On frames with at most 64 keys, none of them known, the relay is a filter
in front of its reassembler. -/
theorem run_receive (hK : K.length ≤ 64) (hun : ∀ k ∈ K, some k ∉ r.seen.window)
    {l : List (Transport × Message)} (hl : ∀ c ∈ l, callKey c ∈ K) :
    (run receive r l).1.filter (fun o => !isDuplicate o) =
        (run Reassembler.receive r.reassembler (firsts callKey [] l)).1.map (fun o => .ok (r.outcome o)) ∧
      (run receive r l).2.reassembler =
        (run Reassembler.receive r.reassembler (firsts callKey [] l)).2 := by
  obtain ⟨ho, keys, hB, -⟩ := run_filter_firsts (guards hK hun) hl
    ⟨Behind.refl r, fun k (hk : k ∈ []) => by cases hk⟩
  exact ⟨ho, hB.reassembler⟩

/-- As `run_receive`, of the messages handed over. -/
theorem delivered_run (hK : K.length ≤ 64) (hun : ∀ k ∈ K, some k ∉ r.seen.window)
    {l : List (Transport × Message)} (hl : ∀ c ∈ l, callKey c ∈ K) :
    (run receive r l).1.filterMap delivered =
      (run Reassembler.receive r.reassembler (firsts callKey [] l)).1.filterMap
        ReassembleOutcome.delivered := by
  rw [← filterMap_delivered, (run_receive hK hun hl).1, List.filterMap_map]
  exact List.filterMap_congr fun o _ => r.delivered_outcome o

end Run

end Relay

end RelayStar

import Mathlib.Algebra.BigOperators.Fin
import RelayStar.Proof.Bridge
import RelayStar.Spec.Mesh

/-!
# Relay storms die out

Forwarding a message that has `ttl` hops left leads to at most `share b ttl`
receptions in all, if one turn leads to at most `b`. A reception to come counts
its own share, and a slot in use that of the message it will deliver, whose
hops are those of the slice that claimed it (`Slot.share`). Ingesting a frame
moves a share from the frame or from a slot to what is handed over
(`Reassembler.share_ingest`), so every step of a mesh lowers the sum
(`Mesh.potential_lt`), without any help from the seen caches.
-/

namespace RelayStar

/-- The receptions that forwarding a message with `ttl` hops left can lead to,
when one turn leads to at most `b`. -/
def share (b : Nat) : Nat → Nat
  | 0 => 0
  | ttl + 1 => b * (share b ttl + 1)

/-- The share of a message that is handed over, if there is one. -/
def shareOf (b : Nat) (o : Option Message) : Nat := (o.map fun m => share b m.ttl.toNat).getD 0

variable {b : Nat}

/-! ## Slots -/

namespace Slot

variable {PER_SLOT : Nat} {s : Slot PER_SLOT}

/-- The share of the message a slot will deliver. -/
def share (b : Nat) (s : Slot PER_SLOT) : Nat := if s.inUse then shareOf b s.template else 0

theorem share_of_not_inUse (h : s.inUse = false) : s.share b = 0 := by
  rw [share, h]; rfl

theorem share_of_inUse (h : s.inUse = true) : s.share b = shareOf b s.template := if_pos h

/-- What a slot delivers has the hops of its template, or else those of the
slice that completes it. -/
theorem share_assemble (s : Slot PER_SLOT) (m : Message) :
    shareOf b (s.assemble m).1.delivered + (s.assemble m).2.share b ≤
      if s.template.isSome then shareOf b s.template else shareOf b (some m) := by
  rw [assemble]
  cases (HVec.empty : Payload).extendAll ((List.range s.total.toNat).map fun k => (s.bucket k).toList) with
  | none => exact Nat.zero_le _
  | some a =>
    cases ht : s.template with
    | none => exact Nat.le_refl _
    | some t => exact Nat.le_refl _

/-- A slice is accepted. -/
theorem share_accept (hu : s.inUse = true) (f : Fragment) (m : Message) :
    shareOf b (s.accept f m).1.delivered + (s.accept f m).2.share b ≤
      if s.template.isSome then shareOf b s.template else shareOf b (some m) := by
  have hself : s.share b ≤ if s.template.isSome then shareOf b s.template else shareOf b (some m) := by
    rw [share_of_inUse hu]
    cases s.template with
    | none => exact Nat.zero_le _
    | some t => exact Nat.le_refl _
  rw [accept]
  split
  · exact Nat.le_trans (Nat.le_of_eq (Nat.zero_add _)) hself
  · split
    · exact Nat.zero_le _
    · dsimp only
      split
      · exact Nat.le_trans (Nat.le_of_eq (Nat.zero_add _)) hself
      · exact share_assemble (s.store f.seq _) m

end Slot

/-! ## Reassemblers -/

/-- Changing one summand. -/
theorem sum_update_add {ι : Type} [Fintype ι] [DecidableEq ι] (f : ι → Nat) (i : ι) (n : Nat) :
    (∑ j, Function.update f i n j) + f i = (∑ j, f j) + n := by
  rw [Finset.sum_update_of_mem (Finset.mem_univ i), ← Finset.add_sum_erase Finset.univ f (Finset.mem_univ i),
    Finset.sdiff_singleton_eq_erase]
  omega

namespace Reassembler

variable {SLOTS PER_SLOT : Nat} {r : Reassembler SLOTS PER_SLOT}

/-- The shares of the slots. -/
def share (b : Nat) (r : Reassembler SLOTS PER_SLOT) : Nat := ∑ i, (r.slots.get i).share b

theorem share_setSlot (r : Reassembler SLOTS PER_SLOT) (i : Fin SLOTS) (s : Slot PER_SLOT) :
    (r.setSlot i s).share b + (r.slots.get i).share b = r.share b + s.share b := by
  have h : (fun j => ((r.setSlot i s).slots.get j).share b) =
      Function.update (fun j => (r.slots.get j).share b) i (s.share b) := funext fun j => by
    rw [slots_setSlot, Function.update_apply]
    split <;> rfl
  rw [share, h]
  exact sum_update_add (fun j => (r.slots.get j).share b) i (s.share b)

/-- Ingesting a message: what is handed over was paid for, by the message or by
a slot. -/
theorem share_ingest (r : Reassembler SLOTS PER_SLOT) (m : Message) :
    shareOf b (r.ingest m).1.delivered + (r.ingest m).2.share b ≤ shareOf b (some m) + r.share b := by
  rw [ingest]
  split
  · exact Nat.le_refl _
  · rename_i f _
    split
    · exact Nat.add_le_add_right (Nat.zero_le _) _
    · rcases r.findOrClaim_cases f.groupId f.total m with ⟨i, htr, hc⟩ | ⟨-, ⟨i, hfree, hc⟩ | ⟨-, hc⟩⟩
      · have hu := (Slot.tracks_eq.mp htr).1
        have hset := r.share_setSlot (b := b) i ((r.slots.get i).accept f m).2
        have hacc := Slot.share_accept (b := b) hu f m
        have hs := Slot.share_of_inUse (b := b) hu
        rw [hc]
        dsimp only
        split at hacc
        · omega
        · omega
      · -- the slot is claimed by `m`, so it is `m` that pays
        generalize hs : (r.slots.get i).claim f.groupId f.total m = s at hc
        have hu : s.inUse = true := hs ▸ rfl
        have ht : s.template = some { m with payload := .empty, frag := none } := hs ▸ rfl
        have hget : (r.setSlot i s).slots.get i = s := by rw [slots_setSlot, if_pos rfl]
        have hset := r.share_setSlot (b := b) i s
        have hset' := (r.setSlot i s).share_setSlot (b := b) i (s.accept f m).2
        have hacc := Slot.share_accept (b := b) hu f m
        rw [Slot.share_of_not_inUse hfree, Slot.share_of_inUse hu] at hset
        rw [hget, Slot.share_of_inUse hu] at hset'
        rw [ht] at hset hset'
        rw [ht, Option.isSome_some, if_pos rfl] at hacc
        have hpay : shareOf b (some { m with payload := .empty, frag := none }) = shareOf b (some m) := rfl
        rw [hc]
        dsimp only
        rw [hget]
        omega
      · rw [hc]
        exact Nat.add_le_add_right (Nat.zero_le _) _

end Reassembler

/-! ## Nodes -/

/-- What the reception of some bytes counts: itself, and the share of the
message they are. -/
def cost (b : Nat) (bytes : List UInt8) : Nat :=
  match Message.decode bytes with
  | .ok m => shareOf b (some m) + 1
  | .error _ => 1

theorem cost_wire (m : Message) : cost b m.wire = share b m.ttl.toNat + 1 := by
  rw [cost, m.decode_wire_self]
  rfl

namespace Relay

variable {NR NA NF : Nat}

theorem share_ingest (r : Relay NR NA NF) (source : Transport) (bytes : List UInt8) :
    shareOf b (delivered (r.ingest source bytes).1) + (r.ingest source bytes).2.reassembler.share b + 1 ≤
      cost b bytes + r.reassembler.share b := by
  rw [cost]
  cases hd : Message.decode bytes with
  | error e =>
    rw [r.ingest_error source hd]
    show 0 + r.reassembler.share b + 1 ≤ 1 + r.reassembler.share b
    omega
  | ok m =>
    by_cases hk : some m.dedupKey ∈ r.seen.window
    · rw [r.ingest_known source hd hk]
      show 0 + r.reassembler.share b + 1 ≤ shareOf b (some m) + 1 + r.reassembler.share b
      omega
    · rw [r.ingest_new source hd hk, delivered_outcome]
      have h := r.reassembler.share_ingest (b := b) (m.arrived source)
      rw [show shareOf b (some (m.arrived source)) = shareOf b (some m) from rfl] at h
      dsimp only
      omega

/-- What a turn of the bridge leaves, and what it forwards. -/
theorem share_bridgeStep (r : Relay NR NA NF) (source : Transport) (bytes : List UInt8) :
    ∃ ttl, (∀ f ∈ (r.bridgeStep source bytes).1.2, f.message.ttl.toNat + 1 = ttl) ∧
      (r.bridgeStep source bytes).1.2.length ≤ 4 ∧
      share b ttl + (r.bridgeStep source bytes).2.reassembler.share b + 1 ≤
        cost b bytes + r.reassembler.share b := by
  have h := r.share_ingest (b := b) source bytes
  rcases r.bridgeStep_cases source bytes with ⟨h1, h2⟩ | ⟨m, hd, h1, h2⟩
  · rw [h1, h2]
    refine ⟨0, fun f hf => (by cases hf), Nat.zero_le 4, ?_⟩
    have h0 : RelayStar.share b 0 = 0 := rfl
    omega
  · rw [h1, h2, (SameInbox.fanoutForward ..).reassembler]
    rw [hd] at h
    refine ⟨m.ttl.toNat, fun f hf => ?_, length_fanoutForward .., h⟩
    obtain ⟨hne, httl⟩ := mem_fanoutForward hf
    have hpos : m.ttl.toNat ≠ 0 := fun e => hne (UInt8.toNat_inj.mp e)
    rw [httl, toNat_sub_one hne]
    omega

end Relay

/-! ## The mesh -/

open Spec

/-- The frames of a turn are heard by other nodes only. -/
theorem cost_heard {n : Nat} {i : Fin n} {fs : List PlannedFrame} {rs : Multiset (Reception n)}
    (h : Heard i fs rs) {ttl : Nat} (hfs : ∀ f ∈ fs, f.message.ttl.toNat + 1 = ttl) :
    (rs.map fun c => cost b c.bytes).sum ≤ fs.length * ((n - 1) * (share b (ttl - 1) + 1)) := by
  induction h with
  | nil => exact Nat.zero_le _
  | @cons f js hi fs rs h ih =>
    have ih := ih fun f hf => hfs f (List.mem_cons_of_mem _ hf)
    have httl := hfs f List.mem_cons_self
    have hcard : js.card ≤ n - 1 := by
      have hsub : js ⊆ Finset.univ.erase i := fun j hj =>
        Finset.mem_erase.mpr ⟨fun e => hi (e ▸ hj), Finset.mem_univ j⟩
      have := Finset.card_le_card hsub
      rwa [Finset.card_erase_of_mem (Finset.mem_univ i), Finset.card_univ, Fintype.card_fin] at this
    have hone : ((js.val.map (⟨·, f.transport, f.message.wire⟩ : Fin n → Reception n)).map
        fun c => cost b c.bytes).sum = js.card * (share b (ttl - 1) + 1) := by
      rw [Multiset.map_map, ← httl, Nat.add_sub_cancel]
      simp only [Function.comp_def, cost_wire, Multiset.map_const', Multiset.sum_replicate, smul_eq_mul]
      rfl
    rw [Multiset.map_add, Multiset.sum_add, hone, List.length_cons, Nat.succ_mul, Nat.add_comm]
    exact Nat.add_le_add ih (Nat.mul_le_mul_right _ hcard)

namespace Spec.Mesh

variable {n : Nat}

/-- A turn leads to at most this many receptions: four frames, each heard by the
other nodes. -/
def fanout (n : Nat) : Nat := 4 * (n - 1)

/-- A bound on the receptions to come, in all. -/
def potential (M : Mesh n) : Nat :=
  (∑ i, (M.nodes i).relay.reassembler.share (fanout n)) + (M.pending.map fun c => cost (fanout n) c.bytes).sum

theorem potential_lt {M M' : Mesh n} (h : Step M M') : M'.potential < M.potential := by
  cases h with
  | receive nodes c rest rs h =>
    obtain ⟨ttl, hfs, hlen, hle⟩ := (nodes c.node).relay.share_bridgeStep (b := fanout n) c.source c.bytes
    have hrs := cost_heard (b := fanout n) h hfs
    have hshare : (rs.map fun c => cost (fanout n) c.bytes).sum ≤ share (fanout n) ttl := by
      cases ttl with
      | zero =>
        have hnil : ((nodes c.node).step c.source c.bytes).1 = [] :=
          List.eq_nil_iff_forall_not_mem.mpr fun f hf => absurd (hfs f hf) (Nat.succ_ne_zero _)
        rw [hnil, List.length_nil, Nat.zero_mul] at hrs
        exact hrs
      | succ ttl =>
        refine Nat.le_trans hrs ?_
        rw [share, fanout, Nat.mul_assoc, Nat.add_sub_cancel]
        exact Nat.mul_le_mul_right _ hlen
    have hupd : (fun i => (Function.update nodes c.node ((nodes c.node).step c.source c.bytes).2
        i).relay.reassembler.share (fanout n)) =
          Function.update (fun i => (nodes i).relay.reassembler.share (fanout n)) c.node
            (((nodes c.node).relay.bridgeStep c.source c.bytes).2.reassembler.share (fanout n)) :=
      funext fun i => Function.apply_update (fun _ (v : Node) => v.relay.reassembler.share (fanout n)) nodes c.node _ i
    have hsum := sum_update_add (fun i => (nodes i).relay.reassembler.share (fanout n)) c.node
      (((nodes c.node).relay.bridgeStep c.source c.bytes).2.reassembler.share (fanout n))
    rw [show (∑ i, Function.update _ c.node _ i) = _ from congrArg Finset.univ.sum hupd.symm] at hsum
    show (∑ i, (Function.update nodes c.node _ i).relay.reassembler.share (fanout n)) +
        ((rest + rs).map fun c => cost (fanout n) c.bytes).sum <
      (∑ i, (nodes i).relay.reassembler.share (fanout n)) +
        ((c ::ₘ rest).map fun c => cost (fanout n) c.bytes).sum
    rw [Multiset.map_add, Multiset.sum_add, Multiset.map_cons, Multiset.sum_cons]
    omega

end Spec.Mesh

/-- From any state of a mesh, the number of steps is bounded, and no run is
infinite. -/
theorem storm_dies_out {n : Nat} (M : Mesh n) :
    (∀ k M', Steps Mesh.Step k M M' → k ≤ M.potential) ∧
      ¬ ∃ run : Nat → Mesh n, run 0 = M ∧ ∀ k, Mesh.Step (run k) (run (k + 1)) := by
  have hlt : ∀ M M' : Mesh n, Mesh.Step M M' → M'.potential < M.potential := fun _ _ => Mesh.potential_lt
  refine ⟨fun k M' h => ?_, fun ⟨run, _, h⟩ => not_infinite hlt run h⟩
  have := h.length_le hlt
  omega

end RelayStar

import RelayStar.Framework.Slots
import RelayStar.Spec.Reassembly

/-!
# The slots refine the table of groups

What a slot holds (`Slot.held`) is a group and the parts of it received so
far; in a reassembler whose slots are well formed and hold distinct groups
(`Reassembler.Inv`) they are a table (`Reassembler.table`), and ingesting a
slice with a valid header does to it what `Spec.Table.offer` does
(`ingest_refines`).
-/

namespace RelayStar

namespace Slot

variable {PER_SLOT : Nat}

/-- The parts of its group a slot has received. -/
def parts (s : Slot PER_SLOT) : Parts Payload :=
  fun k => if k < s.total.toNat ∧ Mask.has s.seenMask k then some (s.bucket k) else none

/-- What a slot holds. -/
def held (s : Slot PER_SLOT) : Option (Spec.GroupKey × Spec.Partial) :=
  if s.inUse then s.template.map fun t => ((s.groupId, s.total), ⟨t, s.parts⟩) else none

/-- What every slot in use keeps. -/
structure Ok (s : Slot PER_SLOT) : Prop where
  total_le : s.total.toNat ≤ PER_SLOT
  total_le_mask : s.total.toNat ≤ 64
  received_eq : s.received.toNat = Mask.count s.seenMask s.total.toNat
  incomplete : s.received.toNat < s.total.toNat
  template : s.template.isSome

theorem held_of_not_inUse {s : Slot PER_SLOT} (h : s.inUse = false) : s.held = none := by
  rw [held, h]; rfl

theorem held_eq_none {s : Slot PER_SLOT} (ok : s.inUse = true → s.Ok) :
    s.held = none ↔ s.inUse = false := by
  refine ⟨fun h => ?_, held_of_not_inUse⟩
  cases hu : s.inUse with
  | false => rfl
  | true =>
    obtain ⟨t, ht⟩ := Option.isSome_iff_exists.mp (ok hu).template
    rw [held, hu, if_pos rfl, ht] at h
    cases h

theorem held_eq_some {s : Slot PER_SLOT} {g : Spec.GroupKey} {p : Spec.Partial} (h : s.held = some (g, p)) :
    s.inUse = true ∧ g = (s.groupId, s.total) ∧ s.template = some p.template ∧ p.slices = s.parts := by
  unfold held at h
  split at h
  · rename_i hu
    obtain ⟨t, ht, e⟩ := Option.map_eq_some_iff.mp h
    cases e
    exact ⟨hu, rfl, ht, rfl⟩
  · cases h

theorem tracks_eq {s : Slot PER_SLOT} {groupId : UInt32} {total : UInt16} :
    s.tracks groupId total = true ↔ s.inUse = true ∧ s.groupId = groupId ∧ s.total = total := by
  rw [tracks, Bool.and_eq_true, Bool.and_eq_true, beq_iff_eq, beq_iff_eq, and_assoc]

theorem tracks_iff {s : Slot PER_SLOT} (ok : s.inUse = true → s.Ok) {g : Spec.GroupKey} :
    s.tracks g.1 g.2 = true ↔ ∃ p, s.held = some (g, p) := by
  rw [tracks_eq]
  constructor
  · rintro ⟨hu, hid, htot⟩
    obtain ⟨t, ht⟩ := Option.isSome_iff_exists.mp (ok hu).template
    exact ⟨⟨t, s.parts⟩, by rw [held, hu, if_pos rfl, ht, hid, htot]; rfl⟩
  · rintro ⟨p, hp⟩
    obtain ⟨hu, hg, -⟩ := held_eq_some hp
    rw [hg]
    exact ⟨hu, rfl, rfl⟩

/-- A slot that is reset is as it was at first. -/
theorem reset_eq (s : Slot PER_SLOT) : s.reset = new := by
  have h : s.fragments.map (fun _ => (.empty : Payload)) = Vector.replicate PER_SLOT .empty :=
    Vector.ext fun i hi => by rw [Vector.getElem_map, Vector.getElem_replicate]
  rw [reset, h, new]

/-! ## Claiming a slot -/

theorem claim_ok (s : Slot PER_SLOT) {f : Fragment} (hf : Spec.HeaderOk PER_SLOT f) (m : Message) :
    (s.claim f.groupId f.total m).Ok where
  total_le := hf.2.2.1
  total_le_mask := UInt16.le_iff_toNat_le.mp hf.2.2.2
  received_eq := (Mask.count_zero _).symm
  incomplete := Nat.pos_of_ne_zero fun h => hf.1 (UInt16.toNat_inj.mp h)
  template := rfl

theorem held_claim (s : Slot PER_SLOT) (f : Fragment) (m : Message) :
    (s.claim f.groupId f.total m).held = some (Spec.key f, .start m) := by
  have h : (s.claim f.groupId f.total m).parts = Parts.none := funext fun k => by
    simp only [parts, claim, Mask.has_zero, Bool.false_eq_true, and_false, if_false, Parts.none]
  simp only [held, h]
  rfl

/-! ## Storing a slice -/

/-- Storing a slice changes its bucket. -/
theorem bucket_store (s : Slot PER_SLOT) {q : UInt16} (hq : q.toNat < PER_SLOT) (a : Payload) (k : Nat) :
    (s.store q a).bucket k = if k = q.toNat then a else s.bucket k := by
  simp only [bucket, store, Vector.getElem?_setIfInBounds]
  by_cases h : q.toNat = k
  · rw [if_pos h, if_pos h.symm, if_pos (by omega)]; rfl
  · rw [if_neg h, if_neg fun e => h e.symm]

/-- The count of a slot does not overflow. -/
theorem toNat_received_store {s : Slot PER_SLOT} (ok : s.Ok) (q : UInt16) (a : Payload) :
    (s.store q a).received.toNat = s.received.toNat + 1 := by
  have := ok.incomplete
  have := ok.total_le_mask
  rw [store, UInt16.toNat_add, show (1 : UInt16).toNat = 1 from rfl]
  omega

section Store

variable {s : Slot PER_SLOT} {q : UInt16} (ok : s.Ok) (hq : q.toNat < s.total.toNat)

include ok hq

theorem seq_lt : q.toUInt64.toNat < 64 := by
  have := ok.total_le_mask
  rw [UInt16.toNat_toUInt64]; omega

theorem bit_iff : s.seenMask &&& (1 : UInt64) <<< q.toUInt64 ≠ 0 ↔ Mask.has s.seenMask q.toNat = true := by
  rw [Mask.and_shift_ne_zero _ (seq_lt ok hq), UInt16.toNat_toUInt64]

theorem and_bit : s.seenMask &&& (1 : UInt64) <<< q.toUInt64 ≠ 0 ↔ s.parts q.toNat ≠ none := by
  rw [bit_iff ok hq]
  simp only [parts, hq, true_and]
  split <;> simp [*]

theorem has_store (a : Payload) (k : Nat) :
    Mask.has (s.store q a).seenMask k = (Mask.has s.seenMask k || k == q.toNat) := by
  rw [store, Mask.has_or_shift _ (seq_lt ok hq), UInt16.toNat_toUInt64]

theorem parts_store (a : Payload) : (s.store q a).parts = s.parts.insert q.toNat a := by
  funext k
  have hb := s.bucket_store (Nat.lt_of_lt_of_le hq ok.total_le) a
  by_cases hk : k = q.toNat
  · rw [hk, Parts.insert_self, parts, hb, if_pos rfl, if_pos]
    refine ⟨hq, ?_⟩
    rw [has_store ok hq, BEq.rfl, Bool.or_true]
  · rw [Parts.insert_of_ne _ _ hk, parts, parts, hb, if_neg hk, has_store ok hq,
      show (k == q.toNat) = false by simpa using hk, Bool.or_false]
    rfl

theorem received_store (a : Payload) (h : s.parts q.toNat = none) :
    (s.store q a).received.toNat = Mask.count (s.store q a).seenMask s.total.toNat := by
  have hm : Mask.has s.seenMask q.toUInt64.toNat = false := by
    rw [← Bool.not_eq_true, ← Mask.and_shift_ne_zero _ (seq_lt ok hq), and_bit ok hq]
    exact not_not.mpr h
  have hcount : Mask.count (s.store q a).seenMask s.total.toNat = Mask.count s.seenMask s.total.toNat + 1 :=
    Mask.count_or_shift (seq_lt ok hq) (by rwa [UInt16.toNat_toUInt64]) hm
  rw [toNat_received_store ok, hcount, ok.received_eq]

/-- The last slice is stored exactly when all parts are there. -/
theorem received_lt (a : Payload) (h : s.parts q.toNat = none) :
    (s.store q a).received < s.total ↔ ¬ ∀ k < s.total.toNat, (s.parts.insert q.toNat a) k ≠ none := by
  have hle := Mask.count_le (s.store q a).seenMask s.total.toNat
  have hall : (∀ k < s.total.toNat, (s.parts.insert q.toNat a) k ≠ none) ↔
      ∀ k < s.total.toNat, Mask.has (s.store q a).seenMask k = true := by
    rw [← parts_store ok hq]
    refine forall_congr' fun k => forall_congr' fun hk => ?_
    simp only [parts, show k < (s.store q a).total.toNat from hk, true_and]
    split <;> simp [*]
  rw [hall, ← Mask.count_eq, UInt16.lt_iff_toNat_lt, received_store ok hq a h]
  omega

end Store

/-- With all parts there, the buckets are read in order. -/
theorem gather_parts {s : Slot PER_SLOT} (h : ∀ k < s.total.toNat, s.parts k ≠ none) :
    s.parts.gather s.total.toNat = (List.range s.total.toNat).map s.bucket := by
  rw [Parts.gather, ← List.filterMap_eq_map]
  apply List.filterMap_congr
  intro k hk
  have := h k (List.mem_range.mp hk)
  rw [parts] at this ⊢
  split at this
  · rename_i h; rw [if_pos h]; rfl
  · exact absurd rfl this

/-- A full slot delivers its group and becomes free. -/
theorem assemble_eq {s : Slot PER_SLOT} {p : Spec.Partial} (ht : s.template = some p.template)
    (hp : p.slices = s.parts) (h : ∀ k < s.total.toNat, p.slices k ≠ none) (m : Message) :
    s.assemble m = (p.deliver s.total.toNat, s.reset) := by
  rw [hp] at h
  have hb : ((List.range s.total.toNat).map fun k => (s.bucket k).toList).flatten =
      p.payload s.total.toNat := by
    rw [Spec.Partial.payload, hp, gather_parts h, List.map_map]; rfl
  rw [assemble, HVec.extendAll_eq, hb, Spec.Partial.deliver, ht]
  split
  · rename_i he
    rw [HVec.extendFromSlice_eq_none, HVec.toList_empty, List.nil_append] at he
    rw [dif_neg (Nat.not_le_of_lt he)]
  · rename_i w he
    rw [HVec.extendFromSlice_eq_some, HVec.toList_empty, List.nil_append] at he
    have hw := w.length_le
    rw [he] at hw
    rw [dif_pos hw, show w = ⟨_, hw⟩ from HVec.ext he]
    rfl

/-! ## Accepting a slice -/

section Accept

variable {s : Slot PER_SLOT} {f : Fragment} {p : Spec.Partial} (hs : s.held = some (Spec.key f, p)) (ok : s.Ok)
  (hf : Spec.HeaderOk PER_SLOT f) (m : Message)

include hs ok hf

theorem accept_duplicate (h : p.slices f.seq.toNat ≠ none) :
    s.accept f m = (.dropped .duplicateSlice, s) := by
  obtain ⟨-, hg, -, hp⟩ := held_eq_some hs
  have hq := UInt16.lt_iff_toNat_lt.mp hf.2.1
  rw [(Prod.mk.inj hg).2] at hq
  rw [accept, if_pos ((and_bit ok hq).mpr (hp ▸ h))]

theorem accept_store (h : p.slices f.seq.toNat = none) :
    s.accept f m = if (s.store f.seq m.payload).received < s.total then
      (.buffered, s.store f.seq m.payload) else (s.store f.seq m.payload).assemble m := by
  obtain ⟨-, hg, -, hp⟩ := held_eq_some hs
  have hq := UInt16.lt_iff_toNat_lt.mp hf.2.1
  rw [(Prod.mk.inj hg).2] at hq
  rw [accept, if_neg fun hb => (and_bit ok hq).mp hb (hp ▸ h), HVec.extendFromSlice_empty]
  rfl

/-- A new slice, not the last one of its group, is stored. -/
theorem accept_buffered (h : p.slices f.seq.toNat = none)
    (hall : ¬ ∀ k < f.total.toNat, (p.add f.seq.toNat m.payload).slices k ≠ none) :
    (s.accept f m).1 = .buffered ∧
      (s.accept f m).2.held = some (Spec.key f, p.add f.seq.toNat m.payload) ∧ (s.accept f m).2.Ok := by
  rw [accept_store hs ok hf m h]
  obtain ⟨hu, hg, ht, hp⟩ := held_eq_some hs
  have hq := UInt16.lt_iff_toNat_lt.mp hf.2.1
  obtain ⟨-, htot⟩ := Prod.mk.inj hg
  rw [htot] at hq hall
  simp only [Spec.Partial.add, hp] at h hall ⊢
  have hlt := (received_lt ok hq m.payload h).mpr hall
  rw [if_pos hlt]
  refine ⟨rfl, ?_, ok.total_le, ok.total_le_mask, received_store ok hq _ h, UInt16.lt_iff_toNat_lt.mp hlt,
    ok.template⟩
  rw [held, parts_store ok hq, show (s.store f.seq m.payload).template = some p.template from ht,
    show (s.store f.seq m.payload).inUse = true from hu, hg]
  rfl

/-- The last slice of its group delivers it. -/
theorem accept_last (h : p.slices f.seq.toNat = none)
    (hall : ∀ k < f.total.toNat, (p.add f.seq.toNat m.payload).slices k ≠ none) :
    (s.accept f m).1 = (p.add f.seq.toNat m.payload).deliver f.total.toNat ∧
      (s.accept f m).2.inUse = false := by
  rw [accept_store hs ok hf m h]
  obtain ⟨-, hg, ht, hp⟩ := held_eq_some hs
  have hq := UInt16.lt_iff_toNat_lt.mp hf.2.1
  obtain ⟨-, htot⟩ := Prod.mk.inj hg
  rw [htot] at hq hall ⊢
  have hlt := (received_lt ok hq m.payload (hp ▸ h)).not.mpr (not_not.mpr (hp ▸ hall))
  have ht' : (s.store f.seq m.payload).template = some (p.add f.seq.toNat m.payload).template := ht
  have hp' : (p.add f.seq.toNat m.payload).slices = (s.store f.seq m.payload).parts := by
    rw [parts_store ok hq, ← hp]; rfl
  rw [if_neg hlt, assemble_eq ht' hp' hall]
  exact ⟨rfl, rfl⟩

end Accept

end Slot

namespace Reassembler

variable {SLOTS PER_SLOT : Nat} {r : Reassembler SLOTS PER_SLOT}

/-- The groups being assembled. -/
def table (r : Reassembler SLOTS PER_SLOT) : Spec.Table := Slots.lookup Slot.held r.slots

/-- Whether a slot is free. -/
def room (r : Reassembler SLOTS PER_SLOT) : Bool := r.inFlight < SLOTS

/-- The slots in use are well formed and hold distinct groups. -/
structure Inv (r : Reassembler SLOTS PER_SLOT) : Prop where
  ok : ∀ i : Fin SLOTS, (r.slots.get i).inUse = true → (r.slots.get i).Ok
  distinct : Slots.Distinct Slot.held r.slots

theorem find_eq_some {p : Slot PER_SLOT → Bool} {i : Fin SLOTS} (h : r.find p = some i) :
    p (r.slots.get i) = true := by
  have := List.find?_some h
  exact this

theorem find_eq_none {p : Slot PER_SLOT → Bool} :
    r.find p = none ↔ ∀ i : Fin SLOTS, p (r.slots.get i) = false := by
  simp only [find, List.find?_eq_none, List.mem_finRange, forall_true_left, Bool.not_eq_true]

/-! ## Counting the slots in use -/

theorem inFlight_eq (hI : r.Inv) : r.inFlight = (Slots.keys Slot.held r.slots).length := by
  rw [Slots.keys, List.length_filterMap_eq_countP, inFlight]
  apply List.countP_congr
  intro s hs
  obtain ⟨i, hi, rfl⟩ := Vector.mem_iff_getElem.mp (Vector.mem_toList_iff.mp hs)
  have := Slot.held_eq_none (hI.ok ⟨i, hi⟩)
  rw [Option.isSome_map, Option.isSome_iff_ne_none, ne_eq]
  rw [show r.slots[i].held = none ↔ r.slots[i].inUse = false from this, Bool.not_eq_false]

theorem inFlight_eq_zero (hI : r.Inv) : r.inFlight = 0 ↔ ∀ g, r.table g = none := by
  rw [inFlight_eq hI, Slots.length_keys_eq_zero hI.distinct]; rfl

/-- A group id that no slot tracks. -/
theorem table_eq_none {g : UInt32} (h : ∀ s ∈ r.slots, s.inUse = true → s.groupId ≠ g) (n : UInt16) :
    r.table (g, n) = none := by
  apply Slots.lookup_eq_none.mpr
  intro i p hi
  obtain ⟨hu, hg, -⟩ := Slot.held_eq_some hi
  exact h _ (Vector.getElem_mem _) hu (Prod.mk.inj hg).1.symm

/-- Groups from a list take no more slots than the list is long. -/
theorem inFlight_le (hI : r.Inv) {l : List Spec.GroupKey} (h : ∀ g, r.table g ≠ none → g ∈ l) :
    r.inFlight ≤ l.length := by
  rw [inFlight_eq hI]; exact Slots.length_keys_le hI.distinct h

theorem room_iff (hI : r.Inv) : r.room = true ↔ ∃ i : Fin SLOTS, (r.slots.get i).inUse = false := by
  rw [room, decide_eq_true_eq, inFlight_eq hI, Slots.length_keys_lt]
  exact exists_congr fun i => Slot.held_eq_none (hI.ok i)

theorem not_inUse_of_idle (h : r.inFlight = 0) {s : Slot PER_SLOT} (hs : s ∈ r.slots) : s.inUse = false := by
  rw [← Bool.not_eq_true]
  exact List.countP_eq_zero.mp h _ (Vector.mem_toList_iff.mpr hs)

/-- With no slot in use nothing else is asked of the slots. -/
theorem inv_of_idle (h : r.inFlight = 0) : r.Inv := by
  have hu : ∀ i : Fin SLOTS, (r.slots.get i).inUse = false := fun i => not_inUse_of_idle h (Vector.getElem_mem _)
  refine ⟨fun i hi => ?_, fun i j k a b hi => ?_⟩
  · rw [hu i] at hi; cases hi
  · rw [Slot.held_of_not_inUse (hu i)] at hi; cases hi

/-- With no slot in use every group is new, and there is room for one. -/
theorem idle_spec (hS : 1 ≤ SLOTS) (h : r.inFlight = 0) : r.Inv ∧ (∀ g, r.table g = none) ∧ r.room = true := by
  have hI := inv_of_idle h
  refine ⟨hI, (inFlight_eq_zero hI).mp h, ?_⟩
  rw [room, h, decide_eq_true_eq]
  exact hS

theorem inFlight_new : (new : Reassembler SLOTS PER_SLOT).inFlight = 0 := by
  apply List.countP_eq_zero.mpr
  intro s hs
  rw [Vector.mem_toList_iff, new, Vector.mem_replicate] at hs
  rw [hs.2]
  exact Bool.false_ne_true

/-! ## One step -/

theorem slots_setSlot (i : Fin SLOTS) (s : Slot PER_SLOT) (j : Fin SLOTS) :
    (r.setSlot i s).slots.get j = if j = i then s else r.slots.get j :=
  Slots.get_set r.slots i s j

/-- Storing into a slot that is free or holds the group already. -/
theorem setSlot_spec (hI : r.Inv) {i : Fin SLOTS} {s : Slot PER_SLOT} {g : Spec.GroupKey}
    (hs : s.inUse = true → s.Ok) (hg : ∀ j p, (r.slots.get j).held = some (g, p) → j = i)
    (hi : ∀ p, (r.slots.get i).held = some p → p.1 = g) (hsg : ∀ p, s.held = some p → p.1 = g) :
    (r.setSlot i s).Inv ∧ (r.setSlot i s).table = Function.update r.table g (s.held.map Prod.snd) := by
  obtain ⟨hd, ht⟩ := Slots.set hI.distinct hg hi hsg
  refine ⟨⟨fun j hj => ?_, hd⟩, ht⟩
  rw [slots_setSlot] at hj ⊢
  split
  · rename_i h; rw [if_pos h] at hj; exact hs hj
  · rename_i h; rw [if_neg h] at hj; exact hI.ok j hj

theorem setSlot_self (i : Fin SLOTS) : r.setSlot i (r.slots.get i) = r := by
  exact congrArg Reassembler.mk (Vector.set_getElem_self i.isLt)

/-- The slot of the group is found, or a free one is claimed, or there is none. -/
theorem findOrClaim_cases (r : Reassembler SLOTS PER_SLOT) (groupId : UInt32) (total : UInt16) (m : Message) :
    (∃ i : Fin SLOTS, (r.slots.get i).tracks groupId total = true ∧
      r.findOrClaim groupId total m = (some i, r)) ∨
    (∀ j : Fin SLOTS, (r.slots.get j).tracks groupId total = false) ∧
      ((∃ i : Fin SLOTS, (r.slots.get i).inUse = false ∧
        r.findOrClaim groupId total m = (some i, r.setSlot i ((r.slots.get i).claim groupId total m))) ∨
      (∀ j : Fin SLOTS, (r.slots.get j).inUse = true) ∧ r.findOrClaim groupId total m = (none, r)) := by
  unfold findOrClaim
  cases hf : r.find (Slot.tracks groupId total) with
  | some i => exact .inl ⟨i, find_eq_some hf, rfl⟩
  | none =>
    refine .inr ⟨find_eq_none.mp hf, ?_⟩
    cases hfree : r.find (!Slot.inUse ·) with
    | none =>
      refine .inr ⟨fun j => ?_, rfl⟩
      rw [← Bool.not_eq_false']
      exact find_eq_none.mp hfree j
    | some i =>
      have hi := find_eq_some hfree
      rw [Bool.not_eq_true'] at hi
      exact .inl ⟨i, hi, rfl⟩

/-- No slot of the id is in use, or the first one is reset. -/
theorem evict_cases (r : Reassembler SLOTS PER_SLOT) (groupId : UInt32) :
    ((∀ i : Fin SLOTS, ((r.slots.get i).inUse && (r.slots.get i).groupId == groupId) = false) ∧
      r.evict groupId = (false, r)) ∨
    ∃ i : Fin SLOTS, ((r.slots.get i).inUse && (r.slots.get i).groupId == groupId) = true ∧
      r.evict groupId = (true, r.setSlot i .new) := by
  unfold evict
  cases hf : r.find (fun s => s.inUse && s.groupId == groupId) with
  | none => exact .inl ⟨find_eq_none.mp hf, rfl⟩
  | some i =>
    refine .inr ⟨i, find_eq_some hf, ?_⟩
    simp only [Slot.reset_eq]

/-- A slot that tracks a group holds what the table has of it. -/
theorem tracks_table (hI : r.Inv) {f : Fragment} {i : Fin SLOTS}
    (h : (r.slots.get i).tracks f.groupId f.total = true) :
    ∃ p, (r.slots.get i).held = some (Spec.key f, p) ∧ r.table (Spec.key f) = some p := by
  obtain ⟨p, hp⟩ := (Slot.tracks_iff (hI.ok i) (g := Spec.key f)).mp h
  exact ⟨p, hp, (Slots.lookup_eq_some hI.distinct).mpr ⟨i, hp⟩⟩

/-- The slot of a known group is found. -/
theorem findOrClaim_known (hI : r.Inv) {f : Fragment} {p : Spec.Partial} (h : r.table (Spec.key f) = some p)
    (m : Message) : ∃ i, r.findOrClaim f.groupId f.total m = (some i, r) ∧
      (r.slots.get i).held = some (Spec.key f, p) := by
  rcases r.findOrClaim_cases f.groupId f.total m with ⟨i, htr, hc⟩ | ⟨hno, -⟩
  · obtain ⟨q, hq, hT⟩ := tracks_table hI htr
    obtain rfl : q = p := Option.some.inj (hT.symm.trans h)
    exact ⟨i, hc, hq⟩
  · obtain ⟨j, hj⟩ := (Slots.lookup_eq_some hI.distinct).mp h
    have htr : (r.slots.get j).tracks f.groupId f.total = true :=
      (Slot.tracks_iff (hI.ok j) (g := Spec.key f)).mpr ⟨p, hj⟩
    rw [hno j] at htr
    cases htr

/-- A free slot is claimed for a new group, if there is one. -/
theorem findOrClaim_unknown (hI : r.Inv) {f : Fragment} (h : r.table (Spec.key f) = none) (m : Message) :
    (∃ i : Fin SLOTS, (r.slots.get i).inUse = false ∧
      r.findOrClaim f.groupId f.total m = (some i, r.setSlot i ((r.slots.get i).claim f.groupId f.total m))) ∨
    (∀ j : Fin SLOTS, (r.slots.get j).inUse = true) ∧ r.findOrClaim f.groupId f.total m = (none, r) := by
  rcases r.findOrClaim_cases f.groupId f.total m with ⟨i, htr, -⟩ | ⟨-, hc⟩
  · obtain ⟨p, -, hT⟩ := tracks_table hI htr
    rw [h] at hT
    cases hT
  · exact hc

theorem findOrClaim_new (hI : r.Inv) {f : Fragment} (hf : Spec.HeaderOk PER_SLOT f)
    (h : r.table (Spec.key f) = none) (hr : r.room = true) (m : Message) :
    ∃ i r', r.findOrClaim f.groupId f.total m = (some i, r') ∧ r'.Inv ∧
      (r'.slots.get i).held = some (Spec.key f, .start m) ∧
      r'.table = Function.update r.table (Spec.key f) (some (.start m)) := by
  rcases findOrClaim_unknown hI h m with ⟨i, hi, hc⟩ | ⟨hall, -⟩
  · have hclaim := Slot.held_claim (r.slots.get i) f m
    obtain ⟨hI', ht⟩ := setSlot_spec hI (s := (r.slots.get i).claim f.groupId f.total m) (g := Spec.key f)
      (fun _ => Slot.claim_ok _ hf m) (fun j p hp => absurd hp (Slots.lookup_eq_none.mp h j p))
      (fun p hp => by rw [Slot.held_of_not_inUse hi] at hp; cases hp)
      (fun p hp => by rw [hclaim] at hp; cases hp; rfl)
    refine ⟨i, _, hc, hI', ?_, ?_⟩
    · rw [slots_setSlot, if_pos rfl, hclaim]
    · rw [ht, hclaim]; rfl
  · obtain ⟨j, hj⟩ := (room_iff hI).mp hr
    rw [hall j] at hj
    cases hj

/-- There is no slot for a new group. -/
theorem findOrClaim_full (hI : r.Inv) {f : Fragment} (h : r.table (Spec.key f) = none)
    (hr : r.room = false) (m : Message) : r.findOrClaim f.groupId f.total m = (none, r) := by
  rcases findOrClaim_unknown hI h m with ⟨i, hi, -⟩ | ⟨-, hc⟩
  · rw [(room_iff hI).mpr ⟨i, hi⟩] at hr
    cases hr
  · exact hc

/-- A new slice joins the group its slot holds. -/
theorem setSlot_accept (hI : r.Inv) {i : Fin SLOTS} {f : Fragment} {p : Spec.Partial}
    (hi : (r.slots.get i).held = some (Spec.key f, p)) (hf : Spec.HeaderOk PER_SLOT f) (m : Message)
    (h : p.slices f.seq.toNat = none) :
    ((r.slots.get i).accept f m).1 = (r.table.join f m p).1 ∧
      (r.setSlot i ((r.slots.get i).accept f m).2).table = (r.table.join f m p).2 ∧
      (r.setSlot i ((r.slots.get i).accept f m).2).Inv := by
  have ok := hI.ok i (Slot.held_eq_some hi).1
  have hset := fun (s : Slot PER_SLOT) hs hsg => setSlot_spec hI (s := s) (g := Spec.key f) hs
    (fun j q hj => hI.distinct j i _ _ _ hj hi) (fun q hq => by rw [hi] at hq; cases hq; rfl) hsg
  rw [Spec.Table.join]
  split
  · rename_i hall
    obtain ⟨ho, hu⟩ := Slot.accept_last hi ok hf m h hall
    have hn := Slot.held_of_not_inUse hu
    obtain ⟨hI', ht⟩ := hset _ (fun hu' => by rw [hu] at hu'; cases hu') (fun q hq => by
      rw [hn] at hq; cases hq)
    exact ⟨ho, by rw [ht, hn]; rfl, hI'⟩
  · rename_i hall
    obtain ⟨ho, hh, ok'⟩ := Slot.accept_buffered hi ok hf m h hall
    obtain ⟨hI', ht⟩ := hset _ (fun _ => ok') (fun q hq => by rw [hh] at hq; cases hq; rfl)
    exact ⟨ho, by rw [ht, hh]; rfl, hI'⟩

variable (PER_SLOT) in
/-- The headers `ingest` refuses are those that are not `HeaderOk`. -/
theorem bad_iff (f : Fragment) :
    (f.total = 0 ∨ f.seq ≥ f.total ∨ f.total.toNat > PER_SLOT ∨ f.total > 64) ↔
      ¬ Spec.HeaderOk PER_SLOT f := by
  simp only [Spec.HeaderOk, not_and_or, not_not, ge_iff_le, gt_iff_lt, UInt16.not_lt, UInt16.not_le,
    Nat.not_le]

theorem ingest_unfragmented (r : Reassembler SLOTS PER_SLOT) {m : Message} (h : m.frag = none) :
    r.ingest m = (.passthrough m, r) := by
  rw [ingest, h]

theorem ingest_badHeader (r : Reassembler SLOTS PER_SLOT) {m : Message} {f : Fragment} (h : m.frag = some f)
    (hf : ¬ Spec.HeaderOk PER_SLOT f) : r.ingest m = (.dropped .badHeader, r) := by
  simp only [ingest, h, if_pos ((bad_iff PER_SLOT f).mpr hf)]

/-- With no free slot a slice of a new group is dropped. -/
theorem ingest_noSlot (hI : r.Inv) {m : Message} {f : Fragment} (h : m.frag = some f)
    (hf : Spec.HeaderOk PER_SLOT f) (hT : r.table (Spec.key f) = none) (hr : r.room = false) :
    r.ingest m = (.dropped .noSlot, r) := by
  simp only [ingest, h, if_neg ((bad_iff PER_SLOT f).not.mpr (not_not.mpr hf)), findOrClaim_full hI hT hr]

/-- Ingesting a slice with a valid header refines offering it to the table. -/
theorem ingest_refines (hI : r.Inv) {m : Message} {f : Fragment} (h : m.frag = some f)
    (hf : Spec.HeaderOk PER_SLOT f) :
    (r.ingest m).1 = (r.table.offer r.room f m).1 ∧ (r.ingest m).2.table = (r.table.offer r.room f m).2 ∧
      (r.ingest m).2.Inv := by
  have hb : ¬ _ := (bad_iff PER_SLOT f).not.mpr (not_not.mpr hf)
  simp only [ingest, h, if_neg hb, Spec.Table.offer]
  cases ht : r.table (Spec.key f) with
  | none =>
    cases hr : r.room with
    | false =>
      rw [findOrClaim_full hI ht hr]
      exact ⟨rfl, rfl, hI⟩
    | true =>
      obtain ⟨i, r', hc, hI', hi, ht'⟩ := findOrClaim_new hI hf ht hr m
      rw [hc]
      obtain ⟨ho, htab, hinv⟩ := setSlot_accept hI' hi hf m rfl
      rw [ht', Spec.Table.join_update] at ho htab
      exact ⟨ho, htab, hinv⟩
  | some p =>
    obtain ⟨i, hc, hi⟩ := findOrClaim_known hI ht m
    rw [hc]
    dsimp only
    split
    · rename_i hn
      exact setSlot_accept hI hi hf m hn
    · rename_i hn
      rw [Slot.accept_duplicate hi (hI.ok i (Slot.held_eq_some hi).1) hf m hn, setSlot_self]
      exact ⟨rfl, rfl, hI⟩

end Reassembler

end RelayStar

import RelayStar.Proof.SlotState

/-!
# Evicting a group

A slot is found by group id and number of slices, but evicted by group id alone,
and only the first one of this id is. So a group is forgotten exactly if no
second slot has its id (`forgets_iff`).
-/

namespace RelayStar.Reassembler

variable {SLOTS PER_SLOT : Nat} {r : Reassembler SLOTS PER_SLOT}

/-- The slot assembles a group of this id. -/
def holds (groupId : UInt32) (s : Slot PER_SLOT) : Bool := s.inUse && s.groupId == groupId

theorem holds_new (groupId : UInt32) : holds groupId (.new : Slot PER_SLOT) = false := rfl

/-- Evicting `groupId` forgets it: the answer is whether there was a slot of it,
there is none left, the others are as they were, and as many slots are in use
less. -/
def Forgets (r : Reassembler SLOTS PER_SLOT) (groupId : UInt32) : Prop :=
  ((r.evict groupId).1 = true ↔ ∃ i : Fin SLOTS, holds groupId (r.slots.get i) = true) ∧
    (∀ i : Fin SLOTS, holds groupId ((r.evict groupId).2.slots.get i) = false) ∧
    (∀ i : Fin SLOTS, (r.slots.get i).inUse = true → (r.slots.get i).groupId ≠ groupId →
      (r.evict groupId).2.slots.get i = r.slots.get i) ∧
    (r.evict groupId).2.inFlight + r.slots.toList.countP (holds groupId) = r.inFlight

/-- Freeing a slot that counts, and is not counted when free. -/
theorem countP_free {p : Slot PER_SLOT → Bool} (hnew : p .new = false) {i : Fin SLOTS}
    (hi : p (r.slots.get i) = true) :
    (r.setSlot i .new).slots.toList.countP p + 1 = r.slots.toList.countP p := by
  have hlt : i.val < r.slots.toList.length := by rw [Vector.length_toList]; exact i.isLt
  have hget : p r.slots.toList[i.val] = true := by rw [Vector.getElem_toList]; exact hi
  have hpos : 0 < r.slots.toList.countP p := List.countP_pos_iff.mpr ⟨_, List.getElem_mem hlt, hget⟩
  show (r.slots.set i .new i.isLt).toList.countP p + 1 = _
  rw [Vector.toList_set, List.countP_set hlt, if_pos hget, hnew]
  simp only [Bool.false_eq_true, if_false]
  omega

theorem countP_holds_eq_zero {groupId : UInt32} (h : ∀ i : Fin SLOTS, holds groupId (r.slots.get i) = false) :
    r.slots.toList.countP (holds groupId) = 0 := by
  refine List.countP_eq_zero.mpr fun s hs => ?_
  obtain ⟨i, hi, rfl⟩ := Vector.mem_iff_getElem.mp (Vector.mem_toList_iff.mp hs)
  rw [Bool.not_eq_true]
  exact h ⟨i, hi⟩

theorem evict_of_none {groupId : UInt32} (h : ∀ i : Fin SLOTS, holds groupId (r.slots.get i) = false)
    (he : r.evict groupId = (false, r)) : r.Forgets groupId := by
  rw [Forgets, he]
  refine ⟨⟨fun hf => (by cases hf), fun ⟨i, hi⟩ => ?_⟩, h, fun _ _ _ => rfl, ?_⟩
  · rw [h i] at hi; cases hi
  · rw [countP_holds_eq_zero h]; rfl

/-- The only slot of the group is freed. -/
theorem evict_of_only {groupId : UInt32} {i : Fin SLOTS} (hi : holds groupId (r.slots.get i) = true)
    (h : ∀ j : Fin SLOTS, holds groupId (r.slots.get j) = true → j = i)
    (he : r.evict groupId = (true, r.setSlot i .new)) : r.Forgets groupId := by
  have hnone : ∀ j : Fin SLOTS, holds groupId ((r.setSlot i .new).slots.get j) = false := fun j => by
    rw [slots_setSlot]
    split
    · exact holds_new groupId
    · rename_i hj; exact Bool.eq_false_iff.mpr fun ht => hj (h j ht)
  rw [Forgets, he]
  refine ⟨⟨fun _ => ⟨i, hi⟩, fun _ => rfl⟩, hnone, fun j _ hg => ?_, ?_⟩
  · rw [slots_setSlot, if_neg]
    rintro rfl
    exact hg (beq_iff_eq.mp (Bool.and_eq_true_iff.mp hi).2)
  · have hone := countP_free (holds_new groupId) hi
    rw [countP_holds_eq_zero hnone] at hone
    have hall := countP_free (p := Slot.inUse) rfl (Bool.and_eq_true_iff.mp hi).1
    show (r.setSlot i .new).slots.toList.countP Slot.inUse + _ = r.slots.toList.countP Slot.inUse
    omega

/-- After any calls, evicting a group forgets it if it has one slot at most, and
only then. -/
theorem forgets_iff (SLOTS PER_SLOT : Nat) (calls : List Call) (groupId : UInt32) :
    (after calls : Reassembler SLOTS PER_SLOT).Forgets groupId ↔
      ∀ i j : Fin SLOTS, holds groupId ((after calls : Reassembler SLOTS PER_SLOT).slots.get i) = true →
        holds groupId ((after calls : Reassembler SLOTS PER_SLOT).slots.get j) = true → i = j := by
  generalize (after calls : Reassembler SLOTS PER_SLOT) = r
  rcases r.evict_cases groupId with ⟨hno, he⟩ | ⟨k, hk, he⟩
  · have hno : ∀ i : Fin SLOTS, holds groupId (r.slots.get i) = false := hno
    refine ⟨fun _ i j hi => ?_, fun _ => evict_of_none hno he⟩
    rw [hno i] at hi
    cases hi
  · have honly : r.Forgets groupId → ∀ j : Fin SLOTS, holds groupId (r.slots.get j) = true → j = k := by
      intro hf j hj
      have hleft := hf.2.1 j
      rw [he, slots_setSlot] at hleft
      by_contra hne
      rw [if_neg hne, hj] at hleft
      cases hleft
    refine ⟨fun hf i j hi hj => ?_, fun h => evict_of_only hk (fun j hj => h j k hj hk) he⟩
    rw [honly hf i hi, honly hf j hj]

/-- A first slice of three, with the group id of the slices of two. -/
def exampleConflict : Message := { exampleSlice 3 0 with frag := some ⟨1, 0, 3⟩ }

/-- Two slots have one group id, and the second is left. -/
theorem second_slot_left :
    ¬ (after [.ingest (exampleSlice 3 0), .ingest exampleConflict] : Reassembler 2 3).Forgets 1 := by
  intro h
  have hholds : holds 1 (((after [.ingest (exampleSlice 3 0), .ingest exampleConflict] :
      Reassembler 2 3).evict 1).2.slots.get 1) = true := by decide +kernel
  rw [h.2.1 1] at hholds
  cases hholds

end RelayStar.Reassembler

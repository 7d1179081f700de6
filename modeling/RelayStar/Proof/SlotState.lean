import RelayStar.Proof.Provenance

/-!
# The slots between two calls

What is in a slot between two calls of a reassembler: one that is free is as it
was at first, and one in use holds the slices whose bits are set and nothing
else (`Slot.Used`). Every call keeps this (`call_represents`). It is shown from
all that a call of `ingest` does to a slot (`ingest_cases`); so a message that
is refused changes nothing, and one that is not changes the slot of its group
only (`ingest_effect`).
-/

namespace RelayStar

/-- The bits counted further on are all clear. -/
theorem Mask.count_eq_count {m : UInt64} {n n' : Nat} (hn : n ≤ n') (h : ∀ k, Mask.has m k = true → k < n) :
    Mask.count m n' = Mask.count m n := by
  induction n', hn using Nat.le_induction with
  | base => rfl
  | succ k hk ih =>
    have hclear : Mask.has m k = false := Bool.eq_false_iff.mpr fun hb => absurd (h k hb) (Nat.not_lt_of_le hk)
    rw [Mask.count, List.range_succ, List.countP_append, List.countP_singleton, hclear, ← ih]
    rfl

namespace Slot

variable {PER_SLOT : Nat} {s : Slot PER_SLOT}

/-- A slot that receives a group, all of whose slices so far have their bit set. -/
structure Filling (s : Slot PER_SLOT) : Prop where
  total_pos : 1 ≤ s.total.toNat
  total_le : s.total.toNat ≤ min PER_SLOT 64
  received_lt : s.received.toNat < s.total.toNat
  received_eq : s.received.toNat = Mask.count s.seenMask 64
  seen_lt : ∀ k, Mask.has s.seenMask k = true → k < s.total.toNat
  bucket_empty : ∀ k, Mask.has s.seenMask k = false → s.bucket k = .empty
  template : ∃ t, s.template = some t ∧ t.payload = .empty ∧ t.frag = none

/-- A slot in use between two calls. -/
structure Used (s : Slot PER_SLOT) : Prop extends Filling s where
  received_pos : 1 ≤ s.received.toNat

theorem bucket_new (k : Nat) : (new : Slot PER_SLOT).bucket k = .empty := by
  rw [bucket, new, Vector.getElem?_replicate]
  split <;> rfl

theorem Filling.ok (h : s.Filling) : s.Ok where
  total_le := by have := h.total_le; omega
  total_le_mask := by have := h.total_le; omega
  received_eq := by
    rw [h.received_eq]
    exact Mask.count_eq_count (by have := h.total_le; omega) h.seen_lt
  incomplete := h.received_lt
  template := by
    obtain ⟨t, ht, -⟩ := h.template
    rw [ht]; rfl

/-- A free slot is claimed. -/
theorem filling_claim {f : Fragment} (hf : Spec.HeaderOk PER_SLOT f) (m : Message) :
    ((new : Slot PER_SLOT).claim f.groupId f.total m).Filling := by
  have ok := claim_ok (new : Slot PER_SLOT) hf m
  refine ⟨?_, Nat.le_min.mpr ⟨ok.total_le, ok.total_le_mask⟩, ok.incomplete, (Mask.count_zero _).symm,
    fun k hk => ?_, fun k _ => bucket_new k, _, rfl, rfl, rfl⟩
  · exact Nat.lt_of_le_of_lt (Nat.zero_le _) ok.incomplete
  · have hk : Mask.has 0 k = true := hk
    rw [Mask.has_zero] at hk
    cases hk

/-- The slot has one slice more, and is the same otherwise. -/
structure Gains (s s' : Slot PER_SLOT) (q : Nat) (a : Payload) : Prop where
  inUse : s'.inUse = s.inUse
  groupId : s'.groupId = s.groupId
  total : s'.total = s.total
  template : s'.template = s.template
  bit_clear : Mask.has s.seenMask q = false
  bit : ∀ k, Mask.has s'.seenMask k = (Mask.has s.seenMask k || k == q)
  bucket : ∀ k, s'.bucket k = if k = q then a else s.bucket k
  received : s'.received.toNat = s.received.toNat + 1

theorem Gains.ne {s s' : Slot PER_SLOT} {q : Nat} {a : Payload} (h : s.Gains s' q a) : s' ≠ s := by
  rintro rfl
  have := h.bit q
  rw [h.bit_clear, BEq.rfl] at this
  cases this

section Store

variable {q : UInt16} (h : s.Filling) (hq : q.toNat < s.total.toNat)

include h hq

theorem gains_store (hb : Mask.has s.seenMask q.toNat = false) (a : Payload) :
    s.Gains (s.store q a) q.toNat a where
  inUse := rfl
  groupId := rfl
  total := rfl
  template := rfl
  bit_clear := hb
  bit := has_store h.ok hq a
  bucket := s.bucket_store (Nat.lt_of_lt_of_le hq h.ok.total_le) a
  received := toNat_received_store h.ok q a

/-- A slice that is not the last one leaves the slot in use. -/
theorem used_store (hb : Mask.has s.seenMask q.toNat = false) (a : Payload)
    (hlt : (s.store q a).received < s.total) : (s.store q a).Used := by
  have hg := gains_store h hq hb a
  have hr := hg.received
  refine ⟨⟨h.total_pos, h.total_le, UInt16.lt_iff_toNat_lt.mp hlt, ?_, fun k hk => ?_, fun k hk => ?_, h.template⟩,
    by omega⟩
  · have hcount : Mask.count (s.store q a).seenMask 64 = Mask.count s.seenMask 64 + 1 :=
      countP_range_insert hb (by have := h.ok.total_le_mask; omega) fun k _ => hg.bit k
    rw [hr, hcount, h.received_eq]
  · rw [hg.bit, Bool.or_eq_true, beq_iff_eq] at hk
    rcases hk with hk | hk
    · exact h.seen_lt k hk
    · rw [hk]; exact hq
  · rw [hg.bit, Bool.or_eq_false_iff, beq_eq_false_iff_ne] at hk
    rw [hg.bucket, if_neg hk.2]
    exact h.bucket_empty k hk.1

end Store

/-- A slot that is assembled delivers its group, or drops it, and is free. -/
theorem assemble_cases (s : Slot PER_SLOT) (m : Message) :
    ((s.assemble m).1 = .dropped .payloadTooLarge ∨ ∃ x, (s.assemble m).1 = .complete x) ∧
      (s.assemble m).2 = new := by
  unfold assemble
  split
  · exact ⟨.inl rfl, s.reset_eq⟩
  · exact ⟨.inr ⟨_, rfl⟩, s.reset_eq⟩

/-- A slice comes again, or is stored, or is the last one. -/
theorem accept_cases (h : s.Filling) {f : Fragment} (hq : f.seq.toNat < s.total.toNat) (m : Message) :
    (1 ≤ s.received.toNat ∧ s.accept f m = (.dropped .duplicateSlice, s)) ∨
    (s.accept f m = (.buffered, s.store f.seq m.payload) ∧ Mask.has s.seenMask f.seq.toNat = false ∧
      (s.store f.seq m.payload).Used) ∨
    (((s.accept f m).1 = .dropped .payloadTooLarge ∨ ∃ x, (s.accept f m).1 = .complete x) ∧
      (s.accept f m).2 = new) := by
  cases hb : Mask.has s.seenMask f.seq.toNat with
  | true =>
    refine .inl ⟨?_, by rw [accept, if_pos ((bit_iff h.ok hq).mpr hb)]⟩
    rw [h.received_eq]
    refine List.countP_pos_iff.mpr ⟨f.seq.toNat, List.mem_range.mpr ?_, hb⟩
    have := h.ok.total_le_mask
    omega
  | false =>
    have hne : ¬ s.seenMask &&& (1 : UInt64) <<< f.seq.toUInt64 ≠ 0 := fun hn => by
      rw [(bit_iff h.ok hq).mp hn] at hb
      cases hb
    rw [accept, if_neg hne, HVec.extendFromSlice_empty]
    dsimp only
    split
    · rename_i hlt
      exact .inr (.inl ⟨rfl, rfl, used_store h hq hb _ hlt⟩)
    · exact .inr (.inr (assemble_cases _ m))

end Slot

namespace Reassembler

variable {SLOTS PER_SLOT : Nat} {r : Reassembler SLOTS PER_SLOT}

/-- What every call keeps. -/
structure Represents (r : Reassembler SLOTS PER_SLOT) : Prop where
  used : ∀ i : Fin SLOTS, (r.slots.get i).inUse = true → (r.slots.get i).Used
  free : ∀ i : Fin SLOTS, (r.slots.get i).inUse = false → r.slots.get i = .new
  distinct : ∀ i j : Fin SLOTS, (r.slots.get i).inUse = true → (r.slots.get j).inUse = true →
    (r.slots.get i).groupId = (r.slots.get j).groupId → (r.slots.get i).total = (r.slots.get j).total → i = j

theorem slots_new (i : Fin SLOTS) : (new : Reassembler SLOTS PER_SLOT).slots.get i = .new :=
  Vector.getElem_replicate i.isLt

theorem represents_new : (new : Reassembler SLOTS PER_SLOT).Represents where
  used i hi := by rw [slots_new] at hi; cases hi
  free i _ := slots_new i
  distinct i j hi := by rw [slots_new] at hi; cases hi

theorem setSlot_setSlot (r : Reassembler SLOTS PER_SLOT) (i : Fin SLOTS) (s s' : Slot PER_SLOT) :
    (r.setSlot i s).setSlot i s' = r.setSlot i s' :=
  congrArg Reassembler.mk (Vector.set_set ..)

/-- A slot is freed, or filled with a group that no other slot tracks. -/
theorem represents_set (h : r.Represents) {i : Fin SLOTS} {s : Slot PER_SLOT} (hused : s.inUse = true → s.Used)
    (hfree : s.inUse = false → s = .new)
    (hi : s.inUse = true → ∀ j, (r.slots.get j).tracks s.groupId s.total = true → j = i) :
    (r.setSlot i s).Represents where
  used j hj := by
    rw [slots_setSlot] at hj ⊢
    split
    · rename_i he; rw [if_pos he] at hj; exact hused hj
    · rename_i hne; rw [if_neg hne] at hj; exact h.used j hj
  free j hj := by
    rw [slots_setSlot] at hj ⊢
    split
    · rename_i he; rw [if_pos he] at hj; exact hfree hj
    · rename_i hne; rw [if_neg hne] at hj; exact h.free j hj
  distinct j k hj hk hg ht := by
    rw [slots_setSlot] at hj hk hg ht
    rw [slots_setSlot] at hg ht
    by_cases hji : j = i
    · rw [if_pos hji] at hj hg ht
      by_cases hki : k = i
      · rw [hji, hki]
      · rw [if_neg hki] at hk hg ht
        exact absurd (hi hj k (Slot.tracks_eq.mpr ⟨hk, hg.symm, ht.symm⟩)) hki
    · rw [if_neg hji] at hj hg ht
      by_cases hki : k = i
      · rw [if_pos hki] at hk hg ht
        exact absurd (hi hk j (Slot.tracks_eq.mpr ⟨hj, hg, ht⟩)) hji
      · rw [if_neg hki] at hk hg ht
        exact h.distinct j k hj hk hg ht

theorem represents_free (h : r.Represents) (i : Fin SLOTS) : (r.setSlot i .new).Represents :=
  represents_set h (fun hu => by cases hu) (fun _ => rfl) fun hu => by cases hu

/-- The slot that takes a slice: the one of its group, or a free one that is
claimed for it. -/
def Takes (r : Reassembler SLOTS PER_SLOT) (f : Fragment) (m : Message) (i : Fin SLOTS) (s : Slot PER_SLOT) : Prop :=
  (r.slots.get i).tracks f.groupId f.total = true ∧ s = r.slots.get i ∨
  (∀ j : Fin SLOTS, (r.slots.get j).tracks f.groupId f.total = false) ∧ r.slots.get i = .new ∧
    s = Slot.new.claim f.groupId f.total m

namespace Takes

variable {f : Fragment} {m : Message} {i : Fin SLOTS} {s : Slot PER_SLOT} (ht : r.Takes f m i s)

include ht

theorem tracks : s.tracks f.groupId f.total = true := by
  rcases ht with ⟨ht, rfl⟩ | ⟨-, -, rfl⟩
  · exact ht
  · exact Slot.tracks_eq.mpr ⟨rfl, rfl, rfl⟩

theorem filling (h : r.Represents) (hf : Spec.HeaderOk PER_SLOT f) : s.Filling := by
  rcases ht with ⟨ht, rfl⟩ | ⟨-, -, rfl⟩
  · exact (h.used i (Slot.tracks_eq.mp ht).1).toFilling
  · exact Slot.filling_claim hf m

/-- No other slot tracks the group. -/
theorem only (h : r.Represents) (j : Fin SLOTS) (hj : (r.slots.get j).tracks f.groupId f.total = true) : j = i := by
  rcases ht with ⟨hi, -⟩ | ⟨hn, -⟩
  · obtain ⟨hui, hgi, hti⟩ := Slot.tracks_eq.mp hi
    obtain ⟨huj, hgj, htj⟩ := Slot.tracks_eq.mp hj
    exact h.distinct j i huj hui (hgj.trans hgi.symm) (htj.trans hti.symm)
  · rw [hn j] at hj; cases hj

end Takes

theorem findOrClaim_takes (h : r.Represents) (f : Fragment) (m : Message) :
    r.findOrClaim f.groupId f.total m = (none, r) ∨
    ∃ i s r', r.Takes f m i s ∧ r.findOrClaim f.groupId f.total m = (some i, r') ∧ r'.slots.get i = s ∧
      ∀ s', r'.setSlot i s' = r.setSlot i s' := by
  rcases r.findOrClaim_cases f.groupId f.total m with ⟨i, ht, hc⟩ | ⟨hn, ⟨i, hi, hc⟩ | ⟨-, hc⟩⟩
  · exact .inr ⟨i, _, r, .inl ⟨ht, rfl⟩, hc, rfl, fun _ => rfl⟩
  · have hnew := h.free i hi
    refine .inr ⟨i, _, _, .inr ⟨hn, hnew, rfl⟩, hc, ?_, setSlot_setSlot r i _⟩
    rw [slots_setSlot, if_pos rfl, hnew]
  · exact .inl hc

/-- All that a call of `ingest` does. -/
theorem ingest_cases (h : r.Represents) (m : Message) :
    (r.ingest m = (.passthrough m, r) ∨ r.ingest m = (.dropped .badHeader, r) ∨
      r.ingest m = (.dropped .noSlot, r) ∨ r.ingest m = (.dropped .duplicateSlice, r)) ∨
    ∃ f i s, m.frag = some f ∧ r.Takes f m i s ∧ s.Filling ∧
      (r.ingest m = (.buffered, r.setSlot i (s.store f.seq m.payload)) ∧
          s.Gains (s.store f.seq m.payload) f.seq.toNat m.payload ∧ (s.store f.seq m.payload).Used ∨
        ((r.ingest m).1 = .dropped .payloadTooLarge ∨ ∃ x, (r.ingest m).1 = .complete x) ∧
          (r.ingest m).2 = r.setSlot i .new) := by
  cases hm : m.frag with
  | none => exact .inl (.inl (r.ingest_unfragmented hm))
  | some f =>
    by_cases hf : Spec.HeaderOk PER_SLOT f
    · have hb := (bad_iff PER_SLOT f).not.mpr (not_not.mpr hf)
      rcases findOrClaim_takes h f m with hc | ⟨i, s, r', ht, hc, hs, hset⟩
      · exact .inl (.inr (.inr (.inl (by simp only [ingest, hm, if_neg hb, hc]))))
      · have hr : r.ingest m = ((s.accept f m).1, r.setSlot i (s.accept f m).2) := by
          simp only [ingest, hm, if_neg hb, hc, hs, hset]
        have hfill := ht.filling h hf
        have hq : f.seq.toNat < s.total.toNat := by
          rw [(Slot.tracks_eq.mp ht.tracks).2.2]
          exact UInt16.lt_iff_toNat_lt.mp hf.2.1
        rcases Slot.accept_cases hfill hq m with ⟨hrec, ha⟩ | ⟨ha, hclear, hused⟩ | ⟨ho, ha⟩
        · rcases ht with ⟨ht, rfl⟩ | ⟨-, -, rfl⟩
          · rw [hr, ha, setSlot_self]
            exact .inl (.inr (.inr (.inr rfl)))
          · exact absurd hrec (by decide : ¬ 1 ≤ (0 : UInt16).toNat)
        · rw [hr, ha]
          exact .inr ⟨f, i, s, rfl, ht, hfill, .inl ⟨rfl, Slot.gains_store hfill hq hclear _, hused⟩⟩
        · rw [hr, ha]
          exact .inr ⟨f, i, s, rfl, ht, hfill, .inr ⟨ho, rfl⟩⟩
    · exact .inl (.inr (.inl (r.ingest_badHeader hm hf)))

theorem ingest_represents (h : r.Represents) (m : Message) : (r.ingest m).2.Represents := by
  rcases ingest_cases h m with (hr | hr | hr | hr) | ⟨f, i, s, -, ht, -, ⟨hr, hg, hu⟩ | ⟨-, hr⟩⟩
  · rw [hr]; exact h
  · rw [hr]; exact h
  · rw [hr]; exact h
  · rw [hr]; exact h
  · obtain ⟨hin, hgid, htot⟩ := Slot.tracks_eq.mp ht.tracks
    rw [hr]
    refine represents_set h (fun _ => hu) (fun hfree => ?_) fun _ j hj => ?_
    · rw [hg.inUse, hin] at hfree
      cases hfree
    · rw [hg.groupId, hg.total, hgid, htot] at hj
      exact ht.only h j hj
  · rw [hr]; exact represents_free h i

theorem call_represents (h : r.Represents) (c : Call) : (r.call c).2.Represents := by
  cases c with
  | ingest m => exact ingest_represents h m
  | evict groupId =>
    rcases evict_cases r groupId with ⟨-, he⟩ | ⟨i, -, he⟩
    · show (r.evict groupId).2.Represents
      rw [he]; exact h
    · show (r.evict groupId).2.Represents
      rw [he]; exact represents_free h i

/-- A reassembler after some calls. -/
def after (calls : List Call) : Reassembler SLOTS PER_SLOT := (run call new calls).2

theorem after_represents (calls : List Call) : (after calls : Reassembler SLOTS PER_SLOT).Represents :=
  @run_inv _ _ _ call Represents (fun _ => True) (fun _ c _ h => call_represents h c) _ calls
    (fun _ _ => trivial) represents_new

/-! ## Nothing is out of range -/

end Reassembler

namespace Slot

variable {PER_SLOT : Nat}

/-- With all numbers in range the loop over the buckets ends. -/
theorem concatChecked_eq (s : Slot PER_SLOT) {l : List Nat} (h : ∀ seq ∈ l, seq < PER_SLOT) (assembled : Payload) :
    s.concatChecked l assembled = some (assembled.extendAll (l.map fun seq => (s.bucket seq).toList)) := by
  induction l generalizing assembled with
  | nil => rfl
  | cons seq l ih =>
    have hseq := h seq (List.mem_cons_self ..)
    have hb : s.bucket seq = s.fragments[seq] := by rw [bucket, Vector.getElem?_eq_getElem hseq]; rfl
    rw [concatChecked, Vector.getElem?_eq_getElem hseq, List.map_cons, HVec.extendAll, hb]
    dsimp only
    cases assembled.extendFromSlice s.fragments[seq].toList with
    | none => rfl
    | some assembled => exact ih (fun q hq => h q (List.mem_cons_of_mem _ hq)) assembled

theorem assembleChecked_eq {s : Slot PER_SLOT} (h : s.total.toNat ≤ PER_SLOT) (m : Message) :
    s.assembleChecked m = some (s.assemble m) := by
  have hl : ∀ seq ∈ List.range s.total.toNat, seq < PER_SLOT := fun seq hs =>
    Nat.lt_of_lt_of_le (List.mem_range.mp hs) h
  rw [assembleChecked, assemble, concatChecked_eq s hl]
  cases (HVec.empty : Payload).extendAll _ with
  | none => rfl
  | some assembled => rfl

theorem acceptChecked_eq {s : Slot PER_SLOT} (h : s.Filling) {f : Fragment} (hq : f.seq.toNat < s.total.toNat)
    (m : Message) : s.acceptChecked f m = some (s.accept f m) := by
  have := h.ok.total_le
  have := h.ok.total_le_mask
  have := h.received_lt
  have hasm : (s.store f.seq m.payload).assembleChecked m = some ((s.store f.seq m.payload).assemble m) :=
    assembleChecked_eq (s := s.store f.seq m.payload) h.ok.total_le m
  rw [acceptChecked, accept, HVec.extendFromSlice_empty]
  simp only [guard, show f.seq.toNat < 64 by omega, show f.seq.toNat < PER_SLOT by omega,
    show s.received.toNat + 1 < 65536 by omega, if_true, pure_bind, hasm]
  split
  · rfl
  · split
    · rfl
    · rfl

end Slot

namespace Reassembler

variable {SLOTS PER_SLOT : Nat} {r : Reassembler SLOTS PER_SLOT}

theorem ingestChecked_eq (h : r.Represents) (m : Message) : r.ingestChecked m = some (r.ingest m) := by
  unfold ingestChecked ingest
  cases hm : m.frag with
  | none => rfl
  | some f =>
    dsimp only
    split
    · rfl
    · rename_i hb
      have hf : Spec.HeaderOk PER_SLOT f := not_not.mp fun hn => hb ((bad_iff PER_SLOT f).mpr hn)
      rcases findOrClaim_takes h f m with hc | ⟨i, s, r', ht, hc, hs, -⟩
      · rw [hc]
      · have hq : f.seq.toNat < s.total.toNat := by
          rw [(Slot.tracks_eq.mp ht.tracks).2.2]
          exact UInt16.lt_iff_toNat_lt.mp hf.2.1
        rw [hc]
        dsimp only
        rw [hs, Slot.acceptChecked_eq (ht.filling h hf) hq m]
        rfl

/-- After any calls, every slot in use has the slices whose bits are set and
nothing else, every other one is as at first, and no two track one group. So
with any message the next call of `ingest` has no index, shift or increment out
of range. -/
theorem slots_represent (SLOTS PER_SLOT : Nat) (calls : List Call) :
    (after calls : Reassembler SLOTS PER_SLOT).Represents ∧
      ∀ m, (after calls : Reassembler SLOTS PER_SLOT).ingestChecked m =
        some ((after calls : Reassembler SLOTS PER_SLOT).ingest m) :=
  ⟨after_represents calls, fun m => ingestChecked_eq (after_represents calls) m⟩

/-! ## What a call changes -/

/-- What becomes of a reassembler that ingests `m` with this outcome. -/
def Effect (r : Reassembler SLOTS PER_SLOT) (m : Message) :
    ReassembleOutcome → Reassembler SLOTS PER_SLOT → Prop
  | .passthrough _, r' | .dropped .badHeader, r' | .dropped .noSlot, r' | .dropped .duplicateSlice, r' => r' = r
  | .dropped .payloadTooLarge, r' | .complete _, r' => ∃ f, m.frag = some f ∧ ∀ j : Fin SLOTS,
      r'.slots.get j = if (r.slots.get j).tracks f.groupId f.total then .new else r.slots.get j
  | .buffered, r' => ∃ f i s, m.frag = some f ∧ r.Takes f m i s ∧ s.Gains (r'.slots.get i) f.seq.toNat m.payload ∧
      (r'.slots.get i).tracks f.groupId f.total = true ∧ r'.slots.get i ≠ r.slots.get i ∧
      ∀ j, j ≠ i → r'.slots.get j = r.slots.get j

/-- The slot of the group is freed, if there is one. -/
theorem slots_free (h : r.Represents) {f : Fragment} {m : Message} {i : Fin SLOTS} {s : Slot PER_SLOT}
    (ht : r.Takes f m i s) (j : Fin SLOTS) :
    (r.setSlot i .new).slots.get j = if (r.slots.get j).tracks f.groupId f.total then .new else r.slots.get j := by
  rw [slots_setSlot]
  by_cases hj : (r.slots.get j).tracks f.groupId f.total = true
  · rw [if_pos hj, if_pos (ht.only h j hj)]
  · rw [if_neg hj]
    split
    · rename_i hji
      subst hji
      rcases ht with ⟨ht, -⟩ | ⟨-, hnew, -⟩
      · exact absurd ht hj
      · exact hnew.symm
    · rfl

/-- A message that is refused changes nothing; one that ends its group frees the
slot of the group, if there was one; and one that is stored changes the slot of
its group by this one slice. -/
theorem ingest_effect (SLOTS PER_SLOT : Nat) (calls : List Call) (m : Message) :
    (after calls : Reassembler SLOTS PER_SLOT).Effect m
      ((after calls : Reassembler SLOTS PER_SLOT).ingest m).1
      ((after calls : Reassembler SLOTS PER_SLOT).ingest m).2 := by
  have h : (after calls : Reassembler SLOTS PER_SLOT).Represents := after_represents calls
  generalize (after calls : Reassembler SLOTS PER_SLOT) = r at h ⊢
  rcases ingest_cases h m with (hr | hr | hr | hr) | ⟨f, i, s, hm, ht, -, ⟨hr, hg, hu⟩ | ⟨ho, hr⟩⟩
  · rw [hr]; exact rfl
  · rw [hr]; exact rfl
  · rw [hr]; exact rfl
  · rw [hr]; exact rfl
  · rw [hr]
    refine ⟨f, i, s, hm, ht, ?_, ?_, ?_, fun j hj => ?_⟩
    · rw [slots_setSlot, if_pos rfl]; exact hg
    · rw [slots_setSlot, if_pos rfl]; exact ht.tracks
    · rw [slots_setSlot, if_pos rfl]
      rcases ht with ⟨-, rfl⟩ | ⟨-, hnew, rfl⟩
      · exact hg.ne
      · intro he
        have hin : (r.slots.get i).inUse = true := he ▸ hg.inUse
        rw [hnew] at hin
        cases hin
    · rw [slots_setSlot, if_neg hj]
  · rw [hr]
    have hfree := fun j => slots_free h ht j
    rcases ho with ho | ⟨x, ho⟩
    · rw [ho]; exact ⟨f, hm, hfree⟩
    · rw [ho]; exact ⟨f, hm, hfree⟩

end Reassembler

end RelayStar

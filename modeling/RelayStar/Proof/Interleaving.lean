import Mathlib.Data.List.Nodup
import RelayStar.Framework.Machine
import RelayStar.Proof.Reassembler

/-!
# Reassembly of interleaved groups

Slices of several groups arrive in any order, each once. Between any two
arrivals the table holds exactly the groups of which a part has arrived and a
part has not, each with the slices that have (`Arriving`); so there is a slot
for every slice, and the last slice of a group delivers it
(`reassembly_interleaved`).
-/

namespace RelayStar

open Spec

namespace Spec.Group

variable {g g' : Group} {k k' : Nat}

theorem mem_frames {m : Message} : m ∈ g.frames ↔ ∃ k < g.slices.length, g.frame k = m := by
  simp only [frames, List.mem_map, List.mem_range]

theorem toNat_seq (h64 : g.slices.length ≤ 64) (hk : k < g.slices.length) :
    (g.fragment k).seq.toNat = k := by
  rw [fragment, UInt16.toNat_ofNat']; omega

theorem toNat_total (h64 : g.slices.length ≤ 64) : (g.fragment k).total.toNat = g.slices.length := by
  rw [fragment, UInt16.toNat_ofNat']; omega

theorem fragment_eq {m : Message} (h : m ∈ g.frames) : ∃ k < g.slices.length, m.frag = some (g.fragment k) := by
  obtain ⟨k, hk, rfl⟩ := mem_frames.mp h
  exact ⟨k, hk, rfl⟩

theorem frame_inj (h64 : g.slices.length ≤ 64) (hk : k < g.slices.length) (hk' : k' < g.slices.length)
    (h : g.frame k = g.frame k') : k = k' := by
  have h := congrArg (fun f => f.seq.toNat) (Option.some.inj (congrArg Message.frag h))
  simpa only [toNat_seq h64 hk, toNat_seq h64 hk'] using h

theorem groupId_eq {m : Message} (h : m ∈ g.frames) (h' : m ∈ g'.frames) : g.groupId = g'.groupId := by
  obtain ⟨k, -, hf⟩ := fragment_eq h
  obtain ⟨k', -, hf'⟩ := fragment_eq h'
  exact congrArg Fragment.groupId (Option.some.inj (hf.symm.trans hf'))

theorem frames_nodup (h64 : g.slices.length ≤ 64) : g.frames.Nodup := by
  refine List.Nodup.map_on ?_ List.nodup_range
  intro k hk k' hk' h
  exact frame_inj h64 (List.mem_range.mp hk) (List.mem_range.mp hk') h

/-- The headers of the slices of a group are valid. -/
theorem headerOk {PER_SLOT : Nat} (h : g.slices.length ≤ min PER_SLOT 64) (hk : k < g.slices.length) :
    HeaderOk PER_SLOT (g.fragment k) := by
  have hseq := g.toNat_seq (by omega) hk
  have htot : (g.fragment k).total.toNat = g.slices.length := g.toNat_total (by omega)
  refine ⟨fun h0 => ?_, ?_, ?_, ?_⟩
  · rw [h0, UInt16.toNat_zero] at htot
    omega
  · rw [UInt16.lt_iff_toNat_lt, hseq, htot]; exact hk
  · rw [htot]; omega
  · rw [UInt16.le_iff_toNat_le, htot]
    show _ ≤ 64
    omega

end Spec.Group

/-- The parts `p` of a group are those among the frames `pre`. -/
structure PartsOf (g : Group) (pre : List Message) (p : Partial) : Prop where
  template : p.template = { g.header with payload := .empty, frag := none }
  slices : ∀ k < g.slices.length, p.slices k = if g.frame k ∈ pre then g.slices[k]? else none

/-- What the table holds when the frames `pre` have arrived and `post` have not:
the groups that have begun and not ended, with the slices that have arrived. -/
structure Arriving (groups : List Group) (pre post : List Message) (T : Table) : Prop where
  part : ∀ g ∈ groups, (∃ m ∈ pre, m ∈ g.frames) → (∃ m ∈ post, m ∈ g.frames) →
    ∃ p, T g.key = some p ∧ PartsOf g pre p
  begun : ∀ g ∈ groups, T g.key ≠ none → ∃ m ∈ pre, m ∈ g.frames
  ended : ∀ g ∈ groups, T g.key ≠ none → ∃ m ∈ post, m ∈ g.frames
  other : ∀ k, T k ≠ none → k ∈ groups.map Group.key

/-! ## One group -/

section One

variable {g : Group} {pre : List Message} {k : Nat} {p : Partial}

theorem partsOf_start (hpre : ¬ ∃ m ∈ pre, m ∈ g.frames) : PartsOf g pre (.start (g.frame k)) where
  template := rfl
  slices j hj := by
    rw [if_neg fun h => hpre ⟨_, h, Group.mem_frames.mpr ⟨j, hj, rfl⟩⟩]; rfl

/-- Another slice of the group arrives. -/
theorem PartsOf.add (hp : PartsOf g pre p) (h64 : g.slices.length ≤ 64) (hk : k < g.slices.length) :
    PartsOf g (pre ++ [g.frame k]) (p.add k (g.frame k).payload) where
  template := hp.template
  slices j hj := by
    simp only [Partial.add, List.mem_append, List.mem_singleton]
    by_cases h : j = k
    · subst h
      rw [Parts.insert_self, if_pos (Or.inr rfl), Group.frame, List.getElem?_eq_getElem hj]
      rfl
    · rw [Parts.insert_of_ne _ _ h, hp.slices j hj]
      refine if_congr ⟨Or.inl, fun h' => h'.resolve_right fun e => h ?_⟩ rfl rfl
      exact Group.frame_inj h64 hj hk e

/-- The parts are all there when all frames of the group have arrived. -/
theorem PartsOf.full_iff (hp : PartsOf g pre p) :
    (∀ j < g.slices.length, p.slices j ≠ none) ↔ ∀ m ∈ g.frames, m ∈ pre := by
  constructor
  · intro h m hm
    obtain ⟨j, hj, rfl⟩ := Group.mem_frames.mp hm
    have := h j hj
    rw [hp.slices j hj] at this
    by_contra hn
    exact this (if_neg hn)
  · intro h j hj
    rw [hp.slices j hj, if_pos (h _ (Group.mem_frames.mpr ⟨j, hj, rfl⟩)), List.getElem?_eq_getElem hj]
    exact Option.some_ne_none _

theorem PartsOf.deliver (hp : PartsOf g pre p) (h : ∀ m ∈ g.frames, m ∈ pre) :
    p.deliver g.slices.length = .complete g.whole := by
  have hall : ∀ j (hj : j < g.slices.length), p.slices j = some g.slices[j] := fun j hj => by
    rw [hp.slices j hj, if_pos (h _ (Group.mem_frames.mpr ⟨j, hj, rfl⟩)), List.getElem?_eq_getElem hj]
  have hpay : p.payload g.slices.length = (g.slices.map HVec.toList).flatten := by
    rw [Partial.payload, Parts.gather_eq hall]
  simp only [Partial.deliver, hpay, g.length_le, dif_pos, hp.template, Group.whole]

/-- What comes of a slice that joins the parts of its group. -/
theorem PartsOf.join (hp : PartsOf g pre p) (h64 : g.slices.length ≤ 64) (hk : k < g.slices.length)
    (T : Table) :
    T.join (g.fragment k) (g.frame k) p =
      if ∀ m ∈ g.frames, m ∈ pre ++ [g.frame k] then (.complete g.whole, Function.update T g.key none)
      else (.buffered, Function.update T g.key (some (p.add k (g.frame k).payload))) := by
  have hp := hp.add h64 hk
  simp only [Table.join, g.toNat_seq h64 hk, g.toNat_total h64, hp.full_iff]
  split
  · rename_i h
    rw [hp.deliver h]
    rfl
  · rfl

variable {SLOTS PER_SLOT : Nat} {r : Reassembler SLOTS PER_SLOT}

/-- The first slice of several takes a free slot. -/
theorem Reassembler.ingest_first (hI : r.Inv) (hT : r.table g.key = none) (hroom : r.room = true)
    (h2 : 2 ≤ g.slices.length) (hlen : g.slices.length ≤ min PER_SLOT 64) (hk : k < g.slices.length) :
    (r.ingest (g.frame k)).1 = .buffered ∧ (r.ingest (g.frame k)).2.Inv ∧
      ∃ p, (r.ingest (g.frame k)).2.table = Function.update r.table g.key (some p) ∧
        PartsOf g [g.frame k] p := by
  have h64 : g.slices.length ≤ 64 := by omega
  obtain ⟨h1, h2', h3⟩ := r.ingest_refines hI (m := g.frame k) rfl (g.headerOk hlen hk)
  have hp : PartsOf g [] (.start (g.frame k)) := partsOf_start (by simp)
  have hoff := Table.offer_of_none (f := g.fragment k) hT hroom (g.frame k)
  -- another slice of the group has not arrived
  have hmore : ¬ ∀ m ∈ g.frames, m ∈ [] ++ [g.frame k] := fun h => by
    have hj : 1 - k < g.slices.length := by omega
    have := h _ (Group.mem_frames.mpr ⟨1 - k, hj, rfl⟩)
    rw [List.nil_append, List.mem_singleton] at this
    have := Group.frame_inj h64 hj hk this
    omega
  rw [hoff, hp.join h64 hk, if_neg hmore] at h1 h2'
  exact ⟨h1, h3, _, h2', hp.add h64 hk⟩

/-- The last slice frees the slot of its group, whatever its header says. -/
theorem Reassembler.ingest_last (hI : r.Inv) (hT : r.table g.key = some p) (hp : PartsOf g pre p)
    (hlen : g.slices.length ≤ min PER_SLOT 64) (hk : k < g.slices.length) (hnew : g.frame k ∉ pre)
    (hall : ∀ m ∈ g.frames, m ∈ pre ++ [g.frame k]) {x : Message} (hx : x.frag = some (g.fragment k))
    (hpay : x.payload = (g.frame k).payload) :
    (r.ingest x).1 = .complete g.whole ∧ (r.ingest x).2.Inv ∧
      (r.ingest x).2.table = Function.update r.table g.key none := by
  have h64 : g.slices.length ≤ 64 := by omega
  obtain ⟨h1, h2, h3⟩ := r.ingest_refines hI hx (g.headerOk hlen hk)
  have hnone : p.slices (g.fragment k).seq.toNat = none := by
    rw [g.toNat_seq h64 hk, hp.slices k hk, if_neg hnew]
  have hoff := Table.offer_of_some (f := g.fragment k) hT hnone r.room x
  rw [hoff, r.table.join_congr (g.fragment k) hpay, hp.join h64 hk, if_pos hall] at h1 h2
  exact ⟨h1, h3, h2⟩

end One

/-! ## All groups -/

section All

variable {PER_SLOT : Nat} {groups : List Group} (hids : (groups.map Group.groupId).Nodup)
  (hsize : ∀ g ∈ groups, 1 ≤ g.slices.length ∧ g.slices.length ≤ min PER_SLOT 64)

include hids

/-- A frame belongs to one of the groups only. -/
theorem group_unique {g g' : Group} (hg : g ∈ groups) (hg' : g' ∈ groups) (h : g.groupId = g'.groupId) :
    g = g' := List.inj_on_of_nodup_map hids hg hg' h

include hsize

theorem frames_flatMap_nodup : (groups.flatMap Group.frames).Nodup := by
  rw [List.nodup_flatMap]
  refine ⟨fun g hg => Group.frames_nodup (by have := hsize g hg; omega), ?_⟩
  have := List.pairwise_map.mp hids
  exact this.imp fun hne m hm hm' => hne (Group.groupId_eq hm hm')

variable {pre post : List Message} {T : Table} {g : Group} {k : Nat}

/-- Every frame of a group has arrived, or is still to come. -/
theorem arrived_iff (hperm : (pre ++ post).Perm (groups.flatMap Group.frames)) (hg : g ∈ groups) :
    (∀ m ∈ g.frames, m ∈ pre) ↔ ¬ ∃ m ∈ post, m ∈ g.frames := by
  constructor
  · rintro h ⟨m, hm, hmg⟩
    have hnd := hperm.nodup_iff.mpr (frames_flatMap_nodup hids hsize)
    exact (List.nodup_append.mp hnd).2.2 m (h m hmg) m hm rfl
  · intro h m hm
    have := hperm.mem_iff.mpr (List.mem_flatMap.mpr ⟨g, hg, hm⟩)
    exact (List.mem_append.mp this).resolve_right fun hp => h ⟨m, hp, hm⟩

/-- A slice that arrives joins the parts of its group. -/
theorem Arriving.offer (hperm : (pre ++ g.frame k :: post).Perm (groups.flatMap Group.frames))
    (hA : Arriving groups pre (g.frame k :: post) T) (hg : g ∈ groups) (hk : k < g.slices.length)
    {room : Bool} (hroom : T g.key = none → room = true) :
    ∃ p, PartsOf g pre p ∧
      T.offer room (g.fragment k) (g.frame k) =
        T.join (g.fragment k) (g.frame k) p := by
  have h64 : g.slices.length ≤ 64 := by have := hsize g hg; omega
  have hmem := Group.mem_frames.mpr ⟨k, hk, rfl⟩
  by_cases hpre : ∃ m ∈ pre, m ∈ g.frames
  · obtain ⟨p, hT, hp⟩ := hA.part g hg hpre ⟨_, List.mem_cons_self, hmem⟩
    have hnew : g.frame k ∉ pre := fun h => by
      have hnd := hperm.nodup_iff.mpr (frames_flatMap_nodup hids hsize)
      exact (List.nodup_append.mp hnd).2.2 _ h _ List.mem_cons_self rfl
    have hnone : p.slices (g.fragment k).seq.toNat = none := by
      rw [g.toNat_seq h64 hk, hp.slices k hk, if_neg hnew]
    exact ⟨p, hp, Table.offer_of_some (f := g.fragment k) hT hnone room _⟩
  · have hT : T g.key = none := by
      by_contra h
      exact hpre (hA.begun g hg h)
    exact ⟨_, partsOf_start hpre, Table.offer_of_none (f := g.fragment k) hT (hroom hT) _⟩

omit hsize in
/-- What becomes of the group of a slice that arrives. -/
theorem Arriving.update (hA : Arriving groups pre (g.frame k :: post) T) (hg : g ∈ groups)
    (hk : k < g.slices.length) {x : Option Partial}
    (hx : (∃ m ∈ post, m ∈ g.frames) → ∃ p, x = some p ∧ PartsOf g (pre ++ [g.frame k]) p)
    (hx' : x ≠ none → ∃ m ∈ post, m ∈ g.frames) :
    Arriving groups (pre ++ [g.frame k]) post (Function.update T g.key x) := by
  have hmem := Group.mem_frames.mpr ⟨k, hk, rfl⟩
  have hkey : ∀ g' ∈ groups, g' ≠ g → g'.key ≠ g.key := fun g' hg' hne e =>
    hne (group_unique hids hg' hg (congrArg Prod.fst e))
  have hnot : ∀ g' ∈ groups, g' ≠ g → g.frame k ∉ g'.frames := fun g' hg' hne h =>
    hne (group_unique hids hg' hg (Group.groupId_eq h hmem))
  refine ⟨fun g' hg' hpre hpost => ?_, fun g' hg' hT => ?_, fun g' hg' hT => ?_, fun q hq => ?_⟩
  · by_cases h : g' = g
    · subst h
      rw [Function.update_self]
      exact hx hpost
    · rw [Function.update_of_ne (hkey g' hg' h)]
      obtain ⟨m, hm, hmg⟩ := hpre
      obtain ⟨m', hm', hmg'⟩ := hpost
      have hm : m ∈ pre := (List.mem_append.mp hm).resolve_right fun e =>
        hnot g' hg' h (List.mem_singleton.mp e ▸ hmg)
      obtain ⟨p, hp, hpp⟩ := hA.part g' hg' ⟨m, hm, hmg⟩ ⟨m', List.mem_cons_of_mem _ hm', hmg'⟩
      refine ⟨p, hp, hpp.template, fun j hj => ?_⟩
      rw [hpp.slices j hj]
      refine if_congr ⟨List.mem_append_left _, fun e => (List.mem_append.mp e).resolve_right fun e => ?_⟩ rfl rfl
      exact hnot g' hg' h (List.mem_singleton.mp e ▸ Group.mem_frames.mpr ⟨j, hj, rfl⟩)
  · by_cases h : g' = g
    · exact ⟨_, List.mem_append_right _ (List.mem_singleton_self _), h ▸ hmem⟩
    · rw [Function.update_of_ne (hkey g' hg' h)] at hT
      obtain ⟨m, hm, hmg⟩ := hA.begun g' hg' hT
      exact ⟨m, List.mem_append_left _ hm, hmg⟩
  · by_cases h : g' = g
    · subst h
      rw [Function.update_self] at hT
      exact hx' hT
    · rw [Function.update_of_ne (hkey g' hg' h)] at hT
      obtain ⟨m, hm, hmg⟩ := hA.ended g' hg' hT
      exact ⟨m, (List.mem_cons.mp hm).resolve_left fun e => hnot g' hg' h (e ▸ hmg), hmg⟩
  · by_cases h : q = g.key
    · exact h ▸ List.mem_map.mpr ⟨g, hg, rfl⟩
    · rw [Function.update_of_ne h] at hq
      exact hA.other q hq

/-- One slice arrives. -/
theorem Arriving.step (hperm : (pre ++ g.frame k :: post).Perm (groups.flatMap Group.frames))
    (hA : Arriving groups pre (g.frame k :: post) T) (hg : g ∈ groups) (hk : k < g.slices.length)
    {room : Bool} (hroom : T g.key = none → room = true) :
    let o := T.offer room (g.fragment k) (g.frame k)
    (o.1 = if ∃ m ∈ post, m ∈ g.frames then .buffered else .complete g.whole) ∧
      Arriving groups (pre ++ [g.frame k]) post o.2 := by
  have h64 : g.slices.length ≤ 64 := by have := hsize g hg; omega
  obtain ⟨p, hp, ho⟩ := hA.offer hids hsize hperm hg hk hroom
  rw [List.append_cons] at hperm
  have hall := arrived_iff hids hsize hperm hg
  simp only [ho, hp.join h64 hk]
  split
  · rename_i hfull
    have hend := hall.mp hfull
    rw [if_neg hend]
    exact ⟨rfl, hA.update hids hg hk (fun h => absurd h hend) fun h => absurd rfl h⟩
  · rename_i hfull
    have hend := not_not.mp (hall.not.mp hfull)
    rw [if_pos hend]
    exact ⟨rfl, hA.update hids hg hk (fun _ => ⟨_, rfl, hp.add h64 hk⟩) fun _ => hend⟩

end All

/-! ## The slots -/

section Slots

variable {SLOTS PER_SLOT : Nat} {groups : List Group} (hids : (groups.map Group.groupId).Nodup)
  (hlen : groups.length ≤ SLOTS)
  (hsize : ∀ g ∈ groups, 1 ≤ g.slices.length ∧ g.slices.length ≤ min PER_SLOT 64)
  {r : Reassembler SLOTS PER_SLOT} {pre post : List Message} {m : Message}

include hlen in
/-- There is a slot for a group that has not begun. -/
theorem Arriving.room (hI : r.Inv) (hA : Arriving groups pre post r.table) {g : Group} (hg : g ∈ groups)
    (hT : r.table g.key = none) : r.room = true := by
  have hmem : g.key ∈ groups.map Group.key := List.mem_map.mpr ⟨g, hg, rfl⟩
  have hle := r.inFlight_le hI (l := (groups.map Group.key).erase g.key) fun q hq => by
    have hne : q ≠ g.key := fun e => hq (e ▸ hT)
    exact (List.mem_erase_of_ne hne).mpr (hA.other q hq)
  rw [List.length_erase_of_mem hmem, List.length_map] at hle
  have := List.length_pos_of_mem hg
  rw [Reassembler.room, decide_eq_true_eq]
  omega

include hids hlen hsize

theorem Arriving.ingest (hperm : (pre ++ m :: post).Perm (groups.flatMap Group.frames)) (hI : r.Inv)
    (hA : Arriving groups pre (m :: post) r.table) :
    (r.ingest m).2.Inv ∧ Arriving groups (pre ++ [m]) post (r.ingest m).2.table ∧
      ∀ g ∈ groups, m ∈ g.frames →
        (r.ingest m).1 = if ∃ m ∈ post, m ∈ g.frames then .buffered else .complete g.whole := by
  obtain ⟨g, hg, hm⟩ := List.mem_flatMap.mp (hperm.mem_iff.mp (List.mem_append_right _ List.mem_cons_self))
  obtain ⟨k, hk, rfl⟩ := Group.mem_frames.mp hm
  obtain ⟨ho, hA'⟩ := hA.step hids hsize hperm hg hk fun hT => hA.room hlen hI hg hT
  obtain ⟨h1, h2, h3⟩ := r.ingest_refines hI (m := g.frame k) rfl (g.headerOk (hsize g hg).2 hk)
  refine ⟨h3, h2 ▸ hA', fun g' hg' hm' => ?_⟩
  obtain rfl := group_unique hids hg' hg (Group.groupId_eq hm' hm)
  rw [h1, ho]

end Slots

/-- Slices of at most as many groups as there are slots, interleaved in any
order, are reassembled: each is buffered but the last of its group, which
delivers the message, and no slot stays in use. -/
theorem reassembly_interleaved {SLOTS PER_SLOT : Nat} (r : Reassembler SLOTS PER_SLOT) (hr : r.inFlight = 0)
    (groups : List Group) (hlen : groups.length ≤ SLOTS) (hids : (groups.map Group.groupId).Nodup)
    (hsize : ∀ g ∈ groups, 1 ≤ g.slices.length ∧ g.slices.length ≤ min PER_SLOT 64)
    (frames : List Message) (hperm : frames.Perm (groups.flatMap Group.frames)) :
    (∀ pre m post, frames = pre ++ m :: post → ∀ g ∈ groups, m ∈ g.frames →
      (run Reassembler.ingest r frames).1[pre.length]? =
        some (if ∃ m' ∈ post, m' ∈ g.frames then .buffered else .complete g.whole)) ∧
      (run Reassembler.ingest r frames).2.inFlight = 0 := by
  have hI := Reassembler.inv_of_idle hr
  have hempty := (Reassembler.inFlight_eq_zero hI).mp hr
  have h0 : Arriving groups [] frames r.table :=
    ⟨fun g _ h => absurd h (by simp), fun g _ h => absurd (hempty _) h, fun g _ h => absurd (hempty _) h,
      fun q h => absurd (hempty _) h⟩
  have hrun : ∀ pre post, frames = pre ++ post →
      (run Reassembler.ingest r pre).2.Inv ∧ Arriving groups pre post (run Reassembler.ingest r pre).2.table := by
    rintro pre post rfl
    refine run_split (P := fun pre post (r : Reassembler SLOTS PER_SLOT) =>
      (pre ++ post).Perm (groups.flatMap Group.frames) → r.Inv ∧ Arriving groups pre post r.table)
      (fun pre i post r ih hp => ?_) (fun _ => ⟨hI, h0⟩) hperm
    rw [← List.append_cons] at hp
    obtain ⟨hI, hA⟩ := ih hp
    obtain ⟨hI', hA', -⟩ := hA.ingest hids hlen hsize hp hI
    exact ⟨hI', hA'⟩
  refine ⟨fun pre m post hf g hg hm => ?_, ?_⟩
  · obtain ⟨hI, hA⟩ := hrun pre (m :: post) hf
    rw [hf, getElem?_run, (hA.ingest hids hlen hsize (hf ▸ hperm) hI).2.2 g hg hm]
  · obtain ⟨hI, hA⟩ := hrun frames [] (List.append_nil _).symm
    rw [Reassembler.inFlight_eq_zero hI]
    intro q
    by_contra hq
    obtain ⟨g, hg, rfl⟩ := List.mem_map.mp (hA.other q hq)
    obtain ⟨m, hm, -⟩ := hA.ended g hg hq
    cases hm

/-- Two groups of two slices, mixed. -/
theorem reassembly_interleaved_two :
    let header : Message := ⟨7, 4, .lora, BROADCAST_ADDR, BROADCAST_ADDR, .text, .empty, none⟩
    let a : Group := ⟨1, header, [⟨[10], by decide⟩, ⟨[11], by decide⟩], by decide⟩
    let b : Group := ⟨2, header, [⟨[20], by decide⟩, ⟨[21], by decide⟩], by decide⟩
    (run Reassembler.ingest (.new : Reassembler 2 2) [a.frame 1, b.frame 0, b.frame 1, a.frame 0]).1[2]? =
      some (.complete b.whole) := by
  intro header a b
  exact (reassembly_interleaved .new Reassembler.inFlight_new [a, b] (by decide) (by decide) (by decide)
    [a.frame 1, b.frame 0, b.frame 1, a.frame 0] (by decide)).1
      [a.frame 1, b.frame 0] (b.frame 1) [a.frame 0] rfl b (List.mem_cons_of_mem _ List.mem_cons_self)
      (by decide)

end RelayStar

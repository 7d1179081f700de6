import RelayStar.Framework.Machine
import RelayStar.Proof.Reachable

/-!
# Where a reassembled message comes from

A reassembler is driven by calls of `ingest` and `evict` (`Reassembler.Call`).
In every state of a run each group is held with the slices it was received
from, and the header of one of them (`Sources`, `run_sourced`); so a message
that is delivered is put together from ingested slices of its group, in order,
and has the header of one of them (`reassembled_from_parts`). The slots are
found by group id and number of slices only: slices of different messages that
agree in these are put together.
-/

namespace RelayStar

/-- Parts that are all there, as a list. -/
theorem Parts.exists_list {α : Type} {p : Parts α} {n : Nat} (h : ∀ k < n, p k ≠ Option.none) :
    ∃ l : List α, l.length = n ∧ ∀ k (hk : k < l.length), p k = some l[k] := by
  induction n with
  | zero => exact ⟨[], rfl, fun k hk => absurd hk (Nat.not_lt_zero k)⟩
  | succ n ih =>
    obtain ⟨l, hl, hp⟩ := ih fun k hk => h k (Nat.lt_succ_of_lt hk)
    obtain ⟨a, ha⟩ := Option.ne_none_iff_exists'.mp (h n (Nat.lt_succ_self n))
    refine ⟨l ++ [a], by rw [List.length_append, hl]; rfl, fun k hk => ?_⟩
    rw [List.length_append, hl, List.length_singleton] at hk
    rcases Nat.lt_or_ge k n with hlt | hge
    · rw [List.getElem_append_left (hl ▸ hlt)]
      exact hp k (hl ▸ hlt)
    · obtain rfl : k = n := by omega
      rw [List.getElem_concat_length hl.symm, ha]

namespace Reassembler

variable {SLOTS PER_SLOT : Nat} {r : Reassembler SLOTS PER_SLOT}

/-! ## Runs -/

/-- A call of a reassembler. -/
inductive Call where
  | ingest (m : Message)
  | evict (groupId : UInt32)

/-- The outcome of a call, if it is one of `ingest`. -/
def call (r : Reassembler SLOTS PER_SLOT) : Call → Option ReassembleOutcome × Reassembler SLOTS PER_SLOT
  | .ingest m => (some (r.ingest m).1, (r.ingest m).2)
  | .evict groupId => (none, (r.evict groupId).2)

/-- The messages that are ingested. -/
def ingested (l : List Call) : List Message :=
  l.filterMap fun | .ingest m => some m | .evict _ => none

/-- Evicting a group forgets it, and nothing else. -/
theorem evict_spec (hI : r.Inv) (groupId : UInt32) :
    (r.evict groupId).2.Inv ∧ ∀ g p, (r.evict groupId).2.table g = some p → r.table g = some p := by
  rcases r.evict_cases groupId with ⟨-, he⟩ | ⟨i, hi, he⟩
  · rw [he]
    exact ⟨hI, fun g p h => h⟩
  · have hu : (r.slots.get i).inUse = true := (Bool.and_eq_true_iff.mp hi).1
    obtain ⟨⟨k, q⟩, hk⟩ := Option.ne_none_iff_exists'.mp fun h => by
      rw [(Slot.held_eq_none (hI.ok i)).mp h] at hu
      cases hu
    have hnew : (.new : Slot PER_SLOT).held = none := Slot.held_of_not_inUse rfl
    obtain ⟨hI', hT⟩ := setSlot_spec hI (i := i) (s := .new) (g := k) (fun h => by cases h)
      (fun j p hj => hI.distinct j i _ _ _ hj hk) (fun p hp => by rw [hk] at hp; cases hp; rfl)
      (fun p hp => by rw [hnew] at hp; cases hp)
    rw [he]
    refine ⟨hI', fun g p h => ?_⟩
    rw [hT, hnew] at h
    by_cases hg : g = k
    · subst hg
      rw [Function.update_self] at h
      cases h
    · rwa [Function.update_of_ne hg] at h

end Reassembler

/-! ## The slices behind a group -/

open Spec

/-- The message is slice `k` of the group. -/
def SliceOf (g : GroupKey) (k : Nat) (m : Message) : Prop :=
  ∃ f, m.frag = some f ∧ key f = g ∧ f.seq.toNat = k ∧ f.seq < f.total

/-- The slices that the parts of a group were received from, among the messages
of a history; the header of one of them, the first, is kept. -/
structure Sources (history : List Message) (g : GroupKey) (p : Partial) (src : Parts Message) : Prop where
  slices : ∀ k, p.slices k = (src k).map Message.payload
  mem : ∀ k m, src k = some m → m ∈ history ∧ SliceOf g k m
  template : ∃ k m, src k = some m ∧ p.template = { m with payload := .empty, frag := none }

namespace Sources

variable {history : List Message} {g : GroupKey} {p : Partial} {src : Parts Message} {q : Nat} {m : Message}

theorem mono {history' : List Message} (h : Sources history g p src) (hsub : history ⊆ history') :
    Sources history' g p src where
  slices := h.slices
  mem k m hk := ⟨hsub (h.mem k m hk).1, (h.mem k m hk).2⟩
  template := h.template

/-- One more slice is received. -/
theorem insert_mem (hsrc : ∀ k m, src k = some m → m ∈ history ∧ SliceOf g k m) (hm : SliceOf g q m) {k : Nat}
    {x : Message} (h : src.insert q m k = some x) : x ∈ history ++ [m] ∧ SliceOf g k x := by
  by_cases hk : k = q
  · rw [hk, Parts.insert_self] at h
    cases h
    exact ⟨List.mem_append_right _ (List.mem_singleton_self _), hk ▸ hm⟩
  · rw [Parts.insert_of_ne _ _ hk] at h
    exact ⟨List.mem_append_left _ (hsrc k x h).1, (hsrc k x h).2⟩

theorem insert_slices (h : ∀ k, p.slices k = (src k).map Message.payload) (q k : Nat) :
    (p.add q m.payload).slices k = (src.insert q m k).map Message.payload := by
  show p.slices.insert q m.payload k = _
  by_cases hk : k = q
  · rw [hk, Parts.insert_self, Parts.insert_self]; rfl
  · rw [Parts.insert_of_ne _ _ hk, Parts.insert_of_ne _ _ hk, h k]

/-- The first slice of a group. -/
theorem start (hm : SliceOf g q m) :
    Sources (history ++ [m]) g ((Partial.start m).add q m.payload) (Parts.none.insert q m) where
  slices := insert_slices (fun k => rfl) q
  mem k x h := insert_mem (fun k m (h : Parts.none k = some m) => by cases h) hm h
  template := ⟨q, m, Parts.insert_self .., rfl⟩

/-- Another slice of a group. -/
theorem add (h : Sources history g p src) (hm : SliceOf g q m) (hnew : p.slices q = none) :
    Sources (history ++ [m]) g (p.add q m.payload) (src.insert q m) where
  slices := insert_slices h.slices q
  mem k x hk := insert_mem h.mem hm hk
  template := by
    obtain ⟨k, x, hk, ht⟩ := h.template
    refine ⟨k, x, ?_, ht⟩
    rw [Parts.insert_of_ne _ _ fun e => ?_, hk]
    rw [← e, h.slices k, hk] at hnew
    cases hnew

end Sources

/-! ## What is delivered -/

/-- The message was put together from slices of the history: one for each
number, with the group id and the number of slices of `f`, their payloads one
after the other, and the header of one of them. -/
structure FromParts (history : List Message) (f : Fragment) (parts : List Message) (m : Message) : Prop where
  length : parts.length = f.total.toNat
  mem : ∀ y ∈ parts, y ∈ history
  frag : ∀ k (hk : k < parts.length), parts[k].frag = some ⟨f.groupId, UInt16.ofNat k, f.total⟩
  payload : (parts.map fun y => y.payload.toList).flatten = m.payload.toList
  header : ∃ y ∈ parts, m = { y with payload := m.payload, frag := none }

theorem Sources.deliver {history : List Message} {f : Fragment} {p : Partial} {src : Parts Message} {m : Message}
    (h : Sources history (key f) p src) (hall : ∀ k < f.total.toNat, p.slices k ≠ none)
    (hm : p.deliver f.total.toNat = .complete m) :
    ∃ parts, FromParts history f parts m ∧ ∀ k y, src k = some y → y ∈ parts := by
  have hsrc : ∀ k < f.total.toNat, src k ≠ none := fun k hk hn => hall k hk (by rw [h.slices k, hn]; rfl)
  obtain ⟨parts, hlen, hparts⟩ := Parts.exists_list hsrc
  have hmem : ∀ k y, src k = some y → y ∈ parts := fun k y hy => by
    obtain ⟨-, f', -, hg, hq, hlt⟩ := h.mem k y hy
    have hk : k < parts.length := by
      rw [hlen, ← (Prod.mk.inj hg).2, ← hq]
      exact UInt16.lt_iff_toNat_lt.mp hlt
    rw [Option.some.inj (hy.symm.trans (hparts k hk))]
    exact List.getElem_mem hk
  have hgather : p.slices.gather f.total.toNat = parts.map Message.payload := by
    rw [← hlen, show parts.length = (parts.map Message.payload).length from (List.length_map _).symm]
    apply Parts.gather_eq
    intro k hk
    rw [List.length_map] at hk
    rw [h.slices k, hparts k hk, List.getElem_map]
    rfl
  have hpayload : p.payload f.total.toNat = (parts.map fun y => y.payload.toList).flatten := by
    rw [Partial.payload, hgather, List.map_map]
    rfl
  unfold Partial.deliver at hm
  split at hm
  · cases hm
    refine ⟨parts, ⟨hlen, fun y hy => ?_, fun k hk => ?_, hpayload.symm, ?_⟩, hmem⟩
    · obtain ⟨k, hk, rfl⟩ := List.mem_iff_getElem.mp hy
      exact (h.mem k _ (hparts k hk)).1
    · obtain ⟨-, f', hf', hg, hq, -⟩ := h.mem k _ (hparts k hk)
      rw [hf', ← hq, UInt16.ofNat_toNat, ← (Prod.mk.inj hg).1, ← (Prod.mk.inj hg).2]
    · obtain ⟨k, y, hy, ht⟩ := h.template
      exact ⟨y, hmem k y hy, by rw [ht]⟩
  · cases hm

/-- All groups of a table were received from messages of the history. -/
def Sourced (history : List Message) (T : Table) : Prop :=
  ∀ g p, T g = some p → ∃ src, Sources history g p src

section Offer

variable {history : List Message} {T : Table} {m : Message} {f : Fragment}

theorem Sourced.mono (h : Sourced history T) {history' : List Message} (hsub : history ⊆ history') :
    Sourced history' T := fun g p hp => by
  obtain ⟨src, hsrc⟩ := h g p hp
  exact ⟨src, hsrc.mono hsub⟩

theorem Sourced.update (h : Sourced history T) {g : GroupKey} {x : Option Partial}
    (hx : ∀ p, x = some p → ∃ src, Sources history g p src) : Sourced history (Function.update T g x) := by
  intro g' p hp
  by_cases hg : g' = g
  · subst hg
    rw [Function.update_self] at hp
    exact hx p hp
  · rw [Function.update_of_ne hg] at hp
    exact h g' p hp

/-- A slice arrives. -/
theorem Sourced.offer (h : Sourced history T) (hm : SliceOf (key f) f.seq.toNat m) (room : Bool) :
    Sourced (history ++ [m]) (T.offer room f m).2 ∧
      ∀ x, (T.offer room f m).1 = .complete x → ∃ parts, m ∈ parts ∧ FromParts (history ++ [m]) f parts x := by
  have hmono := h.mono (List.subset_append_left history [m])
  rcases T.offer_cases room f m with ⟨reason, he⟩ | ⟨p, hp, hnew, he⟩
  · rw [he]
    exact ⟨hmono, fun x hx => by cases hx⟩
  · obtain ⟨src, hsrc, hlast⟩ : ∃ src, Sources (history ++ [m]) (key f) (p.add f.seq.toNat m.payload) src ∧
        src f.seq.toNat = some m := by
      rcases hp with hT | ⟨-, rfl⟩
      · obtain ⟨src, hsrc⟩ := h _ p hT
        exact ⟨_, hsrc.add hm hnew, Parts.insert_self ..⟩
      · exact ⟨_, .start hm, Parts.insert_self ..⟩
    rw [he, Table.join]
    split
    · rename_i hall
      refine ⟨hmono.update fun p hp => (by cases hp), fun x hx => ?_⟩
      obtain ⟨parts, hparts, hmem⟩ := hsrc.deliver hall hx
      exact ⟨parts, hmem _ _ hlast, hparts⟩
    · exact ⟨hmono.update fun p hp => Option.some.inj hp ▸ ⟨src, hsrc⟩, fun x hx => (by cases hx)⟩

end Offer

namespace Reassembler

variable {SLOTS PER_SLOT : Nat} {r : Reassembler SLOTS PER_SLOT} {history : List Message}

/-- A message is ingested. -/
theorem sourced_ingest (hI : r.Inv) (h : Sourced history r.table) (m : Message) :
    Sourced (history ++ [m]) (r.ingest m).2.table ∧
      ∀ x, (r.ingest m).1 = .complete x →
        ∃ f parts, m.frag = some f ∧ m ∈ parts ∧ FromParts (history ++ [m]) f parts x := by
  have hmono := h.mono (List.subset_append_left history [m])
  cases hf : m.frag with
  | none =>
    rw [r.ingest_unfragmented hf]
    exact ⟨hmono, fun x hx => by cases hx⟩
  | some f =>
    by_cases hok : HeaderOk PER_SLOT f
    · obtain ⟨h1, h2, -⟩ := r.ingest_refines hI hf hok
      obtain ⟨ht, hx⟩ := h.offer (m := m) ⟨f, hf, rfl, rfl, hok.2.1⟩ r.room
      rw [h1, h2]
      refine ⟨ht, fun x e => ?_⟩
      obtain ⟨parts, hm, hparts⟩ := hx x e
      exact ⟨f, parts, rfl, hm, hparts⟩
    · rw [r.ingest_badHeader hf hok]
      exact ⟨hmono, fun x hx => by cases hx⟩

/-- In every state of a run the groups were received from what was ingested. -/
theorem run_sourced (hr : r.inFlight = 0) (l : List Call) :
    (run call r l).2.Inv ∧ Sourced (ingested l) (run call r l).2.table := by
  refine @run_split _ _ _ call (fun pre _ r => r.Inv ∧ Sourced (ingested pre) r.table)
    (fun pre c post r ⟨hI, hS⟩ => ?_) r l [] ⟨inv_of_idle hr, ?_⟩
  · intro g p hp
    rw [(inFlight_eq_zero (inv_of_idle hr)).mp hr g] at hp
    cases hp
  · cases c with
    | ingest m =>
      rw [ingested, List.filterMap_append]
      exact ⟨ingest_inv hI m, (sourced_ingest hI hS m).1⟩
    | evict groupId =>
      obtain ⟨hI', hT⟩ := evict_spec hI groupId
      rw [ingested, List.filterMap_append, show List.filterMap _ [Call.evict groupId] = [] from rfl,
        List.append_nil]
      exact ⟨hI', fun g p hp => hS g p (hT g p hp)⟩

end Reassembler

/-- In every run of a reassembler from an empty one, a message that is delivered
is put together from slices of one group id and number of slices, all ingested
in the run and the last of them now, one for each number, and has the header of
one of them. So if the slices of the run with this group id and number of slices
are all of one message, the message is that one. -/
theorem reassembled_from_parts {SLOTS PER_SLOT : Nat} (r : Reassembler SLOTS PER_SLOT) (hr : r.inFlight = 0)
    (calls : List Reassembler.Call) (last m : Message)
    (h : ((run Reassembler.call r calls).2.ingest last).1 = .complete m) :
    ∃ f parts, last.frag = some f ∧ last ∈ parts ∧
      FromParts (Reassembler.ingested calls ++ [last]) f parts m ∧
      ((∀ y ∈ Reassembler.ingested calls ++ [last], ∀ f', y.frag = some f' → f'.groupId = f.groupId →
          f'.total = f.total → y.id = last.id ∧ y.fromAddr = last.fromAddr ∧ y.toAddr = last.toAddr ∧
            y.kind = last.kind) →
        ∀ y ∈ parts, y.id = m.id ∧ y.fromAddr = m.fromAddr ∧ y.toAddr = m.toAddr ∧ y.kind = m.kind) := by
  obtain ⟨hI, hS⟩ := Reassembler.run_sourced hr calls
  obtain ⟨f, parts, hf, hlast, hparts⟩ := (Reassembler.sourced_ingest hI hS last).2 m h
  refine ⟨f, parts, hf, hlast, hparts, fun hone => ?_⟩
  have hsame : ∀ y ∈ parts, y.id = last.id ∧ y.fromAddr = last.fromAddr ∧ y.toAddr = last.toAddr ∧
      y.kind = last.kind := fun y hy => by
    obtain ⟨k, hk, rfl⟩ := List.mem_iff_getElem.mp hy
    exact hone _ (hparts.mem _ hy) _ (hparts.frag k hk) rfl rfl
  obtain ⟨z, hz, hm⟩ := hparts.header
  have hheader : m.id = z.id ∧ m.fromAddr = z.fromAddr ∧ m.toAddr = z.toAddr ∧ m.kind = z.kind := by
    rw [hm]
    exact ⟨rfl, rfl, rfl, rfl⟩
  obtain ⟨h1, h2, h3, h4⟩ := hheader
  obtain ⟨z1, z2, z3, z4⟩ := hsame z hz
  intro y hy
  obtain ⟨y1, y2, y3, y4⟩ := hsame y hy
  exact ⟨y1.trans (h1.trans z1).symm, y2.trans (h2.trans z2).symm, y3.trans (h3.trans z3).symm,
    y4.trans (h4.trans z4).symm⟩

/-- Slice `k` of two, of one byte, from node `node`. -/
def exampleSlice (node : UInt8) (k : UInt16) : Message :=
  ⟨node.toUInt32, 4, .lora, nodeAddr node, BROADCAST_ADDR, .text, ⟨[node], Nat.le_of_ble_eq_true rfl⟩, some ⟨1, k, 2⟩⟩

/-- What comes of slice 0 from node 3 and slice 1 from node 4. -/
def exampleMixture : Message :=
  ⟨3, 4, .lora, nodeAddr 3, BROADCAST_ADDR, .text, ⟨[3, 4], Nat.le_of_ble_eq_true rfl⟩, none⟩

theorem ingest_exampleMixture :
    ((run Reassembler.call (.new : Reassembler 1 2) [.ingest (exampleSlice 3 0)]).2.ingest (exampleSlice 4 1)).1 =
      .complete exampleMixture := by decide +kernel

theorem reassembled_from_parts_mixed :
    ∃ f parts, (exampleSlice 4 1).frag = some f ∧ exampleSlice 4 1 ∈ parts ∧
      FromParts (Reassembler.ingested [.ingest (exampleSlice 3 0)] ++ [exampleSlice 4 1]) f parts exampleMixture ∧
      ((∀ y ∈ Reassembler.ingested [.ingest (exampleSlice 3 0)] ++ [exampleSlice 4 1], ∀ f', y.frag = some f' →
          f'.groupId = f.groupId → f'.total = f.total → y.id = (exampleSlice 4 1).id ∧
            y.fromAddr = (exampleSlice 4 1).fromAddr ∧ y.toAddr = (exampleSlice 4 1).toAddr ∧
            y.kind = (exampleSlice 4 1).kind) →
        ∀ y ∈ parts, y.id = exampleMixture.id ∧ y.fromAddr = exampleMixture.fromAddr ∧
          y.toAddr = exampleMixture.toAddr ∧ y.kind = exampleMixture.kind) :=
  reassembled_from_parts .new Reassembler.inFlight_new [.ingest (exampleSlice 3 0)] (exampleSlice 4 1)
    exampleMixture ingest_exampleMixture

/-- Slices of two nodes that agree in group id and number of slices make one
message; those with its id and sender do not make its payload. -/
theorem mixture_delivered :
    ((run Reassembler.call (.new : Reassembler 1 2) [.ingest (exampleSlice 3 0)]).2.ingest (exampleSlice 4 1)).1 =
        .complete exampleMixture ∧
      ¬ ∃ parts : List Message,
        (∀ y ∈ parts, y ∈ [exampleSlice 3 0, exampleSlice 4 1] ∧ y.id = exampleMixture.id ∧
          y.fromAddr = exampleMixture.fromAddr) ∧
        (parts.map fun y => y.payload.toList).flatten = exampleMixture.payload.toList := by
  refine ⟨ingest_exampleMixture, fun ⟨parts, hparts, hpay⟩ => ?_⟩
  have h4 : (4 : UInt8) ∈ (parts.map fun y => y.payload.toList).flatten := by
    rw [hpay]; decide
  obtain ⟨l, hl, h4⟩ := List.mem_flatten.mp h4
  obtain ⟨y, hy, rfl⟩ := List.mem_map.mp hl
  obtain ⟨hmem, hid, -⟩ := hparts y hy
  rcases List.mem_pair.mp hmem with rfl | rfl
  · exact absurd h4 (by decide)
  · exact absurd hid (by decide)

end RelayStar

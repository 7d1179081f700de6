import Mathlib.Data.Finset.Basic
import RelayStar.Framework.Machine
import RelayStar.Framework.Rows
import RelayStar.Spec.Peers

/-!
# The receiver table is a map of peers

The rows of the table have distinct addresses and no empty set of transports
(`ReceiverTable.Ok`), so they are a map from addresses to sets of transports
(`ReceiverTable.peers`), and every call does to it, and answers, what
`Spec.PeerMap.call` does (`call_refines`).
-/

namespace RelayStar

/-! ## Sets of transports -/

namespace TransportBitmap

/-- The bits of transports, and no others. -/
def Ok (b : TransportBitmap) : Prop := ∃ n : Fin 8, b = ⟨UInt8.ofNat n⟩

instance (b : TransportBitmap) : Decidable b.Ok :=
  inferInstanceAs (Decidable (∃ n : Fin 8, b = ⟨UInt8.ofNat n⟩))

def set (b : TransportBitmap) : Finset Transport := b.iter.toFinset

theorem mem_iter {b : TransportBitmap} {t : Transport} : t ∈ b.iter ↔ b.contains t = true := by
  rw [iter, List.mem_filter, and_iff_right]
  cases t <;> decide

theorem mem_set {b : TransportBitmap} {t : Transport} : t ∈ b.set ↔ b.contains t = true := by
  rw [set, List.mem_toFinset, mem_iter]

theorem ok_empty : Ok empty := ⟨0, rfl⟩

section

variable {b : TransportBitmap} (h : b.Ok) (t : Transport)

include h

theorem ok_insert : (b.insert t).2.Ok := by
  obtain ⟨n, rfl⟩ := h
  cases t <;> revert n <;> decide

theorem ok_remove : (b.remove t).2.Ok := by
  obtain ⟨n, rfl⟩ := h
  cases t <;> revert n <;> decide

theorem contains_insert (t' : Transport) : (b.insert t).2.contains t' = (t' == t || b.contains t') := by
  obtain ⟨n, rfl⟩ := h
  cases t <;> cases t' <;> revert n <;> decide

theorem contains_remove (t' : Transport) : (b.remove t).2.contains t' = (t' != t && b.contains t') := by
  obtain ⟨n, rfl⟩ := h
  cases t <;> cases t' <;> revert n <;> decide

theorem set_insert : (b.insert t).2.set = Insert.insert t b.set := by
  ext t'
  rw [mem_set, contains_insert h, Bool.or_eq_true, beq_iff_eq, Finset.mem_insert, mem_set]

theorem set_remove : (b.remove t).2.set = b.set.erase t := by
  ext t'
  rw [mem_set, contains_remove h, Bool.and_eq_true, bne_iff_ne, Finset.mem_erase, mem_set]

omit t in
theorem isEmpty_iff : b.isEmpty = true ↔ b.set = ∅ := by
  have hall : b.isEmpty = true ↔
      b.contains .lora = false ∧ b.contains .mqtt = false ∧ b.contains .espNow = false := by
    obtain ⟨n, rfl⟩ := h
    revert n
    decide
  rw [hall, Finset.eq_empty_iff_forall_notMem]
  simp only [mem_set, Bool.not_eq_true]
  constructor
  · rintro ⟨hl, hm, he⟩ t
    cases t with
    | lora => exact hl
    | mqtt => exact hm
    | espNow => exact he
  · exact fun h => ⟨h .lora, h .mqtt, h .espNow⟩

end

end TransportBitmap

/-! ## What changes a map -/

namespace Spec.PeerMap

variable {m m' : PeerMap} {addr : Addr} {t : Transport}

open Classical in
theorem changed_eq {b : Bool} (h : b = true ↔ m' ≠ m) : changed m m' = b := by
  rw [changed, Bool.eq_iff_iff, decide_eq_true_eq, h]

theorem changed_insert_none (h : m addr = none) : changed m (m.insert addr t) = true := by
  refine changed_eq ⟨fun _ he => ?_, fun _ => rfl⟩
  rw [insert, Function.update_eq_self_iff, h] at he
  cases he

theorem changed_insert_some {ts : Finset Transport} (h : m addr = some ts) {b : Bool} (hb : b = true ↔ t ∉ ts) :
    changed m (m.insert addr t) = b := by
  refine changed_eq (hb.trans (not_congr ?_))
  rw [insert, Function.update_eq_self_iff, h, Option.getD_some, Option.some.injEq, Finset.insert_eq_self]

theorem changed_delete_none (h : m addr = none) : changed m (m.delete addr t) = false := by
  refine changed_eq ⟨fun hf => (by cases hf), fun hne => absurd ?_ hne⟩
  rw [delete, h]

theorem changed_delete_some {ts : Finset Transport} (h : m addr = some ts) (hts : ts ≠ ∅) {b : Bool}
    (hb : b = true ↔ t ∈ ts) : changed m (m.delete addr t) = b := by
  refine changed_eq (hb.trans ?_)
  simp only [delete, h]
  rw [ne_eq, Function.update_eq_self_iff, h]
  by_cases ht : t ∈ ts
  · refine iff_of_true ht fun he => ?_
    split at he
    · cases he
    · exact absurd ht (Finset.erase_eq_self.mp (Option.some.inj he))
  · have he := Finset.erase_eq_self.mpr ht
    rw [he, if_neg hts]
    exact iff_of_false ht (not_not.mpr rfl)

theorem changed_erase_none (h : m addr = none) : changed m (m.erase addr) = false := by
  refine changed_eq ⟨fun hf => (by cases hf), fun hne => absurd ?_ hne⟩
  rw [erase, Function.update_eq_self_iff, h]

theorem changed_erase_some {ts : Finset Transport} (h : m addr = some ts) : changed m (m.erase addr) = true := by
  refine changed_eq ⟨fun _ he => ?_, fun _ => rfl⟩
  rw [erase, Function.update_eq_self_iff, h] at he
  cases he

end Spec.PeerMap

/-! ## The rows -/

namespace ReceiverTable

open Spec

variable {N : Nat} {r : ReceiverTable N}

/-- Distinct addresses, and some transport in every row. -/
structure Ok (r : ReceiverTable N) : Prop where
  nodup : (r.entries.toList.map Receiver.addr).Nodup
  rows : ∀ row ∈ r.entries.toList, row.transports.Ok ∧ row.transports.set ≠ ∅

/-- The map of the rows. -/
def peers (r : ReceiverTable N) : PeerMap := fun addr => (r.lookup addr).map fun row => row.transports.set

theorem ok_new : (new : ReceiverTable N).Ok := ⟨List.nodup_nil, fun _ h => by cases h⟩

theorem peers_new : (new : ReceiverTable N).peers = PeerMap.empty := rfl

/-- One row is updated, and the others are left alone. -/
theorem find_update_peers {r' : ReceiverTable N} {addr : Addr} {x : Option Receiver}
    (h : Rows.find Receiver.addr r'.entries.toList =
      Function.update (Rows.find Receiver.addr r.entries.toList) addr x) :
    r'.peers = Function.update r.peers addr (x.map fun row => row.transports.set) ∧
      ∀ a, a ≠ addr → r'.lookup a = r.lookup a := by
  have hfind : ∀ a, r'.lookup a = Function.update (Rows.find Receiver.addr r.entries.toList) addr x a := congrFun h
  refine ⟨funext fun a => ?_, fun a ha => (hfind a).trans (Function.update_of_ne ha ..)⟩
  rw [peers, hfind]
  by_cases he : a = addr
  · rw [he, Function.update_self, Function.update_self]
  · rw [Function.update_of_ne he, Function.update_of_ne he]; rfl

theorem lookup_eq_none {addr : Addr} : r.lookup addr = none ↔ addr ∉ r.entries.toList.map Receiver.addr :=
  Rows.find_eq_none

/-- As many rows as addresses. -/
theorem len_eq (h : r.Ok) : r.len = r.peers.size := by
  have hset : {addr | r.peers addr ≠ none} = ↑(r.entries.toList.map Receiver.addr).toFinset := by
    ext addr
    rw [Set.mem_ofPred_eq, ne_eq, peers, Option.map_eq_none_iff, List.coe_toFinset, Set.mem_ofPred_eq,
      lookup_eq_none, not_not]
  rw [PeerMap.size, hset, Set.ncard_coe_finset, List.toFinset_card_of_nodup h.nodup, List.length_map]
  rfl

/-- A row is appended. -/
theorem push_spec (h : r.Ok) {addr : Addr} {b : TransportBitmap} (hb : b.Ok) (hne : b.set ≠ ∅)
    (hnew : r.lookup addr = none) {v : HVec Receiver N} (hv : r.entries.push ⟨addr, b⟩ = some v) :
    (⟨v⟩ : ReceiverTable N).Ok ∧ (⟨v⟩ : ReceiverTable N).peers = Function.update r.peers addr (some b.set) ∧
      ∀ a, a ≠ addr → (⟨v⟩ : ReceiverTable N).lookup a = r.lookup a := by
  rw [HVec.push_eq_some] at hv
  obtain ⟨hn, hf⟩ := Rows.find_append (s := ⟨addr, b⟩) h.nodup (lookup_eq_none.mp hnew)
  rw [← hv] at hn hf
  refine ⟨⟨hn, fun row hrow => ?_⟩, find_update_peers (x := some ⟨addr, b⟩) hf⟩
  have hrow : row ∈ v.toList := hrow
  rw [hv, List.mem_append, List.mem_singleton] at hrow
  rcases hrow with hrow | rfl
  · exact h.rows row hrow
  · exact ⟨hb, hne⟩

section Row

variable (h : r.Ok) {i : Nat} (hi : i < r.entries.toList.length)

include h hi

/-- A row gets another set. -/
theorem set_spec {b : TransportBitmap} (hb : b.Ok) (hne : b.set ≠ ∅) :
    (⟨r.entries.set i ⟨r.entries.toList[i].addr, b⟩⟩ : ReceiverTable N).Ok ∧
      (⟨r.entries.set i ⟨r.entries.toList[i].addr, b⟩⟩ : ReceiverTable N).peers =
        Function.update r.peers r.entries.toList[i].addr (some b.set) ∧
      ∀ a, a ≠ r.entries.toList[i].addr →
        (⟨r.entries.set i ⟨r.entries.toList[i].addr, b⟩⟩ : ReceiverTable N).lookup a = r.lookup a := by
  obtain ⟨hn, hf⟩ := Rows.find_set (s := ⟨r.entries.toList[i].addr, b⟩) h.nodup hi rfl
  refine ⟨⟨hn, fun row hrow => ?_⟩, find_update_peers (x := some ⟨r.entries.toList[i].addr, b⟩) hf⟩
  rcases List.mem_or_eq_of_mem_set hrow with hrow | rfl
  · exact h.rows row hrow
  · exact ⟨hb, hne⟩

/-- A row is removed. -/
theorem remove_spec {v : HVec Receiver N} (hp : v.toList.Perm (r.entries.toList.eraseIdx i)) :
    (⟨v⟩ : ReceiverTable N).Ok ∧
      (⟨v⟩ : ReceiverTable N).peers = Function.update r.peers r.entries.toList[i].addr none := by
  obtain ⟨hn, hf⟩ := Rows.find_eraseIdx h.nodup hi
  have hn' := (hp.map Receiver.addr).nodup_iff.mpr hn
  refine ⟨⟨hn', fun row hrow => h.rows row (List.mem_of_mem_eraseIdx (hp.mem_iff.mp hrow))⟩, ?_⟩
  exact (find_update_peers (x := none) ((Rows.find_perm hn' hp).trans hf)).1

end Row

/-! ## The calls -/

theorem position_lookup (r : ReceiverTable N) (addr : Addr) :
    (r.position addr = none ∧ r.lookup addr = none) ∨
      ∃ i, ∃ hi : i < r.entries.toList.length, r.position addr = some i ∧
        r.lookup addr = some r.entries.toList[i] ∧ r.entries.toList[i].addr = addr :=
  Rows.position_cases r.entries.toList addr

theorem peers_eq_none {addr : Addr} : r.peers addr = none ↔ r.lookup addr = none := Option.map_eq_none_iff

theorem peers_of_lookup {addr : Addr} {row : Receiver} (h : r.lookup addr = some row) :
    r.peers addr = some row.transports.set := by
  rw [peers, h]; rfl

/-- There is no room for another row exactly with `N` of them. -/
theorem push_eq_none (h : r.Ok) (row : Receiver) : r.entries.push row = none ↔ r.peers.size = N := by
  have hle : r.len ≤ N := r.entries.len_le
  rw [HVec.push_eq, HVec.extendFromSlice_eq_none, List.length_append, List.length_singleton, ← len_eq h]
  show N < r.len + 1 ↔ r.len = N
  omega

/-- A peer is refused or added; the other rows are left alone. -/
theorem add_cases (h : r.Ok) (addr : Addr) (t : Transport) :
    (PeerMap.Full N r.peers addr ∧ r.add addr t = (.error .receiverTableFull, r)) ∨
      ¬ PeerMap.Full N r.peers addr ∧
        (r.add addr t).1 = .ok (PeerMap.changed r.peers (r.peers.insert addr t)) ∧
        (r.add addr t).2.Ok ∧ (r.add addr t).2.peers = r.peers.insert addr t ∧
        ∀ a, a ≠ addr → (r.add addr t).2.lookup a = r.lookup a := by
  rcases r.position_lookup addr with ⟨hp, hl⟩ | ⟨i, hi, hp, hl, ha⟩
  · have hnone := peers_eq_none.mpr hl
    simp only [add, hp, hl]
    cases hpush : r.entries.push ⟨addr, (TransportBitmap.empty.insert t).2⟩ with
    | none => exact .inl ⟨⟨hnone, (push_eq_none h _).mp hpush⟩, rfl⟩
    | some entries =>
      have hset := TransportBitmap.set_insert TransportBitmap.ok_empty t
      obtain ⟨hok, hpeers, hrest⟩ := push_spec h (TransportBitmap.ok_insert TransportBitmap.ok_empty t)
        (by rw [hset]; exact Finset.insert_ne_empty t _) hl hpush
      refine .inr ⟨fun hf => ?_, ?_, hok, ?_, hrest⟩
      · rw [(push_eq_none h _).mpr hf.2] at hpush
        cases hpush
      · rw [PeerMap.changed_insert_none hnone]
      · rw [hpeers, hset, PeerMap.insert, hnone]
        rfl
  · have hsome := peers_of_lookup hl
    have hok := (h.rows _ (List.getElem_mem hi)).1
    have hset := TransportBitmap.set_insert hok t
    obtain ⟨hok', hpeers, hrest⟩ := set_spec h hi (TransportBitmap.ok_insert hok t)
      (by rw [hset]; exact Finset.insert_ne_empty t _)
    have hfull : ¬ PeerMap.Full N r.peers addr := fun hf => by
      rw [hf.1] at hsome
      cases hsome
    simp only [add, hp, hl]
    refine .inr ⟨hfull, ?_, hok', ?_, fun a hne => hrest a (ha ▸ hne)⟩
    · rw [PeerMap.changed_insert_some hsome (b := !r.entries.toList[i].transports.contains t)]
      · rfl
      · rw [Bool.not_eq_true', TransportBitmap.mem_set, Bool.not_eq_true]
    · rw [hpeers, hset, PeerMap.insert, ha, hsome]
      rfl

/-- The other rows are left alone. -/
theorem lookup_add_of_ne (h : r.Ok) {addr a : Addr} (ha : a ≠ addr) (t : Transport) :
    (r.add addr t).2.lookup a = r.lookup a := by
  rcases add_cases h addr t with ⟨-, hadd⟩ | ⟨-, -, -, -, hrest⟩
  · rw [hadd]
  · exact hrest a ha

/-- A transport of a peer is deleted. -/
theorem removeTransport_spec (h : r.Ok) (addr : Addr) (t : Transport) :
    (r.removeTransport addr t).1 = PeerMap.changed r.peers (r.peers.delete addr t) ∧
      (r.removeTransport addr t).2.Ok ∧ (r.removeTransport addr t).2.peers = r.peers.delete addr t := by
  rcases r.position_lookup addr with ⟨hp, hl⟩ | ⟨i, hi, hp, hl, ha⟩
  · have hnone := peers_eq_none.mpr hl
    simp only [removeTransport, hp, hl]
    refine ⟨(PeerMap.changed_delete_none hnone).symm, h, ?_⟩
    rw [PeerMap.delete, hnone]
  · have hsome := peers_of_lookup hl
    obtain ⟨hok, hne⟩ := h.rows _ (List.getElem_mem hi)
    have hset := TransportBitmap.set_remove hok t
    have hempty := TransportBitmap.isEmpty_iff (TransportBitmap.ok_remove hok t)
    rw [hset] at hempty
    simp only [removeTransport, hp, hl]
    refine ⟨?_, ?_⟩
    · exact (PeerMap.changed_delete_some hsome hne TransportBitmap.mem_set.symm).symm
    · rw [PeerMap.delete, hsome]
      dsimp only
      split
      · rename_i he
        have hp := Rows.swapRemove_set_perm r.entries hi ⟨r.entries.toList[i].addr,
          (r.entries.toList[i].transports.remove t).2⟩
        obtain ⟨hok', hpeers⟩ := remove_spec h hi hp
        exact ⟨hok', by rw [hpeers, ha, if_pos (hempty.mp he)]⟩
      · rename_i he
        obtain ⟨hok', hpeers, -⟩ := set_spec h hi (TransportBitmap.ok_remove hok t)
          (by rw [hset]; exact fun e => he (hempty.mpr e))
        exact ⟨hok', by rw [hpeers, hset, ha, if_neg fun e => he (hempty.mpr e)]⟩

theorem erase_spec (h : r.Ok) (addr : Addr) :
    (r.remove addr).1 = PeerMap.changed r.peers (r.peers.erase addr) ∧
      (r.remove addr).2.Ok ∧ (r.remove addr).2.peers = r.peers.erase addr := by
  rcases r.position_lookup addr with ⟨hp, hl⟩ | ⟨i, hi, hp, hl, ha⟩
  · have hnone := peers_eq_none.mpr hl
    simp only [remove, hp]
    refine ⟨(PeerMap.changed_erase_none hnone).symm, h, ?_⟩
    exact (Function.update_eq_self_iff.mpr hnone.symm).symm
  · obtain ⟨hok, hpeers⟩ := remove_spec h hi (Rows.swapRemove_perm r.entries hi)
    simp only [remove, hp]
    exact ⟨(PeerMap.changed_erase_some (peers_of_lookup hl)).symm, hok, by rw [hpeers, ha]; rfl⟩

/-- A call of the table, with its answer if it has one. -/
def call (r : ReceiverTable N) : Call → Option (Except RelayError Bool) × ReceiverTable N
  | .add addr t => (some (r.add addr t).1, (r.add addr t).2)
  | .learn addr t => (some (.ok (r.learn addr t).1), (r.learn addr t).2)
  | .removeTransport addr t => (some (.ok (r.removeTransport addr t).1), (r.removeTransport addr t).2)
  | .remove addr => (some (.ok (r.remove addr).1), (r.remove addr).2)
  | .clear => (none, r.clear)

/-- A call answers, and changes the table, as it does the map. -/
theorem call_refines (h : r.Ok) (c : Call) :
    (r.call c).1 = (r.peers.call N c).1 ∧ (r.call c).2.Ok ∧ (r.call c).2.peers = (r.peers.call N c).2 := by
  cases c with
  | add addr t =>
    rcases add_cases h addr t with ⟨hf, ha⟩ | ⟨hf, ha, hok, hp, -⟩
    · rw [PeerMap.call, if_pos hf, call, ha]
      exact ⟨rfl, h, rfl⟩
    · rw [PeerMap.call, if_neg hf, call, ha]
      exact ⟨rfl, hok, hp⟩
  | learn addr t =>
    rcases add_cases h addr t with ⟨hf, ha⟩ | ⟨hf, ha, hok, hp, -⟩
    · rw [PeerMap.call, if_pos hf, call, learn, ha]
      exact ⟨rfl, h, rfl⟩
    · have hl : r.learn addr t = (PeerMap.changed r.peers (r.peers.insert addr t), (r.add addr t).2) := by
        rw [learn, show r.add addr t = (.ok (PeerMap.changed r.peers (r.peers.insert addr t)), (r.add addr t).2)
          from Prod.ext ha rfl]
      rw [PeerMap.call, if_neg hf, call, hl]
      exact ⟨rfl, hok, hp⟩
  | removeTransport addr t =>
    obtain ⟨ho, hok, hp⟩ := removeTransport_spec h addr t
    rw [call, ho]
    exact ⟨rfl, hok, hp⟩
  | remove addr =>
    obtain ⟨ho, hok, hp⟩ := erase_spec h addr
    rw [call, ho]
    exact ⟨rfl, hok, hp⟩
  | clear => exact ⟨rfl, ok_new, peers_new⟩

/-! ## What is read from the table -/

theorem reachable_iff (r : ReceiverTable N) (addr : Addr) (t : Transport) :
    (∃ row, r.lookup addr = some row ∧ row.reachableVia t = true) ↔ ∃ ts, r.peers addr = some ts ∧ t ∈ ts := by
  rw [peers]
  cases r.lookup addr with
  | none => simp only [reduceCtorEq, false_and, exists_false, Option.map_none]
  | some row =>
    simp only [Option.some.injEq, exists_eq_left', Option.map_some]
    exact TransportBitmap.mem_set.symm

/-- The transports of a peer fit the buffer. -/
theorem transportsFor_eq (r : ReceiverTable N) (addr : Addr) :
    (r.transportsFor addr).map HVec.toList = (r.peers addr).map fun ts => Transport.ALL.filter (· ∈ ts) := by
  rw [transportsFor, peers, Option.map_map, Option.map_map]
  refine congrArg (fun f => (r.lookup addr).map f) (funext fun row => ?_)
  have hfit : (HVec.empty : HVec Transport MAX_TRANSPORTS).toList.length + row.iter.length ≤ MAX_TRANSPORTS := by
    have hle : row.iter.length ≤ Transport.ALL.length := List.length_filter_le _ _
    rw [HVec.toList_empty, List.length_nil, Nat.zero_add]
    exact hle
  have hpush := HVec.toList_foldl_push _ hfit
  rw [HVec.toList_empty, List.nil_append] at hpush
  show (row.iter.foldl _ HVec.empty).toList = _
  rw [hpush]
  show Transport.ALL.filter row.transports.contains = Transport.ALL.filter (· ∈ row.transports.set)
  refine List.filter_congr fun t _ => ?_
  rw [Bool.eq_iff_iff, decide_eq_true_eq, TransportBitmap.mem_set]

/-- After any calls of a table of capacity `N`, the answers were those of the map
of peers, and the table is this map: it has one row for each address, at most
`N`, none of them empty. -/
theorem table_refines (N : Nat) (calls : List Call) :
    let r := (run call (new : ReceiverTable N) calls).2
    let m := (run (PeerMap.call N) PeerMap.empty calls).2
    (run call (new : ReceiverTable N) calls).1 = (run (PeerMap.call N) PeerMap.empty calls).1 ∧
      ((r.entries.toList.map Receiver.addr).Nodup ∧ (∀ row ∈ r.entries.toList, ∃ t, row.reachableVia t = true) ∧
        r.len ≤ N) ∧
      ((∀ addr, (r.lookup addr).map (fun row => row.transports.set) = m addr) ∧
        (∀ addr t, (∃ row, r.lookup addr = some row ∧ row.reachableVia t = true) ↔ ∃ ts, m addr = some ts ∧ t ∈ ts) ∧
        (∀ addr, (r.transportsFor addr).map HVec.toList =
          (m addr).map fun ts => Transport.ALL.filter (· ∈ ts)) ∧
        r.len = m.size) ∧
      ∀ addr t, ((r.add addr t).1 = .error .receiverTableFull ↔ m addr = none ∧ r.len = N) ∧
        ∀ e, (r.add addr t).1 = .error e → (r.add addr t).2 = r := by
  intro r m
  obtain ⟨ho, hok, hm⟩ := run_refines (R := fun (r : ReceiverTable N) m => r.Ok ∧ r.peers = m)
    (fun r m c ⟨h, hm⟩ => hm ▸ call_refines h c) ⟨ok_new, peers_new⟩ calls
  have hok : r.Ok := hok
  have hm : r.peers = m := hm
  refine ⟨ho, ⟨hok.nodup, fun row hrow => ?_, r.entries.len_le⟩,
    ⟨congrFun hm, fun addr t => hm ▸ r.reachable_iff addr t, fun addr => hm ▸ r.transportsFor_eq addr,
      hm ▸ len_eq hok⟩, fun addr t => ?_⟩
  · obtain ⟨t, ht⟩ := Finset.nonempty_iff_ne_empty.mpr (hok.rows row hrow).2
    exact ⟨t, TransportBitmap.mem_set.mp ht⟩
  · rw [← hm, len_eq hok]
    rcases add_cases hok addr t with ⟨hf, ha⟩ | ⟨hf, ha, -⟩
    · rw [ha]
      exact ⟨iff_of_true rfl hf, fun _ _ => rfl⟩
    · rw [ha]
      exact ⟨iff_of_false (fun h => by cases h) hf, fun e h => by cases h⟩

end ReceiverTable

end RelayStar

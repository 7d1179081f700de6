import Mathlib.Data.List.Basic
import Mathlib.Data.List.Perm.Subperm
import Mathlib.Logic.Function.Basic

/-!
# Arrays of slots as finite maps

An array whose slots are free or hold a value under a key (`held`). While no
key is held twice (`Distinct`), the array is a finite map (`lookup`), storing
into a slot updates it at one key (`set`), and the keys in use are as many as
the slots in use, so that an array with keys from a list is no fuller than
the list is long (`length_keys_le`).
-/

namespace RelayStar.Slots

variable {σ κ β : Type} {N : Nat} (held : σ → Option (κ × β))

/-- The slots after one is written. -/
theorem get_set (v : Vector σ N) (i : Fin N) (s : σ) (j : Fin N) :
    (v.set i s i.isLt).get j = if j = i then s else v.get j := by
  show (v.set i s i.isLt)[j.val] = if j = i then s else v[j.val]
  simp only [Vector.getElem_set, Fin.ext_iff, eq_comm]

/-- No key is held by two slots. -/
def Distinct (v : Vector σ N) : Prop :=
  ∀ (i j : Fin N) k a b, held (v.get i) = some (k, a) → held (v.get j) = some (k, b) → i = j

/-- The keys in use. -/
def keys (v : Vector σ N) : List κ := v.toList.filterMap fun s => (held s).map Prod.fst

section Keys

variable {held} {v : Vector σ N}

/-- No key is in use twice. -/
theorem keys_nodup (hd : Distinct held v) : (keys held v).Nodup := by
  rw [keys, List.Nodup, List.pairwise_filterMap, List.pairwise_iff_getElem]
  intro i j hi hj hij k hk k' hk' e
  subst e
  rw [Vector.length_toList] at hi hj
  simp only [Vector.getElem_toList, Option.map_eq_some_iff, Prod.exists] at hk hk'
  obtain ⟨k', a, ha, rfl⟩ := hk
  obtain ⟨k, b, hb, rfl⟩ := hk'
  have := Fin.mk.inj (hd ⟨i, hi⟩ ⟨j, hj⟩ _ a b ha hb)
  omega

/-- There is a free slot exactly when not all slots are counted. -/
theorem length_keys_lt : (keys held v).length < N ↔ ∃ i : Fin N, held (v.get i) = none := by
  have h : (keys held v).length < v.toList.length ↔ _ := List.length_filterMap_lt_length_iff_exists
  rw [Vector.length_toList] at h
  simp only [h, exists_prop, Vector.mem_toList_iff, Vector.mem_iff_getElem, Option.map_eq_none_iff]
  constructor
  · rintro ⟨s, ⟨i, hi, rfl⟩, hs⟩; exact ⟨⟨i, hi⟩, hs⟩
  · rintro ⟨i, hi⟩; exact ⟨v.get i, ⟨i, i.isLt, rfl⟩, hi⟩

end Keys

variable [DecidableEq κ]

/-- The value held under a key. -/
def lookup (v : Vector σ N) (k : κ) : Option β :=
  (List.finRange N).findSome? fun i => match held (v.get i) with
    | some (k', a) => if k' = k then some a else none
    | none => none

variable {held} {v : Vector σ N}

theorem lookup_eq_none {k : κ} :
    lookup held v k = none ↔ ∀ (i : Fin N) a, held (v.get i) ≠ some (k, a) := by
  simp only [lookup, List.findSome?_eq_none_iff, List.mem_finRange, forall_true_left]
  apply forall_congr'
  intro i
  cases h : held (v.get i) with
  | none => simp
  | some p =>
    obtain ⟨k', b⟩ := p
    by_cases hk : k' = k <;> simp [hk]

theorem exists_of_lookup {k : κ} {a : β} (h : lookup held v k = some a) : ∃ i : Fin N, held (v.get i) = some (k, a) := by
  obtain ⟨i, -, hi⟩ := List.exists_of_findSome?_eq_some h
  refine ⟨i, ?_⟩
  cases hv : held (v.get i) with
  | none => rw [hv] at hi; cases hi
  | some p =>
    obtain ⟨k', b⟩ := p
    rw [hv] at hi
    dsimp only at hi
    split at hi
    · rename_i hk
      rw [hk, Option.some.inj hi]
    · cases hi

theorem lookup_eq_some (hd : Distinct held v) {k : κ} {a : β} :
    lookup held v k = some a ↔ ∃ i : Fin N, held (v.get i) = some (k, a) := by
  refine ⟨exists_of_lookup, fun ⟨i, hi⟩ => ?_⟩
  cases h : lookup held v k with
  | none => exact absurd hi (lookup_eq_none.mp h i a)
  | some b =>
    obtain ⟨j, hj⟩ := exists_of_lookup h
    obtain rfl := hd i j _ _ _ hi hj
    rw [hi] at hj
    cases hj
    rfl

/-- Storing into a slot that is free or holds the key already. -/
theorem set (hd : Distinct held v) {i : Fin N} {s : σ} {k : κ}
    (hk : ∀ j a, held (v.get j) = some (k, a) → j = i) (hi : ∀ p, held (v.get i) = some p → p.1 = k)
    (hs : ∀ p, held s = some p → p.1 = k) :
    Distinct held (v.set i s i.isLt) ∧
      lookup held (v.set i s i.isLt) = Function.update (lookup held v) k ((held s).map Prod.snd) := by
  have hset := get_set v i s
  have hdist : Distinct held (v.set i s i.isLt) := by
    intro a b q x y ha hb
    rw [hset] at ha hb
    split at ha <;> split at hb
    · rename_i h h'; rw [h, h']
    · rename_i h h'
      exact absurd (hk b y (hs _ ha ▸ hb)) h'
    · rename_i h h'
      exact absurd (hk a x (hs _ hb ▸ ha)) h
    · exact hd a b q x y ha hb
  refine ⟨hdist, funext fun q => Option.ext fun a => ?_⟩
  rw [lookup_eq_some hdist]
  by_cases hq : q = k
  · subst hq
    rw [Function.update_self]
    constructor
    · rintro ⟨j, hj⟩
      rw [hset] at hj
      split at hj
      · rw [hj]; rfl
      · rename_i h; exact absurd (hk j a hj) h
    · intro h
      obtain ⟨p, hp, rfl⟩ := Option.map_eq_some_iff.mp h
      exact ⟨i, by rw [hset, if_pos rfl, hp, ← hs p hp]⟩
  · rw [Function.update_of_ne hq, lookup_eq_some hd]
    apply exists_congr
    intro j
    rw [hset]
    split
    · rename_i h
      subst h
      exact ⟨fun h => absurd (hs _ h) hq, fun h => absurd (hi _ h) hq⟩
    · rfl

theorem mem_keys (hd : Distinct held v) {k : κ} : k ∈ keys held v ↔ lookup held v k ≠ none := by
  rw [← Option.isSome_iff_ne_none, Option.isSome_iff_exists]
  simp only [lookup_eq_some hd, keys, List.mem_filterMap, Vector.mem_toList_iff, Vector.mem_iff_getElem,
    Option.map_eq_some_iff, Prod.exists]
  constructor
  · rintro ⟨s, ⟨i, hi, rfl⟩, k', a, ha, rfl⟩
    exact ⟨a, ⟨i, hi⟩, ha⟩
  · rintro ⟨a, i, hi⟩
    exact ⟨v.get i, ⟨i, i.isLt, rfl⟩, k, a, hi, rfl⟩

/-- Keys from a list fill no more slots than the list is long. -/
theorem length_keys_le (hd : Distinct held v) {l : List κ} (h : ∀ k, lookup held v k ≠ none → k ∈ l) :
    (keys held v).length ≤ l.length :=
  (List.subperm_of_subset (keys_nodup hd) fun _ hk => h _ ((mem_keys hd).mp hk)).length_le

/-- No slot is in use exactly when the map is empty. -/
theorem length_keys_eq_zero (hd : Distinct held v) :
    (keys held v).length = 0 ↔ ∀ k, lookup held v k = none := by
  rw [List.length_eq_zero_iff, List.eq_nil_iff_forall_not_mem]
  exact forall_congr' fun k => by rw [mem_keys hd, not_not]

end RelayStar.Slots

import Mathlib.Data.List.Nodup
import Mathlib.Data.List.Perm.Basic
import Mathlib.Logic.Function.Basic
import RelayStar.Framework.HVec

/-!
# Rows as finite maps

A list of rows with a key each, in no particular order. While no key is there
twice, `find` is a finite map from the keys, that does not depend on the order
of the rows (`find_perm`): replacing the row of a key, appending a row of a new
key and removing a row update it at this key (`find_set`, `find_append`,
`find_eraseIdx`), also if the last row is moved into the gap
(`swapRemove_perm`).
-/

namespace RelayStar.Rows

variable {σ κ : Type} [BEq κ] [LawfulBEq κ] (key : σ → κ)

/-- The row of a key. -/
def find (l : List σ) (k : κ) : Option σ := l.find? fun s => key s == k

/-- The index of the row of a key. -/
def position (l : List σ) (k : κ) : Option Nat := l.findIdx? fun s => key s == k

variable {key} {l l' : List σ} {s : σ} {k : κ}

theorem find_eq_none : find key l k = none ↔ k ∉ l.map key := by
  rw [find, List.find?_eq_none, List.mem_map]
  constructor
  · rintro h ⟨s, hs, hk⟩
    exact h s hs (beq_iff_eq.mpr hk)
  · intro h s hs hk
    exact h ⟨s, hs, beq_iff_eq.mp hk⟩

theorem mem_of_find (h : find key l k = some s) : s ∈ l ∧ key s = k :=
  ⟨List.mem_of_find?_eq_some h, beq_iff_eq.mp (List.find?_some (p := fun s => key s == k) h)⟩

theorem find_eq_some (hn : (l.map key).Nodup) : find key l k = some s ↔ s ∈ l ∧ key s = k := by
  refine ⟨mem_of_find, fun ⟨hs, hk⟩ => ?_⟩
  have hne : find key l k ≠ none := fun hf => find_eq_none.mp hf (hk ▸ List.mem_map_of_mem hs)
  obtain ⟨s', hf⟩ := Option.ne_none_iff_exists'.mp hne
  obtain ⟨hs', hk'⟩ := mem_of_find hf
  rw [hf, List.inj_on_of_nodup_map hn hs' hs (hk'.trans hk.symm)]

/-- The index of a row that is there, and the row. -/
theorem position_cases (l : List σ) (k : κ) :
    (position key l k = none ∧ find key l k = none) ∨
      ∃ i, ∃ hi : i < l.length, position key l k = some i ∧ find key l k = some l[i] ∧ key l[i] = k := by
  cases hp : position key l k with
  | none =>
    refine .inl ⟨rfl, find_eq_none.mpr fun hk => ?_⟩
    obtain ⟨s, hs, hk⟩ := List.mem_map.mp hk
    have := List.findIdx?_eq_none_iff.mp hp s hs
    rw [hk, BEq.rfl] at this
    cases this
  | some i =>
    obtain ⟨hi, hk, hfirst⟩ := List.findIdx?_eq_some_iff_getElem.mp hp
    refine .inr ⟨i, hi, rfl, ?_, beq_iff_eq.mp hk⟩
    exact List.find?_eq_some_iff_getElem.mpr ⟨hk, i, hi, rfl, fun j hj => by simpa using hfirst j hj⟩

/-- The order of the rows does not matter. -/
theorem find_perm (hn : (l.map key).Nodup) (hp : l.Perm l') : find key l = find key l' := by
  have hn' := (hp.map key).nodup_iff.mp hn
  funext k
  refine Option.ext fun s => ?_
  rw [find_eq_some hn, find_eq_some hn', hp.mem_iff]

theorem set_perm {i : Nat} (hi : i < l.length) : (l.set i s).Perm (s :: l.eraseIdx i) := by
  have hi' : i < (l.set i s).length := by rw [List.length_set]; exact hi
  have hp := List.getElem_cons_eraseIdx_perm hi'
  rw [List.getElem_set_self, List.eraseIdx_set_eq] at hp
  exact hp.symm

/-- Removing a row by moving the last one into its place. -/
theorem swapRemove_perm {cap : Nat} (v : HVec σ cap) {i : Nat} (hi : i < v.toList.length) :
    (v.swapRemove i).toList.Perm (v.toList.eraseIdx i) := by
  unfold HVec.swapRemove
  rcases List.eq_nil_or_concat' v.toList with hv | ⟨l, a, hv⟩
  · rw [hv] at hi
    exact absurd hi (Nat.not_lt_zero i)
  · have hlast : v.toList.getLast? = some a := by rw [hv, List.getLast?_concat]
    rw [hv, List.length_append, List.length_singleton] at hi
    split
    · rename_i hnone
      rw [hlast] at hnone
      cases hnone
    · rename_i b hb
      obtain rfl : a = b := Option.some.inj (hlast.symm.trans hb)
      simp only [hv]
      rcases Nat.lt_or_ge i l.length with hlt | hge
      · rw [List.set_append_left _ _ hlt, List.dropLast_concat, List.eraseIdx_append_of_lt_length hlt]
        exact (set_perm hlt).trans (List.perm_append_singleton a _).symm
      · obtain rfl : i = l.length := by omega
        rw [List.set_append_right _ _ hge, List.eraseIdx_append_of_length_le hge, Nat.sub_self, List.set_cons_zero,
          List.dropLast_concat, List.eraseIdx_cons_zero, List.append_nil]

/-- The row may be changed before it is removed. -/
theorem swapRemove_set_perm {cap : Nat} (v : HVec σ cap) {i : Nat} (hi : i < v.toList.length) (s : σ) :
    ((v.set i s).swapRemove i).toList.Perm (v.toList.eraseIdx i) := by
  have hp := swapRemove_perm (v.set i s) (by rw [HVec.set, List.length_set]; exact hi)
  rwa [HVec.set, List.eraseIdx_set_eq] at hp

variable [DecidableEq κ]

theorem find_cons (s : σ) (l : List σ) : find key (s :: l) = Function.update (find key l) (key s) (some s) := by
  funext k
  rw [find, List.find?_cons]
  by_cases hk : k = key s
  · rw [hk, BEq.rfl, Function.update_self]
  · rw [show (key s == k) = false from beq_eq_false_iff_ne.mpr fun e => hk e.symm, Function.update_of_ne hk]
    rfl

section Update

variable (hn : (l.map key).Nodup) {i : Nat} (hi : i < l.length)

include hn

theorem find_append (hk : key s ∉ l.map key) :
    ((l ++ [s]).map key).Nodup ∧ find key (l ++ [s]) = Function.update (find key l) (key s) (some s) := by
  have hp : (l ++ [s]).Perm (s :: l) := List.perm_append_singleton s l
  have hn' : ((s :: l).map key).Nodup := List.nodup_cons.mpr ⟨hk, hn⟩
  have hn'' := (hp.map key).nodup_iff.mpr hn'
  exact ⟨hn'', by rw [find_perm hn'' hp, find_cons]⟩

include hi

/-- A row is removed. -/
theorem find_eraseIdx :
    ((l.eraseIdx i).map key).Nodup ∧ find key (l.eraseIdx i) = Function.update (find key l) (key l[i]) none := by
  have hp : (l[i] :: l.eraseIdx i).Perm l := List.getElem_cons_eraseIdx_perm hi
  have hn' : ((l[i] :: l.eraseIdx i).map key).Nodup := (hp.map key).nodup_iff.mpr hn
  obtain ⟨hk, hrest⟩ := List.nodup_cons.mp hn'
  refine ⟨hrest, ?_⟩
  rw [← find_perm hn' hp, find_cons, Function.update_idem]
  exact (Function.update_eq_self_iff.mpr (find_eq_none.mpr hk).symm).symm

/-- A row is replaced by one of the same key. -/
theorem find_set (hk : key s = key l[i]) :
    ((l.set i s).map key).Nodup ∧ find key (l.set i s) = Function.update (find key l) (key s) (some s) := by
  have hp : (s :: l.eraseIdx i).Perm (l.set i s) := (set_perm hi).symm
  have hn' : ((s :: l.eraseIdx i).map key).Nodup := by
    have := ((List.getElem_cons_eraseIdx_perm hi).map key).nodup_iff.mpr hn
    rwa [List.map_cons, ← hk] at this
  refine ⟨(hp.map key).nodup_iff.mp hn', ?_⟩
  rw [← find_perm hn' hp, find_cons, (find_eraseIdx hn hi).2, ← hk, Function.update_idem]

end Update

end RelayStar.Rows

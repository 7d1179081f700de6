import Mathlib.Data.List.DropRight

/-!
# The last keys recorded

A filter that remembers the last `n` keys it recorded lets an input through, and
records its key, when it does not remember it (`fresh`). What is let through is
among the inputs (`mem_of_mem_fresh`). A key that was not remembered at first is
recorded when an input has it (`key_mem_fresh`); as long as no more than `n`
keys are recorded it is not forgotten, and only the first input of the key is
let through (`find?_of_mem_fresh`).
-/

namespace RelayStar

section Rtake

variable {α : Type} {l l' : List α} {a : α} {n : Nat}

/-- The last entries of two lists. -/
theorem mem_rtake_append (h : a ∈ (l ++ l').rtake n) : a ∈ l.rtake n ∨ a ∈ l' := by
  rw [List.rtake_eq_reverse_take_reverse, List.mem_reverse, List.reverse_append, List.take_append,
    List.mem_append] at h
  rcases h with h | h
  · exact .inr (List.mem_reverse.mp (List.mem_of_mem_take h))
  · rw [List.rtake_eq_reverse_take_reverse, List.mem_reverse]
    exact .inl ((List.take_subset_take_left _ (Nat.sub_le ..)) h)

/-- A short end of a list is among its last entries. -/
theorem mem_rtake_of_length_le (hl : l'.length ≤ n) (h : a ∈ l') : a ∈ (l ++ l').rtake n := by
  rw [List.rtake_eq_reverse_take_reverse, List.mem_reverse, List.reverse_append, List.take_append,
    List.mem_append]
  refine .inl ?_
  rw [List.take_of_length_le (by rw [List.length_reverse]; exact hl)]
  exact List.mem_reverse.mpr h

end Rtake

variable {ι κ : Type} [DecidableEq κ]

/-- The inputs whose key is not one of the last `n` recorded, after `keys` were recorded. -/
def fresh (n : Nat) (key : ι → κ) : List κ → List ι → List ι
  | _, [] => []
  | keys, i :: is => if key i ∈ keys.rtake n then fresh n key keys is else i :: fresh n key (keys ++ [key i]) is

variable {n : Nat} {key : ι → κ} {keys : List κ} {l l' : List ι} {i : ι} {k : κ}

theorem fresh_append (keys : List κ) (l l' : List ι) :
    fresh n key keys (l ++ l') = fresh n key keys l ++ fresh n key (keys ++ (fresh n key keys l).map key) l' := by
  induction l generalizing keys with
  | nil => rw [List.nil_append, fresh, List.map_nil, List.append_nil, List.nil_append]
  | cons j l ih =>
    rw [List.cons_append, fresh, fresh]
    split
    · exact ih keys
    · rw [ih, List.map_cons, List.cons_append, List.append_assoc, List.singleton_append]

theorem fresh_singleton (keys : List κ) (i : ι) :
    fresh n key keys [i] = if key i ∈ keys.rtake n then [] else [i] := by
  rw [fresh, fresh, fresh]

theorem mem_of_mem_fresh (h : i ∈ fresh n key keys l) : i ∈ l := by
  induction l generalizing keys with
  | nil => exact h
  | cons j l ih =>
    rw [fresh] at h
    split at h
    · exact List.mem_cons_of_mem _ (ih h)
    · rcases List.mem_cons.mp h with rfl | h
      · exact List.mem_cons_self
      · exact List.mem_cons_of_mem _ (ih h)

/-- A key that is not remembered is recorded when an input has it. -/
theorem key_mem_fresh (hk : k ∉ keys.rtake n) (h : ∃ i ∈ l, key i = k) : k ∈ (fresh n key keys l).map key := by
  induction l generalizing keys with
  | nil =>
    obtain ⟨i, hi, -⟩ := h
    cases hi
  | cons j l ih =>
    by_cases hj : key j = k
    · rw [fresh, if_neg (hj ▸ hk), List.map_cons, hj]
      exact List.mem_cons_self
    · obtain ⟨i, hi, hik⟩ := h
      have hrest : ∃ i ∈ l, key i = k := by
        rcases List.mem_cons.mp hi with rfl | hi
        · exact absurd hik hj
        · exact ⟨i, hi, hik⟩
      rw [fresh]
      split
      · exact ih hk hrest
      · refine List.mem_cons_of_mem _ (ih (fun h => ?_) hrest)
        rcases mem_rtake_append h with h | h
        · exact hk h
        · exact hj (List.mem_singleton.mp h).symm

/-- A key among the last recorded lets nothing through until it is forgotten. -/
theorem key_ne_of_mem_fresh {last : List κ} (hk : k ∈ last)
    (hlen : last.length + (fresh n key (keys ++ last) l).length ≤ n) (hi : i ∈ fresh n key (keys ++ last) l) :
    key i ≠ k := by
  induction l generalizing last with
  | nil => cases hi
  | cons j l ih =>
    rw [fresh] at hi hlen
    split at hi
    · rename_i hj
      rw [if_pos hj] at hlen
      exact ih hk hlen hi
    · rename_i hj
      rw [if_neg hj, List.length_cons, List.append_assoc] at hlen
      rw [List.append_assoc] at hi
      rcases List.mem_cons.mp hi with rfl | hi
      · rintro rfl
        exact hj (mem_rtake_of_length_le (by omega) hk)
      · exact ih (List.mem_append_left _ hk) (by rw [List.length_append, List.length_singleton]; omega) hi

/-- Of each key that was not remembered the first input is let through, and no
other as long as at most `n` keys are recorded. -/
theorem find?_of_mem_fresh (hlen : (fresh n key keys l).length ≤ n) (hi : i ∈ fresh n key keys l)
    (hk : key i ∉ keys.rtake n) : l.find? (key · = key i) = some i := by
  induction l generalizing keys with
  | nil => cases hi
  | cons j l ih =>
    rw [fresh] at hi hlen
    by_cases hj : key j = key i
    · rw [List.find?_cons_of_pos (by simpa using hj)]
      rw [hj, if_neg hk] at hi hlen
      rcases List.mem_cons.mp hi with rfl | hi
      · rfl
      · rw [List.length_cons] at hlen
        exact absurd rfl (key_ne_of_mem_fresh (List.mem_singleton_self _) (by rw [List.length_singleton]; omega) hi)
    · rw [List.find?_cons_of_neg (by simpa using hj)]
      split at hi
      · rename_i hknown
        rw [if_pos hknown] at hlen
        exact ih hlen hi hk
      · rename_i hknown
        rw [if_neg hknown, List.length_cons] at hlen
        rcases List.mem_cons.mp hi with rfl | hi
        · exact absurd rfl hj
        · refine ih (by omega) hi fun h => ?_
          rcases mem_rtake_append h with h | h
          · exact hk h
          · exact hj (List.mem_singleton.mp h).symm

end RelayStar

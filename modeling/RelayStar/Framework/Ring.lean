import Mathlib.Logic.Function.Basic

/-!
# Ring buffers as sliding windows

A ring buffer of `N` cells with the index `next` of the cell to write next.
Read backwards from there, its cells are the last `N` entries, newest first
(`recent`): writing an entry and advancing `next` modulo `N` puts it in front
and drops the oldest (`recent_push`), whatever the cells held.
-/

namespace RelayStar

variable {α : Type} {N next : Nat}

/-- The list is cut to the length of the window twice. -/
theorem take_append_take (l l' : List α) (n : Nat) : (l ++ l'.take n).take n = (l ++ l').take n := by
  rw [List.take_append, List.take_append, List.take_take, Nat.min_eq_left (Nat.sub_le _ _)]

/-- The cell written `i + 1` writes ago. -/
def back (N next i : Nat) : Nat := if i < next then next - 1 - i else next + N - 1 - i

/-- The cells, the one written last first. -/
def recent (N next : Nat) (cells : Nat → α) : List α := (List.range N).map fun i => cells (back N next i)

@[simp] theorem length_recent (cells : Nat → α) : (recent N next cells).length = N := by
  rw [recent, List.length_map, List.length_range]

theorem recent_congr {cells cells' : Nat → α} (hn : next < N) (h : ∀ j < N, cells j = cells' j) :
    recent N next cells = recent N next cells' := by
  apply List.map_congr_left
  intro i hi
  apply h
  have := List.mem_range.mp hi
  unfold back
  split <;> omega

/-- Every cell is among the recent ones. -/
theorem mem_recent {cells : Nat → α} {a : α} (hn : next < N) :
    a ∈ recent N next cells ↔ ∃ j < N, cells j = a := by
  simp only [recent, List.mem_map, List.mem_range]
  constructor
  · rintro ⟨i, hi, rfl⟩
    refine ⟨_, ?_, rfl⟩
    unfold back
    split <;> omega
  · rintro ⟨j, hj, rfl⟩
    refine ⟨if j < next then next - 1 - j else next + N - 1 - j, ?_, congrArg cells ?_⟩
    · split <;> omega
    · unfold back
      split <;> split <;> omega

theorem back_succ (hn : next < N) {i : Nat} (hi : i + 1 < N) :
    back N ((next + 1) % N) (i + 1) = back N next i ∧ back N next i ≠ next := by
  simp only [back]
  rcases Nat.lt_or_ge (next + 1) N with h | h
  · rw [Nat.mod_eq_of_lt h]
    constructor <;> split <;> (try split) <;> omega
  · rw [show next + 1 = N by omega, Nat.mod_self]
    constructor <;> split <;> (try split) <;> omega

theorem back_zero (hn : next < N) : back N ((next + 1) % N) 0 = next := by
  simp only [back]
  rcases Nat.lt_or_ge (next + 1) N with h | h
  · rw [Nat.mod_eq_of_lt h]; split <;> omega
  · rw [show next + 1 = N by omega, Nat.mod_self]; split <;> omega

/-- Writing at `next` and advancing it. -/
theorem recent_push (cells : Nat → α) (a : α) (hn : next < N) :
    recent N ((next + 1) % N) (Function.update cells next a) = (a :: recent N next cells).take N := by
  apply List.ext_getElem
  · simp only [length_recent, List.length_take, List.length_cons]; omega
  intro i h₁ h₂
  rw [length_recent] at h₁
  rw [List.getElem_take]
  simp only [recent, List.getElem_map, List.getElem_range]
  cases i with
  | zero => rw [back_zero hn, Function.update_self]; rfl
  | succ i =>
    obtain ⟨h, hne⟩ := back_succ hn h₁
    rw [h, Function.update_of_ne hne, List.getElem_cons_succ, List.getElem_map, List.getElem_range]

end RelayStar

import Mathlib.Algebra.Order.Floor.Div

/-!
# Cutting a list into chunks

Chunk `k` of a list cut every `n` elements (`chunk`). The chunks up to the
rounded-up quotient of the length are all but the last of length `n`, the last
is not empty, and put together they are the list (`flatten_chunks`).
-/

namespace RelayStar

variable {α : Type} {n k : Nat} {l : List α}

/-- The `n` elements from the `k * n`-th on, or as many as there are. -/
def chunk (n : Nat) (l : List α) (k : Nat) : List α := (l.drop (k * n)).take n

theorem length_chunk (n : Nat) (l : List α) (k : Nat) : (chunk n l k).length = min n (l.length - k * n) := by
  rw [chunk, List.length_take, List.length_drop]

theorem length_chunk_le (n : Nat) (l : List α) (k : Nat) : (chunk n l k).length ≤ l.length := by
  rw [length_chunk]; omega

/-- The chunks are as many as it takes, and each starts within the list. -/
theorem lt_ceilDiv (hn : 0 < n) {a : Nat} : k < a ⌈/⌉ n ↔ k * n < a := by
  rw [← not_le, ceilDiv_le_iff_le_smul hn, not_le, smul_eq_mul, Nat.mul_comm]

theorem chunk_full (hn : 0 < n) (h : k + 1 < l.length ⌈/⌉ n) : (chunk n l k).length = n := by
  have := (lt_ceilDiv hn).mp h
  rw [Nat.add_mul, Nat.one_mul] at this
  rw [length_chunk]
  omega

theorem chunk_pos (hn : 0 < n) (h : k < l.length ⌈/⌉ n) : 0 < (chunk n l k).length := by
  have := (lt_ceilDiv hn).mp h
  rw [length_chunk]
  omega

theorem flatten_chunks_take (n : Nat) (l : List α) (c : Nat) :
    ((List.range c).map (chunk n l)).flatten = l.take (c * n) := by
  induction c with
  | zero => rw [Nat.zero_mul]; rfl
  | succ c ih =>
    rw [List.range_succ, List.map_append, List.flatten_append, ih, List.map_singleton, List.flatten_singleton,
      Nat.add_mul, Nat.one_mul, List.take_add, chunk]

/-- The chunks put together. -/
theorem flatten_chunks (hn : 0 < n) (l : List α) : ((List.range (l.length ⌈/⌉ n)).map (chunk n l)).flatten = l := by
  rw [flatten_chunks_take, List.take_of_length_le]
  exact Nat.le_of_not_lt fun h => Nat.lt_irrefl _ ((lt_ceilDiv hn).mpr h)

end RelayStar

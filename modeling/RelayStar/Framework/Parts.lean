import Mathlib.Data.List.Basic

/-!
# Numbered parts

The parts of a whole that have arrived, by number (`Parts`), in any order:
`gather_eq` says that once all of them are there, they are read back in order
of number. `Mask` counts the parts present in a word with one bit for each of
them, as an array of flags would.
-/

namespace RelayStar

/-- The parts present, by number. -/
abbrev Parts (α : Type) := Nat → Option α

namespace Parts

variable {α : Type}

/-- Nothing has arrived. -/
def none : Parts α := fun _ => Option.none

/-- Part `k` arrives. -/
def insert (p : Parts α) (k : Nat) (a : α) : Parts α := Function.update p k (some a)

/-- The first `n` parts, in order. -/
def gather (p : Parts α) (n : Nat) : List α := (List.range n).filterMap p

@[simp] theorem insert_self (p : Parts α) (k : Nat) (a : α) : p.insert k a k = some a :=
  Function.update_self ..

theorem insert_of_ne (p : Parts α) {k j : Nat} (a : α) (h : j ≠ k) : p.insert k a j = p j :=
  Function.update_of_ne h ..

/-- The parts of a list, gathered when all are there. -/
theorem gather_eq {p : Parts α} {l : List α} (h : ∀ k (hk : k < l.length), p k = some l[k]) :
    p.gather l.length = l := by
  have e : p.gather l.length = (List.range l.length).filterMap fun k => l[k]? :=
    List.filterMap_congr fun k hk => by
      rw [h k (List.mem_range.mp hk), List.getElem?_eq_getElem]
  rw [e]
  clear e h
  induction l with
  | nil => rfl
  | cons a l ih =>
    rw [List.length_cons, List.range_succ_eq_map, List.filterMap_cons, List.getElem?_cons_zero,
      List.filterMap_map]
    exact congrArg _ ih

end Parts

/-- One more number satisfies the predicate. -/
theorem countP_range_insert {p q : Nat → Bool} {k n : Nat} (hk : p k = false) (hn : k < n)
    (hq : ∀ j < n, q j = (p j || j == k)) : (List.range n).countP q = (List.range n).countP p + 1 := by
  induction n with
  | zero => omega
  | succ n ih =>
    simp only [List.range_succ, List.countP_append, List.countP_singleton, hq n (Nat.lt_succ_self n)]
    rcases Nat.lt_or_ge k n with h | h
    · rw [ih h fun j hj => hq j (by omega), show (n == k) = false by simp; omega, Bool.or_false]
      omega
    · obtain rfl : k = n := by omega
      have e : (List.range k).countP q = (List.range k).countP p :=
        List.countP_congr fun j hj => by
          have := List.mem_range.mp hj
          rw [hq j (by omega), show (j == k) = false by simp; omega, Bool.or_false]
      rw [e, hk, Bool.false_or, BEq.rfl]
      rfl

namespace Mask

/-- Whether bit `k` is set. -/
def has (m : UInt64) (k : Nat) : Bool := m.toBitVec.getLsbD k

/-- The number of bits set among the first `n`. -/
def count (m : UInt64) (n : Nat) : Nat := (List.range n).countP (has m)

@[simp] theorem has_zero (k : Nat) : has 0 k = false := BitVec.getLsbD_zero

@[simp] theorem count_zero (n : Nat) : count 0 n = 0 :=
  List.countP_eq_zero.mpr fun k _ => by rw [has_zero]; decide

theorem has_shift {s : UInt64} (hs : s.toNat < 64) (k : Nat) :
    has ((1 : UInt64) <<< s) k = (k == s.toNat) := by
  have e : (s.toBitVec % 64).toNat = s.toNat := by
    rw [BitVec.toNat_umod]; exact Nat.mod_eq_of_lt hs
  simp only [has, UInt64.toBitVec_shiftLeft, BitVec.shiftLeft_eq', e, UInt64.toBitVec_ofNat,
    BitVec.getLsbD_shiftLeft, BitVec.getLsbD_one]
  rw [Bool.eq_iff_iff]
  simp only [Bool.and_eq_true, Bool.not_eq_true', decide_eq_true_eq, decide_eq_false_iff_not,
    beq_iff_eq]
  omega

/-- Setting a bit. -/
theorem has_or_shift (m : UInt64) {s : UInt64} (hs : s.toNat < 64) (k : Nat) :
    has (m ||| (1 : UInt64) <<< s) k = (has m k || k == s.toNat) := by
  rw [← has_shift hs]
  simp only [has, UInt64.toBitVec_or, BitVec.getLsbD_or]

/-- Testing a bit. -/
theorem and_shift_ne_zero (m : UInt64) {s : UInt64} (hs : s.toNat < 64) :
    m &&& (1 : UInt64) <<< s ≠ 0 ↔ has m s.toNat = true := by
  have hb : ∀ k, (m &&& (1 : UInt64) <<< s).toBitVec.getLsbD k = (has m k && k == s.toNat) := by
    intro k
    rw [← has_shift hs]
    simp only [has, UInt64.toBitVec_and, BitVec.getLsbD_and]
  constructor
  · intro h
    rw [← Bool.not_eq_false]
    intro hm
    refine h (UInt64.toBitVec_inj.mp (BitVec.eq_of_getLsbD_eq fun k _ => ?_))
    rw [hb]
    by_cases hk : k = s.toNat
    · rw [hk, hm, Bool.false_and]; exact BitVec.getLsbD_zero.symm
    · rw [show (k == s.toNat) = false by simpa using hk, Bool.and_false]
      exact BitVec.getLsbD_zero.symm
  · intro hm h
    have := hb s.toNat
    rw [h, hm, BEq.rfl] at this
    simp at this

/-- Setting a bit that was clear counts one more. -/
theorem count_or_shift {m s : UInt64} {n : Nat} (hs : s.toNat < 64) (hn : s.toNat < n)
    (h : has m s.toNat = false) : count (m ||| (1 : UInt64) <<< s) n = count m n + 1 :=
  countP_range_insert h hn fun k _ => has_or_shift m hs k

theorem count_le (m : UInt64) (n : Nat) : count m n ≤ n :=
  Nat.le_trans List.countP_le_length (Nat.le_of_eq List.length_range)

/-- All bits are set when the count says so. -/
theorem count_eq {m : UInt64} {n : Nat} : count m n = n ↔ ∀ k < n, has m k = true := by
  have h := List.countP_eq_length (p := has m) (l := List.range n)
  rw [List.length_range] at h
  simp only [count, h, List.mem_range]

end Mask

end RelayStar

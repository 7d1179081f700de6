/-!
# Vectors of bounded capacity

A list that never outgrows its capacity (`HVec`), with the operations of a
fixed-capacity vector: the ones that could overflow (`push`,
`extendFromSlice`) return `none` and leave the vector alone, as the checked
operations of such a vector do. `extendAll_eq` says when appending several
slices in turn succeeds: exactly when their concatenation fits.
-/

namespace RelayStar

/-- A list of at most `cap` elements. -/
structure HVec (α : Type) (cap : Nat) where
  toList : List α
  length_le : toList.length ≤ cap
deriving DecidableEq

namespace HVec

variable {α : Type} {cap : Nat}

theorem ext {v w : HVec α cap} (h : v.toList = w.toList) : v = w := by
  cases v; cases w; cases h; rfl

/-- The empty vector. -/
def empty : HVec α cap := ⟨[], Nat.zero_le _⟩

/-- The number of elements. -/
def len (v : HVec α cap) : Nat := v.toList.length

/-- Append one element, if there is room. -/
def push (v : HVec α cap) (a : α) : Option (HVec α cap) :=
  if h : (v.toList ++ [a]).length ≤ cap then some ⟨v.toList ++ [a], h⟩ else none

/-- Append a slice, if all of it fits. -/
def extendFromSlice (v : HVec α cap) (s : List α) : Option (HVec α cap) :=
  if h : (v.toList ++ s).length ≤ cap then some ⟨v.toList ++ s, h⟩ else none

/-- Append several slices in turn, stopping at the first that does not fit. -/
def extendAll (v : HVec α cap) : List (List α) → Option (HVec α cap)
  | [] => some v
  | s :: ss => match v.extendFromSlice s with
    | none => none
    | some w => w.extendAll ss

/-- Replace the element at `i` (the vector is unchanged if there is none). -/
def set (v : HVec α cap) (i : Nat) (a : α) : HVec α cap :=
  ⟨v.toList.set i a, by rw [List.length_set]; exact v.length_le⟩

/-- Remove the element at `i`, moving the last one into its place. -/
def swapRemove (v : HVec α cap) (i : Nat) : HVec α cap :=
  match v.toList.getLast? with
  | none => v
  | some a => ⟨(v.toList.set i a).dropLast, by
      rw [List.length_dropLast, List.length_set]; have := v.length_le; omega⟩

/-- Take the first element out, if there is one. -/
def popFront : HVec α cap → Option (α × HVec α cap)
  | ⟨[], _⟩ => none
  | ⟨a :: l, h⟩ => some (a, ⟨l, Nat.le_of_succ_le h⟩)

@[simp] theorem toList_empty : (empty : HVec α cap).toList = [] := rfl

theorem len_le (v : HVec α cap) : v.len ≤ cap := v.length_le

theorem extendFromSlice_eq_some {v w : HVec α cap} {s : List α} :
    v.extendFromSlice s = some w ↔ w.toList = v.toList ++ s := by
  simp only [extendFromSlice]
  split
  · rename_i h
    simp only [Option.some.injEq]
    exact ⟨fun e => e ▸ rfl, fun e => ext e.symm⟩
  · rename_i h
    exact ⟨fun e => (by cases e), fun e => absurd (e ▸ w.length_le) h⟩

/-- Appending an element is appending a slice of one. -/
theorem push_eq (v : HVec α cap) (a : α) : v.push a = v.extendFromSlice [a] := rfl

theorem push_eq_some {v w : HVec α cap} {a : α} :
    v.push a = some w ↔ w.toList = v.toList ++ [a] := extendFromSlice_eq_some

theorem extendFromSlice_eq_none {v : HVec α cap} {s : List α} :
    v.extendFromSlice s = none ↔ cap < (v.toList ++ s).length := by
  simp only [extendFromSlice]
  split
  · rename_i h; simp only [reduceCtorEq, false_iff]; omega
  · rename_i h; simp only [true_iff]; omega

theorem popFront_eq_some {v w : HVec α cap} {a : α} : v.popFront = some (a, w) ↔ v.toList = a :: w.toList := by
  obtain ⟨l, h⟩ := v
  cases l with
  | nil => exact ⟨nofun, nofun⟩
  | cons b l =>
    simp only [popFront, Option.some.injEq, Prod.mk.injEq, List.cons.injEq]
    exact and_congr_right fun _ => ⟨fun e => e ▸ rfl, fun e => ext e⟩

theorem popFront_eq_none {v : HVec α cap} : v.popFront = none ↔ v.toList = [] := by
  obtain ⟨l, h⟩ := v
  cases l with
  | nil => exact ⟨fun _ => rfl, fun _ => rfl⟩
  | cons b l => exact ⟨nofun, nofun⟩

/-- Refilling an empty vector with the elements of one of the same capacity. -/
@[simp] theorem extendFromSlice_empty (v : HVec α cap) :
    (empty : HVec α cap).extendFromSlice v.toList = some v := by
  rw [extendFromSlice_eq_some]; rfl

/-- Appending slices in turn succeeds exactly when all of them fit together. -/
theorem extendAll_eq (v : HVec α cap) (ss : List (List α)) :
    v.extendAll ss = v.extendFromSlice ss.flatten := by
  induction ss generalizing v with
  | nil => rw [extendAll, eq_comm, extendFromSlice_eq_some, List.flatten_nil, List.append_nil]
  | cons s ss ih =>
    rw [extendAll]
    cases h : v.extendFromSlice s with
    | none =>
      rw [extendFromSlice_eq_none] at h
      rw [eq_comm, extendFromSlice_eq_none]
      simp only [List.length_append, List.flatten_cons] at h ⊢
      omega
    | some w =>
      rw [extendFromSlice_eq_some] at h
      simp only [ih, extendFromSlice, h, List.flatten_cons, List.append_assoc]

/-- Appending two slices in turn is appending both at once. -/
theorem extendFromSlice_append (v : HVec α cap) (s s' : List α) :
    v.extendFromSlice (s ++ s') = (v.extendFromSlice s).bind (·.extendFromSlice s') := by
  have h := v.extendAll_eq [s, s']
  rw [List.flatten_cons, List.flatten_singleton] at h
  rw [← h, extendAll]
  cases v.extendFromSlice s with
  | none => rfl
  | some w =>
    simp only [extendAll, Option.bind_some]
    cases w.extendFromSlice s' <;> rfl

/-- Of elements that are pushed in turn, those are left out for which there is no
room. -/
theorem toList_foldl_push_take (v : HVec α cap) (l : List α) :
    (l.foldl (fun out a => (out.push a).getD out) v).toList = (v.toList ++ l).take cap := by
  induction l generalizing v with
  | nil => rw [List.foldl_nil, List.append_nil, List.take_of_length_le v.length_le]
  | cons a l ih =>
    rw [List.foldl_cons, ih]
    cases h : v.push a with
    | none =>
      rw [push_eq, extendFromSlice_eq_none, List.length_append, List.length_singleton] at h
      have hfull : v.toList.length = cap := Nat.le_antisymm v.length_le (Nat.le_of_lt_succ h)
      rw [Option.getD_none, List.take_left' hfull, List.take_left' hfull]
    | some w =>
      rw [push_eq_some] at h
      rw [Option.getD_some, h, List.append_assoc, List.singleton_append]

/-- Pushing elements that all fit. -/
theorem toList_foldl_push (v : HVec α cap) {l : List α} (h : v.toList.length + l.length ≤ cap) :
    (l.foldl (fun out a => (out.push a).getD out) v).toList = v.toList ++ l := by
  rw [toList_foldl_push_take, List.take_of_length_le (by rw [List.length_append]; exact h)]

end HVec

end RelayStar

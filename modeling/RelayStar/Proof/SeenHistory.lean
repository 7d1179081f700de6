import Mathlib.Data.List.DropRight
import RelayStar.Framework.Machine
import RelayStar.Framework.Slots
import RelayStar.Proof.Proto

/-!
# The seen cache over its history

After any calls of a seen cache of `N` cells, it contains the last `N` ids that
were recorded, and no other (`seen_last`), from an empty cache on and however
often the ring has gone round. As long as ids are recorded by `checkAndInsert`
only, they are in one cell each.
-/

namespace RelayStar.SeenCache

variable {N : Nat}

/-- A call of a seen cache. -/
inductive Call where
  | insert (id : UInt32)
  | checkAndInsert (id : UInt32)

/-- The answer of a call, if it has one. -/
def call (c : SeenCache N) : Call → Option Bool × SeenCache N
  | .insert id => (none, c.insert id)
  | .checkAndInsert id => (some (c.checkAndInsert id).1, (c.checkAndInsert id).2)

/-- The id that a call with this answer recorded. -/
def Call.recorded : Call → Option Bool → Option UInt32
  | .insert id, _ => some id
  | .checkAndInsert id, some true => some id
  | .checkAndInsert _, _ => none

/-- The ids recorded by some calls, the newest last. -/
def history (c : SeenCache N) (calls : List Call) : List UInt32 :=
  (calls.zip (run call c calls).1).filterMap fun x => x.1.recorded x.2

/-- A call puts the id it recorded in front of the window. -/
theorem window_call (c : SeenCache N) (k : Call) :
    (c.call k).2.window = (((k.recorded (c.call k).1).toList).map some ++ c.window).take N := by
  have hkeep : c.window.take N = c.window := List.take_of_length_le (Nat.le_of_eq c.length_window)
  cases k with
  | insert id => exact c.window_insert id
  | checkAndInsert id =>
    by_cases h : some id ∈ c.window
    · simp only [call, checkAndInsert_of_mem h, Call.recorded, Option.toList_none, List.map_nil, List.nil_append,
        hkeep]
    · simp only [call, checkAndInsert_of_not_mem h, Call.recorded, Option.toList_some, List.map_cons, List.map_nil,
        List.singleton_append, window_insert]

theorem history_cons (c : SeenCache N) (k : Call) (calls : List Call) :
    c.history (k :: calls) = (k.recorded (c.call k).1).toList ++ (c.call k).2.history calls := by
  rw [history, run_cons, List.zip_cons_cons, List.filterMap_cons]
  cases k.recorded (c.call k).1 with
  | none => rfl
  | some id => rfl

/-- The window after some calls: what they recorded, newest first, and then what
was in it. -/
theorem window_after (c : SeenCache N) (calls : List Call) :
    (run call c calls).2.window = ((c.history calls).reverse.map some ++ c.window).take N := by
  induction calls generalizing c with
  | nil => exact (List.take_of_length_le (Nat.le_of_eq c.length_window)).symm
  | cons k calls ih =>
    rw [run_cons_snd, ih, window_call, take_append_take, history_cons, List.reverse_append, List.map_append,
      List.append_assoc]
    cases k.recorded (c.call k).1 with
    | none => rfl
    | some id => rfl

/-- An id in the window of a cache that was empty is among the last recorded. -/
theorem mem_window_of_empty {l : List UInt32} {id : UInt32} :
    some id ∈ (l.reverse.map some ++ List.replicate N none).take N ↔ id ∈ l.rtake N := by
  rw [List.rtake_eq_reverse_take_reverse, List.mem_reverse, List.take_append, List.mem_append, ← List.map_take]
  constructor
  · rintro (h | h)
    · obtain ⟨id', h, he⟩ := List.mem_map.mp h
      exact Option.some.inj he ▸ h
    · cases List.eq_of_mem_replicate (List.mem_of_mem_take h)
  · exact fun h => Or.inl (List.mem_map_of_mem h)

/-- Every id is in one cell at most. -/
def Distinct (c : SeenCache N) : Prop :=
  ∀ i j : Fin N, c.valid.get i = true → c.valid.get j = true → c.ids.get i = c.ids.get j → i = j

theorem contains_of_cell {c : SeenCache N} {i : Fin N} (h : c.valid.get i = true) : c.contains (c.ids.get i) = true :=
  List.any_eq_true.mpr ⟨i, List.mem_finRange i, by rw [h, BEq.rfl]; rfl⟩

/-- The cells after an id is recorded. -/
theorem cells_insert (c : SeenCache N) (id : UInt32) (i : Fin N) :
    (c.insert id).valid.get i = (if i = c.next then true else c.valid.get i) ∧
      (c.insert id).ids.get i = if i = c.next then id else c.ids.get i :=
  ⟨Slots.get_set c.valid c.next true i, Slots.get_set c.ids c.next id i⟩

/-- An id that is not contained is recorded in one cell. -/
theorem distinct_checkAndInsert {c : SeenCache N} (h : c.Distinct) (id : UInt32) :
    (c.checkAndInsert id).2.Distinct := by
  rw [checkAndInsert]
  split
  · exact h
  · rename_i hid
    have hnew : ∀ i, c.valid.get i = true → c.ids.get i ≠ id := fun i hi he => hid (he ▸ contains_of_cell hi)
    intro i j hi hj he
    show i = j
    obtain ⟨hvi, hci⟩ := c.cells_insert id i
    obtain ⟨hvj, hcj⟩ := c.cells_insert id j
    rw [hvi] at hi
    rw [hvj] at hj
    rw [hci, hcj] at he
    by_cases hin : i = c.next
    · by_cases hjn : j = c.next
      · rw [hin, hjn]
      · rw [if_pos hin, if_neg hjn] at he
        rw [if_neg hjn] at hj
        exact absurd he.symm (hnew j hj)
    · rw [if_neg hin] at hi he
      by_cases hjn : j = c.next
      · rw [if_pos hjn] at he
        exact absurd he (hnew i hi)
      · rw [if_neg hjn] at hj he
        exact h i j hi hj he

section Run

variable [NeZero N]

/-- A cache after some calls. -/
def after (calls : List Call) : SeenCache N := (run call new calls).2

theorem contains_after (calls : List Call) (id : UInt32) :
    (after calls : SeenCache N).contains id = true ↔ id ∈ ((new : SeenCache N).history calls).rtake N := by
  rw [contains_iff, after, window_after, window_new]
  exact mem_window_of_empty

theorem distinct_after {calls : List Call} (h : ∀ k ∈ calls, ∃ id, k = .checkAndInsert id) :
    (after calls : SeenCache N).Distinct := by
  refine @run_inv _ _ _ call Distinct (fun k => ∃ id, k = .checkAndInsert id) ?_ _ calls h ?_
  · rintro c k ⟨id, rfl⟩ hc
    exact distinct_checkAndInsert hc id
  · intro i j hi
    have hv : (new : SeenCache N).valid.get i = false := Vector.getElem_replicate i.isLt
    rw [hv] at hi
    cases hi

end Run

/-- After any calls the cache contains the last `N` ids recorded; `checkAndInsert`
accepts an id that is not one of them, and records it; and if all calls are of
`checkAndInsert`, no id is there twice. -/
theorem seen_last (N : Nat) [NeZero N] (calls : List Call) :
    (∀ id, (after calls : SeenCache N).contains id = true ↔ id ∈ ((new : SeenCache N).history calls).rtake N) ∧
      (∀ id, id ∈ ((new : SeenCache N).history calls).rtake N →
        (after calls : SeenCache N).checkAndInsert id = (false, after calls)) ∧
      (∀ id, id ∉ ((new : SeenCache N).history calls).rtake N →
        (after calls : SeenCache N).checkAndInsert id = (true, (after calls : SeenCache N).insert id)) ∧
      ((∀ k ∈ calls, ∃ id, k = .checkAndInsert id) → (after calls : SeenCache N).Distinct) := by
  refine ⟨contains_after calls, fun id h => ?_, fun id h => ?_, distinct_after⟩
  · rw [checkAndInsert, if_pos ((contains_after calls id).mpr h)]
  · rw [checkAndInsert, if_neg fun hc => h ((contains_after calls id).mp hc)]

/-- Five ids in four cells: the first is gone. -/
theorem seen_last_four :
    (after [.checkAndInsert 1, .checkAndInsert 2, .insert 3, .checkAndInsert 4, .checkAndInsert 5] :
        SeenCache 4).contains 1 ≠ true ∧
      (after [.checkAndInsert 1, .checkAndInsert 2, .insert 3, .checkAndInsert 4, .checkAndInsert 5] :
        SeenCache 4).contains 2 = true :=
  ⟨fun h => absurd (((seen_last 4 _).1 1).mp h) (by decide +kernel), ((seen_last 4 _).1 2).mpr (by decide +kernel)⟩

end RelayStar.SeenCache

import Mathlib.Algebra.BigOperators.Fin
import RelayStar.Framework.HVec

/-!
# Bounded mailboxes

A queue of bounded capacity that several producers put items into and one
consumer takes them from (`Mailbox`). While the queue is full a producer waits,
with one item, until there is room for it.

Whatever the producers and the consumer do, and in whatever order, no item is
lost, and the items of each producer come out in the order they were put in
(`Ledger`): each operation keeps this, with what has been put in and taken out
so far. While there is an item somewhere, one of them can go on (`idle_of_stuck`),
and each item takes two moves at most (`work`).
-/

namespace RelayStar

/-- The queue, and the item that a producer waits with. -/
structure Mailbox (ι α : Type) (n : Nat) where
  queue : HVec α n
  waiting : ι → Option α

namespace Mailbox

variable {ι α : Type} {n : Nat}

def empty : Mailbox ι α n := ⟨.empty, fun _ => none⟩

/-- The consumer takes the first item of the queue, if there is one. -/
def take (q : Mailbox ι α n) : Option (α × Mailbox ι α n) :=
  q.queue.popFront.map fun x => (x.1, { q with queue := x.2 })

theorem take_eq_some {q q' : Mailbox ι α n} {a : α} (h : q.take = some (a, q')) :
    q.queue.toList = a :: q'.queue.toList ∧ q'.waiting = q.waiting := by
  obtain ⟨⟨b, queue⟩, hpop, heq⟩ := Option.map_eq_some_iff.mp h
  cases heq
  exact ⟨HVec.popFront_eq_some.mp hpop, rfl⟩

variable [DecidableEq ι]

/-- Producer `i` waits with an item. -/
def offer (q : Mailbox ι α n) (i : ι) (a : α) : Mailbox ι α n :=
  { q with waiting := Function.update q.waiting i (some a) }

/-- The item of producer `i` goes into the queue, if there is one, and room for
it. -/
def deposit (q : Mailbox ι α n) (i : ι) : Option (Mailbox ι α n) :=
  match q.waiting i with
  | none => none
  | some a => (q.queue.push a).map fun queue => ⟨queue, Function.update q.waiting i none⟩

theorem deposit_eq_some {q q' : Mailbox ι α n} {i : ι} (h : q.deposit i = some q') :
    ∃ a, q.waiting i = some a ∧ q'.queue.toList = q.queue.toList ++ [a] ∧
      q'.waiting = Function.update q.waiting i none := by
  unfold deposit at h
  split at h
  · cases h
  · rename_i a ha
    obtain ⟨queue, hpush, rfl⟩ := Option.map_eq_some_iff.mp h
    exact ⟨a, ha, HVec.push_eq_some.mp hpush, rfl⟩

/-! ## What was put in and taken out -/

/-- Of what each producer put in, the first items have been taken out, the next
are in the queue, and it waits with the last. -/
structure Ledger (owner : α → ι) (put got : List α) (q : Mailbox ι α n) : Prop where
  balance : ∀ i, put.filter (owner · = i) =
    got.filter (owner · = i) ++ (q.queue.toList.filter (owner · = i) ++ (q.waiting i).toList)
  owned : ∀ i a, q.waiting i = some a → owner a = i

namespace Ledger

variable {owner : α → ι} {put got : List α} {q q' : Mailbox ι α n} {i : ι} {a : α}

theorem empty : Ledger owner [] [] (.empty : Mailbox ι α n) := ⟨fun _ => rfl, nofun⟩

theorem offer (h : Ledger owner put got q) (hi : q.waiting i = none) (ha : owner a = i) :
    Ledger owner (put ++ [a]) got (q.offer i a) := by
  refine ⟨fun j => ?_, fun j b hb => ?_⟩
  · rw [List.filter_append, h.balance j]
    by_cases hj : j = i
    · subst hj
      simp [Mailbox.offer, hi, ha]
    · simp [Mailbox.offer, hj, ha, Ne.symm hj]
  · by_cases hj : j = i
    · subst hj
      simp only [Mailbox.offer, Function.update_self, Option.some.injEq] at hb
      rw [← hb, ha]
    · simp only [Mailbox.offer, Function.update_of_ne hj] at hb
      exact h.owned j b hb

theorem deposit (h : Ledger owner put got q) (hq : q.deposit i = some q') : Ledger owner put got q' := by
  obtain ⟨b, hb, hqueue, hwait⟩ := deposit_eq_some hq
  have hown := h.owned i b hb
  refine ⟨fun j => ?_, fun j c hc => ?_⟩
  · rw [h.balance j, hqueue, hwait, List.filter_append]
    by_cases hj : j = i
    · subst hj
      simp [hb, hown]
    · simp [hj, hown, Ne.symm hj]
  · rw [hwait] at hc
    by_cases hj : j = i
    · subst hj
      rw [Function.update_self] at hc
      cases hc
    · rw [Function.update_of_ne hj] at hc
      exact h.owned j c hc

theorem take (h : Ledger owner put got q) (hq : q.take = some (a, q')) : Ledger owner put (got ++ [a]) q' := by
  obtain ⟨hqueue, hwait⟩ := take_eq_some hq
  refine ⟨fun j => ?_, hwait ▸ h.owned⟩
  rw [h.balance j, hqueue, hwait, List.filter_append, List.append_assoc, ← List.singleton_append, List.filter_append,
    List.append_assoc]

end Ledger

/-! ## Progress -/

/-- Where nobody can go on, nothing is left. -/
theorem idle_of_stuck (hn : 0 < n) {q : Mailbox ι α n} (htake : q.take = none) (hdeposit : ∀ i, q.deposit i = none) :
    q.queue.toList = [] ∧ ∀ i, q.waiting i = none := by
  have hqueue : q.queue.toList = [] := HVec.popFront_eq_none.mp (Option.map_eq_none_iff.mp htake)
  refine ⟨hqueue, fun i => ?_⟩
  have hi := hdeposit i
  unfold deposit at hi
  split at hi
  · assumption
  · rw [Option.map_eq_none_iff, HVec.push_eq, HVec.extendFromSlice_eq_none, hqueue] at hi
    simp at hi
    omega

section Work

variable [Fintype ι]

/-- The moves that are left: an item that waits goes into the queue, and then
out. -/
def work (q : Mailbox ι α n) : Nat := q.queue.len + ∑ i, if (q.waiting i).isSome then 2 else 0

omit [DecidableEq ι] in
theorem work_take {q q' : Mailbox ι α n} {a : α} (h : q.take = some (a, q')) : q'.work + 1 = q.work := by
  obtain ⟨hqueue, hwait⟩ := take_eq_some h
  rw [work, work, HVec.len, HVec.len, hqueue, hwait, List.length_cons]
  omega

theorem work_deposit {q q' : Mailbox ι α n} {i : ι} (h : q.deposit i = some q') : q'.work + 1 = q.work := by
  obtain ⟨a, ha, hqueue, hwait⟩ := deposit_eq_some h
  have hsum : (∑ j, if (q.waiting j).isSome then 2 else 0) =
      (∑ j, if (q'.waiting j).isSome then 2 else 0) + 2 := by
    rw [← Finset.add_sum_erase _ _ (Finset.mem_univ i), ← Finset.add_sum_erase (a := i) _ _ (Finset.mem_univ i), hwait,
      Function.update_self, ha]
    have hrest : ∀ j ∈ Finset.univ.erase i, (if (Function.update q.waiting i none j).isSome then 2 else 0) =
        if (q.waiting j).isSome then 2 else 0 := fun j hj => by
      rw [Function.update_of_ne (Finset.ne_of_mem_erase hj)]
    rw [Finset.sum_congr rfl hrest]
    simp
    omega
  rw [work, work, hsum, HVec.len, HVec.len, hqueue, List.length_append, List.length_singleton]
  omega

end Work

end Mailbox

end RelayStar

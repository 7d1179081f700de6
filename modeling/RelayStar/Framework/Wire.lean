import Mathlib.Algebra.Ring.Nat

/-!
# Self-delimiting wire formats

A `Wire` is a byte encoding together with the proofs that it is lossless
whatever follows it (`take_put`) and that a value cut short is never decoded
(`take_cut`). Formats are built from smaller ones, so a composite format has
both properties by construction: single bytes (`byte`), two values in a row
(`pair`), a value whose format depends on the one before it (`dep`), a fixed
number of values (`rep`), values with an invariant or a tag (`map`), optional
values (`option`) and base-128 integers (`varint`).
-/

namespace RelayStar

/-- A lossless, self-delimiting encoding of `α`. -/
structure Wire (α : Type) where
  put : α → List UInt8
  take : List UInt8 → Option (α × List UInt8)
  take_put (a : α) (s : List UInt8) : take (put a ++ s) = some (a, s)
  /-- A proper prefix of an encoding is not decoded. -/
  take_cut {a : α} {p : List UInt8} : p <+: put a → p ≠ put a → take p = none

/-- A prefix of `x ++ y` is a prefix of `x`, or all of `x` and a prefix of `y`. -/
theorem prefix_append_cases {β : Type} {p x y : List β} (h : p <+: x ++ y) :
    p <+: x ∧ p ≠ x ∨ ∃ q, p = x ++ q ∧ q <+: y := by
  rcases Nat.lt_or_ge p.length x.length with hl | hl
  · refine .inl ⟨List.prefix_of_prefix_length_le h (List.prefix_append ..) (by omega), ?_⟩
    rintro rfl
    omega
  · obtain ⟨q, rfl⟩ := List.prefix_of_prefix_length_le (List.prefix_append x y) h hl
    exact .inr ⟨q, rfl, List.prefix_append_right_inj x |>.mp h⟩

namespace Wire

variable {α β : Type}

/-- One byte, as it is. -/
def byte : Wire UInt8 where
  put b := [b]
  take
    | [] => none
    | b :: s => some (b, s)
  take_put _ _ := rfl
  take_cut := by
    intro a p hp hn
    cases p with
    | nil => rfl
    | cons b p =>
      obtain ⟨rfl, hq⟩ := List.cons_prefix_cons.mp hp
      exact absurd (by rw [List.prefix_nil.mp hq]) hn

/-- A value, then one whose format depends on it. -/
def dep {β : α → Type} (v : Wire α) (w : (a : α) → Wire (β a)) : Wire ((a : α) × β a) where
  put x := v.put x.1 ++ (w x.1).put x.2
  take s := match v.take s with
    | none => none
    | some (a, s) => match (w a).take s with
      | none => none
      | some (b, s) => some (⟨a, b⟩, s)
  take_put x s := by
    simp only [List.append_assoc, v.take_put, (w x.1).take_put]
  take_cut := by
    intro x p hp hn
    rcases prefix_append_cases hp with ⟨hp, hne⟩ | ⟨q, rfl, hq⟩
    · simp only [v.take_cut hp hne]
    · have hne : q ≠ (w x.1).put x.2 := fun e => hn (by rw [e])
      simp only [v.take_put, (w x.1).take_cut hq hne]

/-- The values of `β`, encoded as values of `α` that `of` reads back. -/
def map (w : Wire α) (into : β → α) (of : α → Option β) (h : ∀ b, of (into b) = some b) : Wire β where
  put b := w.put (into b)
  take s := match w.take s with
    | none => none
    | some (a, s) => (of a).map fun b => (b, s)
  take_put b s := by simp only [w.take_put, h, Option.map_some]
  take_cut hp hn := by simp only [w.take_cut hp hn]

/-- Two values in a row. -/
def pair (v : Wire α) (w : Wire β) : Wire (α × β) :=
  (dep v fun _ => w).map (fun x => ⟨x.1, x.2⟩) (fun x => some (x.1, x.2)) fun _ => rfl

/-- Read `n` values, one after the other. -/
def takeN (w : Wire α) : Nat → List UInt8 → Option (List α × List UInt8)
  | 0, s => some ([], s)
  | n + 1, s => match w.take s with
    | none => none
    | some (a, s) => (takeN w n s).map fun x => (a :: x.1, x.2)

theorem takeN_put (w : Wire α) (l : List α) (s : List UInt8) :
    w.takeN l.length (l.flatMap w.put ++ s) = some (l, s) := by
  induction l with
  | nil => rfl
  | cons a l ih =>
    simp only [List.flatMap_cons, List.append_assoc, List.length_cons, takeN, w.take_put, ih,
      Option.map_some]

theorem takeN_cut (w : Wire α) {l : List α} {p : List UInt8} (hp : p <+: l.flatMap w.put)
    (hn : p ≠ l.flatMap w.put) : w.takeN l.length p = none := by
  induction l generalizing p with
  | nil => exact absurd (List.prefix_nil.mp hp) hn
  | cons a l ih =>
    rw [List.flatMap_cons] at hp hn
    simp only [List.length_cons, takeN]
    rcases prefix_append_cases hp with ⟨hp, hne⟩ | ⟨q, rfl, hq⟩
    · simp only [w.take_cut hp hne]
    · simp only [w.take_put, ih hq (fun e => hn (by rw [e])), Option.map_none]

/-- The lists of length `n`, one element after the other. -/
def rep (w : Wire α) (n : Nat) : Wire { l : List α // l.length = n } where
  put l := l.1.flatMap w.put
  take s := match h : w.takeN n s with
    | none => none
    | some (l, s) => if h : l.length = n then some (⟨l, h⟩, s) else none
  take_put := by
    rintro ⟨l, rfl⟩ s
    split
    · rename_i h; rw [w.takeN_put] at h; cases h
    · rename_i h; rw [w.takeN_put] at h; cases h; simp only [↓reduceDIte]
  take_cut := by
    rintro ⟨l, rfl⟩ p hp hn
    split
    · rfl
    · rename_i h; rw [w.takeN_cut hp hn] at h; cases h

/-- A flag byte: 0 for nothing, 1 for the value after it. -/
def option (w : Wire α) : Wire (Option α) where
  put
    | none => [0]
    | some a => 1 :: w.put a
  take
    | [] => none
    | b :: s =>
      if b = 0 then some (none, s)
      else if b = 1 then (w.take s).map fun x => (some x.1, x.2)
      else none
  take_put
    | none, _ => rfl
    | some a, s => by
      simp only [List.cons_append, show ¬ (1 : UInt8) = 0 by decide, ite_false, ite_true,
        w.take_put, Option.map_some]
  take_cut := by
    intro a p hp hn
    cases p with
    | nil => rfl
    | cons b p =>
      cases a with
      | none =>
        obtain ⟨rfl, hq⟩ := List.cons_prefix_cons.mp hp
        exact absurd (by rw [List.prefix_nil.mp hq]) hn
      | some a =>
        obtain ⟨rfl, hq⟩ := List.cons_prefix_cons.mp hp
        simp only [show ¬ (1 : UInt8) = 0 by decide, ite_false, ite_true,
          w.take_cut hq (fun e => hn (by rw [e])), Option.map_none]

/-! ## Base-128 integers -/

/-- `n` in at most `k` bytes, seven bits a byte, the lowest first, the top bit
of a byte telling that another one follows. -/
def putVarint : Nat → Nat → List UInt8
  | 0, _ => []
  | k + 1, n =>
    if n < 128 then [UInt8.ofNat n] else UInt8.ofNat (n % 128 + 128) :: putVarint k (n / 128)

/-- Read an integer of at most `k` bytes whose `k`-th byte is at most `last`. -/
def takeVarint (last : Nat) : Nat → List UInt8 → Option (Nat × List UInt8)
  | 0, _ => none
  | _ + 1, [] => none
  | k + 1, b :: s =>
    if b.toNat < 128 then
      if k = 0 ∧ last < b.toNat then none else some (b.toNat, s)
    else (takeVarint last k s).map fun x => (b.toNat - 128 + 128 * x.1, x.2)

theorem takeVarint_put {last k n : Nat} (hl : last < 128) (hn : n < 128 ^ k * (last + 1))
    (s : List UInt8) : takeVarint last (k + 1) (putVarint (k + 1) n ++ s) = some (n, s) := by
  induction k generalizing n with
  | zero =>
    have h : n < 128 := by omega
    have e : (UInt8.ofNat n).toNat = n := by simp only [UInt8.toNat_ofNat']; omega
    simp only [putVarint, h, ite_true, List.cons_append, List.nil_append, takeVarint, e, true_and,
      show ¬ last < n by omega, ite_false]
  | succ k ih =>
    rw [putVarint]
    split
    · rename_i h
      have e : (UInt8.ofNat n).toNat = n := by simp only [UInt8.toNat_ofNat']; omega
      simp only [List.cons_append, List.nil_append, takeVarint, e, h, ite_true,
        Nat.succ_ne_zero, false_and, ite_false]
    · have e : (UInt8.ofNat (n % 128 + 128)).toNat = n % 128 + 128 := by
        simp only [UInt8.toNat_ofNat']; omega
      have hd : n / 128 < 128 ^ k * (last + 1) := by
        rw [Nat.div_lt_iff_lt_mul (by decide)]
        rw [Nat.pow_succ, Nat.mul_right_comm] at hn
        exact hn
      rw [List.cons_append, takeVarint]
      simp only [e, show ¬ n % 128 + 128 < 128 by omega, ite_false, ih hd, Option.map_some,
        Option.some.injEq, Prod.mk.injEq, and_true]
      omega

theorem takeVarint_cut {last k n : Nat} {p : List UInt8} (hp : p <+: putVarint k n)
    (hn : p ≠ putVarint k n) : takeVarint last k p = none := by
  induction k generalizing n p with
  | zero => rfl
  | succ k ih =>
    cases p with
    | nil => rfl
    | cons b p =>
      rw [putVarint] at hp hn
      split at hp
      · rename_i h
        obtain ⟨rfl, hq⟩ := List.cons_prefix_cons.mp hp
        rw [List.prefix_nil.mp hq, if_pos h] at hn
        exact absurd rfl hn
      · rename_i h
        obtain ⟨rfl, hq⟩ := List.cons_prefix_cons.mp hp
        rw [if_neg h] at hn
        have e : (UInt8.ofNat (n % 128 + 128)).toNat = n % 128 + 128 := by
          simp only [UInt8.toNat_ofNat']; omega
        rw [takeVarint]
        simp only [e, show ¬ n % 128 + 128 < 128 by omega, ite_false,
          ih hq (fun e => hn (by rw [e])), Option.map_none]

theorem length_putVarint_le (k n : Nat) : (putVarint k n).length ≤ k := by
  induction k generalizing n with
  | zero => exact Nat.le_refl _
  | succ k ih =>
    rw [putVarint]
    split
    · simp only [List.length_singleton]; omega
    · have := ih (n / 128)
      simp only [List.length_cons]; omega

/-- The integers below `128 ^ k * (last + 1)`, in at most `k + 1` bytes. -/
def varint (k last : Nat) (hl : last < 128) : Wire (Fin (128 ^ k * (last + 1))) where
  put n := putVarint (k + 1) n
  take s := match takeVarint last (k + 1) s with
    | none => none
    | some (n, s) => if h : n < 128 ^ k * (last + 1) then some (⟨n, h⟩, s) else none
  take_put n s := by
    simp only [takeVarint_put hl n.isLt, n.isLt, ↓reduceDIte]
  take_cut hp hn := by simp only [takeVarint_cut hp hn]

end Wire

end RelayStar

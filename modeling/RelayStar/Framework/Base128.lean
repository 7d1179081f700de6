import RelayStar.Framework.Wire

/-!
# Base-128 integers, padded or not

The bytes of an integer end with the first byte whose top bit is clear (`Ends`);
the lower seven bits of each are its digits, the lowest first (`value`). An
integer has many encodings, as zeros can be put in front; none is shorter than the
one that `Wire.putVarint` gives (`putVarint_spec`, `size_value_le`), and no other
is as short (`eq_of_value`).
Of any stream, the first `k` bytes have an integer at their beginning, or go on,
or are not all there (`ends_or_goes_on`).
-/

namespace RelayStar.Base128

open Wire (putVarint)

/-- The integer of the lower seven bits of the bytes. -/
def value : List UInt8 → Nat
  | [] => 0
  | b :: bs => b.toNat % 128 + 128 * value bs

/-- The last byte, and no other, has its top bit clear. -/
def Ends : List UInt8 → Prop
  | [] => False
  | b :: bs => b.toNat < 128 ∧ bs = [] ∨ 128 ≤ b.toNat ∧ Ends bs

instance : (bs : List UInt8) → Decidable (Ends bs)
  | [] => inferInstanceAs (Decidable False)
  | b :: bs =>
    have := instDecidableEnds bs
    inferInstanceAs (Decidable (b.toNat < 128 ∧ bs = [] ∨ 128 ≤ b.toNat ∧ Ends bs))

/-- The number of bytes that `n` takes. -/
def size (n : Nat) : Nat := if n < 128 then 1 else size (n / 128) + 1

theorem ends_last {b : UInt8} (h : b.toNat < 128) : Ends [b] := .inl ⟨h, rfl⟩

theorem Ends.exists_lt {bs : List UInt8} (h : Ends bs) : ∃ b ∈ bs, b.toNat < 128 := by
  induction bs with
  | nil => cases h
  | cons b bs ih =>
    apply h.elim
    · exact fun h => ⟨b, List.mem_cons_self, h.1⟩
    · intro h
      obtain ⟨b', hb', hlt⟩ := ih h.2
      exact ⟨b', List.mem_cons_of_mem b hb', hlt⟩

theorem value_lt (bs : List UInt8) : value bs < 128 ^ bs.length := by
  induction bs with
  | nil => exact Nat.zero_lt_one
  | cons b bs ih =>
    rw [value, List.length_cons, Nat.pow_succ]
    omega

theorem size_pos (n : Nat) : 1 ≤ size n := by
  rw [size]
  split
  · exact Nat.le_refl 1
  · exact Nat.le_add_left ..

theorem size_le {n k : Nat} (hk : k ≠ 0) (h : n < 128 ^ k) : size n ≤ k := by
  induction k generalizing n with
  | zero => exact absurd rfl hk
  | succ k ih =>
    rw [size]
    split
    · exact Nat.le_add_left ..
    · rename_i hn
      have hk : k ≠ 0 := fun h0 => by
        subst h0
        exact hn (by rwa [Nat.pow_one] at h)
      have hdiv : n / 128 < 128 ^ k := by
        rw [Nat.div_lt_iff_lt_mul (by decide), ← Nat.pow_succ]
        exact h
      exact Nat.succ_le_succ (ih hk hdiv)

/-- No encoding is shorter. -/
theorem size_value_le {bs : List UInt8} (h : Ends bs) : size (value bs) ≤ bs.length := by
  refine size_le (fun h0 => ?_) (value_lt bs)
  rw [List.length_eq_zero_iff.mp h0] at h
  exact h

/-- Encodings of one length differ in what they encode. -/
theorem eq_of_value {bs bs' : List UInt8} (h : Ends bs) (h' : Ends bs') (hlen : bs.length = bs'.length)
    (hv : value bs = value bs') : bs = bs' := by
  induction bs generalizing bs' with
  | nil => cases h
  | cons b bs ih =>
    cases bs' with
    | nil => cases hlen
    | cons b' bs' =>
      rw [List.length_cons, List.length_cons, Nat.add_right_cancel_iff] at hlen
      rw [value, value] at hv
      have hb := b.toNat_lt
      have hb' := b'.toNat_lt
      rcases h with ⟨hlt, rfl⟩ | ⟨hge, h⟩
      · rcases h' with ⟨hlt', rfl⟩ | ⟨-, h'⟩
        · rw [UInt8.toNat_inj.mp (show b.toNat = b'.toNat by rw [value] at hv; omega)]
        · rw [List.length_eq_zero_iff.mp hlen.symm] at h'
          cases h'
      · rcases h' with ⟨-, rfl⟩ | ⟨hge', h'⟩
        · rw [List.length_eq_zero_iff.mp hlen] at h
          cases h
        · rw [UInt8.toNat_inj.mp (show b.toNat = b'.toNat by omega), ih h h' hlen (by omega)]

/-- `putVarint` encodes, in as few bytes as it takes. -/
theorem putVarint_spec {k n : Nat} (hk : k ≠ 0) (h : n < 128 ^ k) :
    Ends (putVarint k n) ∧ value (putVarint k n) = n ∧ (putVarint k n).length = size n := by
  induction k generalizing n with
  | zero => exact absurd rfl hk
  | succ k ih =>
    rw [putVarint, size]
    split
    · rename_i hn
      have hb : (UInt8.ofNat n).toNat = n := by rw [UInt8.toNat_ofNat']; omega
      refine ⟨ends_last (by omega), ?_, rfl⟩
      rw [value, value, hb]
      omega
    · rename_i hn
      have hb : (UInt8.ofNat (n % 128 + 128)).toNat = n % 128 + 128 := by rw [UInt8.toNat_ofNat']; omega
      have hk : k ≠ 0 := fun h0 => by
        subst h0
        exact hn (by rwa [Nat.pow_one] at h)
      have hdiv : n / 128 < 128 ^ k := by
        rw [Nat.div_lt_iff_lt_mul (by decide), ← Nat.pow_succ]
        exact h
      obtain ⟨he, hv, hl⟩ := ih hk hdiv
      refine ⟨.inr ⟨by omega, he⟩, ?_, by rw [List.length_cons, hl]⟩
      rw [value, hb, hv]
      omega

/-- The beginning of a stream. -/
theorem ends_or_goes_on (k : Nat) (bs : List UInt8) :
    (∃ ls rest, bs = ls ++ rest ∧ Ends ls ∧ ls.length ≤ k) ∨
      (∃ ls rest, bs = ls ++ rest ∧ ls.length = k ∧ ∀ b ∈ ls, 128 ≤ b.toNat) ∨
      bs.length < k ∧ ∀ b ∈ bs, 128 ≤ b.toNat := by
  induction k generalizing bs with
  | zero => exact .inr (.inl ⟨[], bs, rfl, rfl, fun _ hb => by cases hb⟩)
  | succ k ih =>
    cases bs with
    | nil => exact .inr (.inr ⟨Nat.succ_pos k, fun _ hb => by cases hb⟩)
    | cons b bs =>
      rcases Nat.lt_or_ge b.toNat 128 with hb | hb
      · exact .inl ⟨[b], bs, rfl, ends_last hb, Nat.le_add_left ..⟩
      · rcases ih bs with ⟨ls, rest, rfl, he, hl⟩ | ⟨ls, rest, rfl, hl, hall⟩ | ⟨hl, hall⟩
        · exact .inl ⟨b :: ls, rest, rfl, .inr ⟨hb, he⟩, Nat.succ_le_succ hl⟩
        · exact .inr (.inl ⟨b :: ls, rest, rfl, by rw [List.length_cons, hl], List.forall_mem_cons.mpr ⟨hb, hall⟩⟩)
        · exact .inr (.inr ⟨Nat.succ_lt_succ hl, List.forall_mem_cons.mpr ⟨hb, hall⟩⟩)

end RelayStar.Base128

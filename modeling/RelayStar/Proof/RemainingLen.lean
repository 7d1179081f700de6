import RelayStar.Framework.Base128
import RelayStar.Impl.Mqtt

/-!
# The remaining length of a packet

The length of a packet is a base-128 integer (`Base128`). `writeRemainingLen`
writes the shortest one (`writeRemainingLen_eq`). What the loop of `readPacket`
makes of a stream depends on how the stream begins: with an integer of at most
four bytes (`feed_ends`), with four bytes that all go on (`feed_goes_on`), or
with too few bytes (`feed_short`); there is no other case
(`Base128.ends_or_goes_on`). The three go by one round of the loop (`feed_last`,
`feed_more`). In none of its rounds does a `usize` of 32 bits overflow
(`readRemainingLenChecked_eq`).
-/

namespace RelayStar

theorem and_0x80 (b : UInt8) : b &&& 0x80 = 0 ↔ b.toNat < 128 := by
  suffices H : ∀ x : BitVec 8, x &&& 0x80#8 = 0#8 ↔ x.toNat < 128 by
    rw [← UInt8.toBitVec_inj]
    exact H b.toBitVec
  decide +kernel

theorem toNat_and_0x7f (b : UInt8) : (b &&& 0x7f).toNat = b.toNat % 128 :=
  Nat.and_two_pow_sub_one_eq_mod b.toNat 7

namespace Mqtt

open Wire (putVarint)
open Base128 (value value_lt Ends ends_or_goes_on)

/-! ## Writing -/

/-- What is written is the length as a base-128 integer. -/
theorem writeRemainingLen_eq {N k len : Nat} (v : HVec UInt8 N) (h : len < 128 ^ k) (hk : k ≠ 0) :
    writeRemainingLen v len = fits (v.extendFromSlice (putVarint k len)) := by
  induction k generalizing v len with
  | zero => exact absurd rfl hk
  | succ k ih =>
    rw [writeRemainingLen, putVarint]
    by_cases hlt : len < 128
    · have h0 : len / 128 = 0 := Nat.div_eq_of_lt hlt
      simp only [h0, Nat.lt_irrefl, if_false, if_pos hlt, if_true, Nat.mod_eq_of_lt hlt]
      rw [HVec.push_eq]
      cases v.extendFromSlice [UInt8.ofNat len] <;> rfl
    · have hpos : 0 < len / 128 := by omega
      have hor : ∀ x < 128, UInt8.ofNat x ||| 0x80 = UInt8.ofNat (x + 128) := by decide
      have hk : k ≠ 0 := fun h0 => by
        subst h0
        exact hlt (by rwa [Nat.pow_one] at h)
      have hdiv : len / 128 < 128 ^ k := by
        rw [Nat.div_lt_iff_lt_mul (by decide), ← Nat.pow_succ]
        exact h
      simp only [if_pos hpos, if_neg hlt, if_neg (Nat.pos_iff_ne_zero.mp hpos), hor _ (Nat.mod_lt _ (by decide))]
      rw [← List.singleton_append, HVec.extendFromSlice_append]
      rw [HVec.push_eq]
      cases v.extendFromSlice [UInt8.ofNat (len % 128 + 128)] with
      | none => rfl
      | some w => exact ih w hdiv hk

/-! ## Reading -/

/-- Four rounds are enough. -/
theorem readRemainingLen_fuel (n : Nat) : readRemainingLen (n + 4) 1 0 = readRemainingLen 4 1 0 := by
  simp only [readRemainingLen]
  rfl

section Round

variable {j k : Nat} (v : Nat) {b : UInt8} (rest : List UInt8)

/-- The round of the last byte. -/
theorem feed_last (m : Nat) (hb : b.toNat < 128) :
    (readRemainingLen (k + 1) m v).feed (b :: rest) = (.done (v + b.toNat % 128 * m), rest) := by
  rw [readRemainingLen, ← List.singleton_append]
  refine (Reader.feed_bind _ _ _).trans ?_
  rw [(Reader.Reads.byte b).feed]
  simp only [if_pos ((and_0x80 b).mpr hb), toNat_and_0x7f]
  rfl

/-- The round of a byte that another one follows. -/
theorem feed_more (hj : j + (k + 1) = 4) (hb : 128 ≤ b.toNat) :
    (readRemainingLen (k + 1) (128 ^ j) v).feed (b :: rest) =
      (readRemainingLen k (128 ^ (j + 1)) (v + b.toNat % 128 * 128 ^ j)).feed rest := by
  rw [readRemainingLen, ← List.singleton_append]
  refine (Reader.feed_bind _ _ _).trans ?_
  rw [(Reader.Reads.byte b).feed]
  simp only [if_neg fun h0 => absurd ((and_0x80 b).mp h0) (Nat.not_lt.mpr hb), toNat_and_0x7f, ← Nat.pow_succ]
  cases k with
  | zero =>
    obtain rfl : j = 3 := by omega
    rfl
  | succ k =>
    have hle : 128 ^ (j + 1) ≤ 128 ^ 3 := Nat.pow_le_pow_right (by decide) (by omega)
    rw [if_neg (by omega)]

end Round

section Stream

variable {j k : Nat}

/-- An integer that is not too long. -/
theorem feed_ends {ls : List UInt8} (h : Ends ls) (hlen : ls.length ≤ k) (hj : j + k = 4) (v : Nat)
    (rest : List UInt8) :
    (readRemainingLen k (128 ^ j) v).feed (ls ++ rest) = (.done (v + value ls * 128 ^ j), rest) := by
  induction ls generalizing j k v with
  | nil => cases h
  | cons b ls ih =>
    cases k with
    | zero => cases hlen
    | succ k =>
      rw [List.cons_append]
      apply h.elim
      · rintro ⟨hb, rfl⟩
        rw [List.nil_append, feed_last v rest _ hb, value, value, Nat.mul_zero, Nat.add_zero]
      · rintro ⟨hb, h⟩
        rw [feed_more v _ hj hb, ih h (Nat.le_of_succ_le_succ hlen) (by omega), value, Nat.add_mul, Nat.add_assoc,
          Nat.pow_succ, Nat.mul_comm (128 ^ j), ← Nat.mul_assoc, Nat.mul_comm (value ls)]

/-- Bytes that all go on, as many as can be read. -/
theorem feed_goes_on {ls : List UInt8} (hall : ∀ b ∈ ls, 128 ≤ b.toNat) (hlen : ls.length = k) (hj : j + k = 4)
    (v : Nat) (rest : List UInt8) :
    (readRemainingLen k (128 ^ j) v).feed (ls ++ rest) = (.error .protocol, rest) := by
  induction ls generalizing j k v with
  | nil => subst hlen; rfl
  | cons b ls ih =>
    subst hlen
    obtain ⟨hb, hall⟩ := List.forall_mem_cons.mp hall
    rw [List.cons_append]
    exact (feed_more v _ hj hb).trans (ih hall rfl (by rw [List.length_cons] at hj; omega) _)

/-- Fewer bytes that all go on. -/
theorem feed_short {ls : List UInt8} (hall : ∀ b ∈ ls, 128 ≤ b.toNat) (hlen : ls.length < k) (hj : j + k = 4)
    (v : Nat) : ∃ r, (readRemainingLen k (128 ^ j) v).feed ls = (.wait r, []) := by
  induction ls generalizing j k v with
  | nil =>
    cases k with
    | zero => cases hlen
    | succ k => exact ⟨_, rfl⟩
  | cons b ls ih =>
    cases k with
    | zero => cases hlen
    | succ k =>
      obtain ⟨hb, hall⟩ := List.forall_mem_cons.mp hall
      rw [feed_more v _ hj hb]
      exact ih hall (Nat.lt_of_succ_lt_succ hlen) (by omega) _

end Stream

/-- The loop reads the rest of a length from its bytes. -/
theorem reads_remainingLen {n : Nat} (hn : n < 128 ^ 4) : (readRemainingLen 4 1 0).Reads (putVarint 4 n) n := by
  obtain ⟨he, hv, -⟩ := Base128.putVarint_spec (k := 4) (by decide) hn
  have h := feed_ends (j := 0) he (Wire.length_putVarint_le 4 n) rfl 0 []
  rwa [List.append_nil, hv, Nat.zero_add, Nat.pow_zero, Nat.mul_one] at h

/-- No product and no sum of the loop overflows. -/
theorem readRemainingLenChecked_eq {j v : Nat} (k : Nat) (hj : j ≤ 3) (hv : v < 128 ^ j) :
    readRemainingLenChecked k (128 ^ j) v = (readRemainingLen k (128 ^ j) v).bind fun n => .done (some n) := by
  induction k generalizing j v with
  | zero => rfl
  | succ k ih =>
    have hle : 128 ^ j ≤ 128 ^ 3 := Nat.pow_le_pow_right (by decide) hj
    refine congrArg Reader.wait (funext fun b => ?_)
    have hdigit : b.toNat % 128 * 128 ^ j ≤ 127 * 128 ^ j := Nat.mul_le_mul_right _ (by omega)
    have hsum : v + b.toNat % 128 * 128 ^ j < 128 ^ (j + 1) := by rw [Nat.pow_succ]; omega
    have hchecked : ∀ {n}, n ≤ 128 ^ 4 → checkedUsize n = some n := fun hn => if_pos (by omega)
    show Reader.bind (.done b) _ = Reader.bind (Reader.bind (.done b) _) _
    simp only [Reader.bind, toNat_and_0x7f, ← Nat.pow_succ]
    rw [hchecked (by omega)]
    dsimp only
    rw [hchecked (by omega)]
    dsimp only
    split
    · rfl
    · rw [hchecked (by omega)]
      dsimp only
      split
      · rfl
      · rename_i hle'
        have hj : 128 ^ (j + 1) ≤ 128 ^ 3 := Nat.not_lt.mp hle'
        exact ih ((Nat.pow_le_pow_iff_right (by decide)).mp hj) hsum

/-- What the loop makes of any stream. -/
theorem feed_stream (bytes : List UInt8) :
    (∃ ls rest, bytes = ls ++ rest ∧ Ends ls ∧ ls.length ≤ 4 ∧
      (readRemainingLen 4 1 0).feed bytes = (.done (value ls), rest)) ∨
    (∃ ls rest, bytes = ls ++ rest ∧ ls.length = 4 ∧ (∀ b ∈ ls, 128 ≤ b.toNat) ∧
      (readRemainingLen 4 1 0).feed bytes = (.error .protocol, rest)) ∨
    bytes.length < 4 ∧ (∀ b ∈ bytes, 128 ≤ b.toNat) ∧
      ∃ r, (readRemainingLen 4 1 0).feed bytes = (.wait r, []) := by
  apply (ends_or_goes_on 4 bytes).imp
  · rintro ⟨ls, rest, rfl, he, hl⟩
    have h := feed_ends (j := 0) he hl rfl 0 rest
    rw [Nat.zero_add, Nat.pow_zero, Nat.mul_one] at h
    exact ⟨ls, rest, rfl, he, hl, h⟩
  · apply Or.imp
    · rintro ⟨ls, rest, rfl, hl, hall⟩
      exact ⟨ls, rest, rfl, hl, hall, feed_goes_on (j := 0) hall hl rfl 0 rest⟩
    · rintro ⟨hl, hall⟩
      exact ⟨hl, hall, feed_short (j := 0) hall hl rfl 0⟩

/-- An integer that ends is not made of bytes that all go on. -/
theorem not_goes_on {ls rest : List UInt8} (h : Ends ls) (hlen : ls.length ≤ 4) :
    ¬ ∀ b ∈ (ls ++ rest).take 4, 128 ≤ b.toNat := by
  intro hall
  obtain ⟨b, hb, hlt⟩ := h.exists_lt
  have hmem : b ∈ (ls ++ rest).take 4 := by
    rw [List.take_append, List.take_of_length_le hlen]
    exact List.mem_append_left _ hb
  exact absurd (hall b hmem) (Nat.not_le.mpr hlt)

/-- Every length below `128 ^ 4` is written as the shortest integer of at most
four bytes, and read from it whatever follows. In any stream the loop reads at
most four bytes, it fails exactly on four bytes that all have the continuation
bit, it computes no value above 268435455, and a `usize` of 32 bits does not
overflow. -/
theorem remainingLen_exact (fuel : Nat) :
    (∀ n < 128 ^ 4, ∃ enc : List UInt8, (Ends enc ∧ value enc = n) ∧ (1 ≤ enc.length ∧ enc.length ≤ 4) ∧
      (∀ enc', Ends enc' → value enc' = n →
        enc.length ≤ enc'.length ∧ (enc'.length = enc.length → enc' = enc)) ∧
      (∀ (N : Nat) (v : HVec UInt8 N), writeRemainingLen v n = fits (v.extendFromSlice enc)) ∧
      ∀ rest, (readRemainingLen (fuel + 4) 1 0).feed (enc ++ rest) = (.done n, rest)) ∧
    (∀ bytes : List UInt8,
      (∃ used, used.length ≤ 4 ∧ bytes = used ++ ((readRemainingLen (fuel + 4) 1 0).feed bytes).2) ∧
      (∀ e, ((readRemainingLen (fuel + 4) 1 0).feed bytes).1 = .error e ↔
        e = .protocol ∧ 4 ≤ bytes.length ∧ ∀ b ∈ bytes.take 4, b &&& 0x80 ≠ 0) ∧
      ∀ n, ((readRemainingLen (fuel + 4) 1 0).feed bytes).1 = .done n → n ≤ 268435455) ∧
    readRemainingLenChecked (fuel + 4) 1 0 = (readRemainingLen (fuel + 4) 1 0).bind fun n => .done (some n) := by
  have hgo (bytes : List UInt8) :
      (∀ b ∈ bytes.take 4, b &&& 0x80 ≠ 0) ↔ ∀ b ∈ bytes.take 4, 128 ≤ b.toNat :=
    forall₂_congr fun b _ => (not_congr (and_0x80 b)).trans Nat.not_lt
  have hchecked := readRemainingLenChecked_eq (j := 0) (fuel + 4) (by decide) Nat.zero_lt_one
  rw [Nat.pow_zero] at hchecked
  rw [hchecked, readRemainingLen_fuel]
  refine ⟨fun n hn => ?_, fun bytes => ?_, rfl⟩
  · obtain ⟨he, hv, hl⟩ := Base128.putVarint_spec (k := 4) (by decide) hn
    refine ⟨putVarint 4 n, ⟨he, hv⟩, ⟨by rw [hl]; exact Base128.size_pos n, Wire.length_putVarint_le 4 n⟩, ?_,
      fun N v => writeRemainingLen_eq v hn (by decide), (reads_remainingLen hn).feed⟩
    intro enc' he' hv'
    refine ⟨?_, fun hlen => Base128.eq_of_value he' he hlen (hv'.trans hv.symm)⟩
    rw [hl, ← hv']
    exact Base128.size_value_le he'
  · rw [hgo]
    rcases feed_stream bytes with ⟨ls, rest, rfl, he, hl, hr⟩ | ⟨ls, rest, rfl, hl, hall, hr⟩ | ⟨hl, hall, r, hr⟩
    · rw [hr]
      refine ⟨⟨ls, hl, rfl⟩, fun e => ⟨nofun, fun h => absurd h.2.2 (not_goes_on he hl)⟩, ?_⟩
      rintro n ⟨⟩
      have hlt := value_lt ls
      have hle : 128 ^ ls.length ≤ 128 ^ 4 := Nat.pow_le_pow_right (by decide) hl
      omega
    · rw [hr]
      refine ⟨⟨ls, Nat.le_of_eq hl, rfl⟩, fun e => ⟨?_, fun h => by rw [h.1]⟩, nofun⟩
      rintro ⟨⟩
      rw [List.length_append, ← hl, List.take_left]
      exact ⟨rfl, Nat.le_add_right .., hall⟩
    · rw [hr]
      exact ⟨⟨bytes, Nat.le_of_lt hl, (List.append_nil bytes).symm⟩,
        fun e => ⟨nofun, fun h => absurd h.2.1 (Nat.not_le.mpr hl)⟩, nofun⟩

/-- 321 takes two bytes. -/
theorem remainingLen_exact_321 :
    ∃ enc : List UInt8, Ends enc ∧ value enc = 321 ∧
      (readRemainingLen 4 1 0).feed (enc ++ [7]) = (.done 321, [7]) := by
  obtain ⟨enc, he, -, -, -, h⟩ := (remainingLen_exact 0).1 321 (by decide)
  exact ⟨enc, he.1, he.2, h [7]⟩

end Mqtt

end RelayStar

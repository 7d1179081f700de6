import Mathlib.Algebra.Ring.Nat

/-!
# Unsigned decimals

`parseUnsigned max` reads a number in base 10 as `str::parse` does for an unsigned
integer type with this largest value: digits, at least one, of which the first can
be zero, and a plus sign in front, or none (`parseUnsigned_eq_some`). The loop never
takes a value above `max` (`parseDigits_eq_some`).
-/

namespace RelayStar

/-- The loop over the digits. -/
def parseDigits (max : Nat) : List Char → Nat → Option Nat
  | [], acc => some acc
  | c :: cs, acc =>
    if c.isDigit then
      if max < 10 * acc then none
      else if max < 10 * acc + (c.toNat - '0'.toNat) then none
      else parseDigits max cs (10 * acc + (c.toNat - '0'.toNat))
    else none

def parseUnsigned (max : Nat) : List Char → Option Nat
  | [] => none
  | ['+'] => none
  | '+' :: ds => parseDigits max ds 0
  | ds => parseDigits max ds 0

/-- The characters are a decimal of this value, with or without a plus sign. -/
def Spells (l : List Char) (n : Nat) : Prop :=
  ∃ ds, ds ≠ [] ∧ (∀ c ∈ ds, c.isDigit = true) ∧ (l = ds ∨ l = '+' :: ds) ∧ Nat.ofDigitChars 10 ds 0 = n

theorem le_ofDigitChars (l : List Char) (acc : Nat) : acc ≤ Nat.ofDigitChars 10 l acc := by
  induction l generalizing acc with
  | nil => exact Nat.le_refl acc
  | cons c l ih =>
    rw [Nat.ofDigitChars_cons]
    have := ih (10 * acc + (c.toNat - '0'.toNat))
    omega

theorem parseDigits_eq_some {max : Nat} {l : List Char} {acc n : Nat} (hacc : acc ≤ max) :
    parseDigits max l acc = some n ↔
      (∀ c ∈ l, c.isDigit = true) ∧ Nat.ofDigitChars 10 l acc = n ∧ n ≤ max := by
  induction l generalizing acc with
  | nil =>
    rw [parseDigits, Nat.ofDigitChars_nil, Option.some.injEq]
    exact ⟨fun h => ⟨nofun, h, h ▸ hacc⟩, fun h => h.2.1⟩
  | cons c l ih =>
    rw [parseDigits, Nat.ofDigitChars_cons, List.forall_mem_cons]
    have hle := le_ofDigitChars l (10 * acc + (c.toNat - '0'.toNat))
    split
    · rename_i hc
      split
      · exact ⟨nofun, fun h => by omega⟩
      · split
        · exact ⟨nofun, fun h => by omega⟩
        · rw [ih (by omega)]
          exact ⟨fun h => ⟨⟨hc, h.1⟩, h.2⟩, fun h => ⟨h.1.2, h.2⟩⟩
    · exact ⟨nofun, fun h => absurd h.1.1 ‹_›⟩

/-- What is read, and from what. -/
theorem parseUnsigned_eq_some {max : Nat} {l : List Char} {n : Nat} :
    parseUnsigned max l = some n ↔ Spells l n ∧ n ≤ max := by
  have hplus (ds : List Char) : ¬ ∀ c ∈ '+' :: ds, c.isDigit = true := fun h =>
    absurd (h '+' List.mem_cons_self) (by decide)
  unfold parseUnsigned
  split
  · refine ⟨nofun, ?_⟩
    rintro ⟨⟨ds, hne, -, rfl | heq, -⟩, -⟩
    · exact absurd rfl hne
    · cases heq
  · refine ⟨nofun, ?_⟩
    rintro ⟨⟨ds, hne, hds, rfl | heq, -⟩, -⟩
    · exact absurd hds (hplus [])
    · cases heq
      exact absurd rfl hne
  · rename_i ds hds
    rw [parseDigits_eq_some (Nat.zero_le max)]
    constructor
    · rintro ⟨hdigits, hval, hle⟩
      exact ⟨⟨ds, fun hnil => hds hnil, hdigits, .inr rfl, hval⟩, hle⟩
    · rintro ⟨⟨ds', -, hdigits, rfl | heq, hval⟩, hle⟩
      · exact absurd hdigits (hplus ds)
      · cases heq
        exact ⟨hdigits, hval, hle⟩
  · rename_i hnil hone hsign
    rw [parseDigits_eq_some (Nat.zero_le max)]
    constructor
    · rintro ⟨hdigits, hval, hle⟩
      exact ⟨⟨_, hnil, hdigits, .inl rfl, hval⟩, hle⟩
    · rintro ⟨⟨ds, -, hdigits, rfl | heq, hval⟩, hle⟩
      · exact ⟨hdigits, hval, hle⟩
      · exact absurd heq (hsign ds)

theorem spells_repr (n : Nat) : Spells n.repr.toList n :=
  ⟨n.repr.toList, by simp, fun c hc => by
    rw [Nat.toList_repr] at hc
    exact Nat.isDigit_of_mem_toDigits (by decide) (by decide) hc, .inl rfl, by
    rw [Nat.toList_repr, Nat.ofDigitChars_ten_toDigits]⟩

/-- A decimal has no point. -/
theorem Spells.not_mem {l : List Char} {n : Nat} (h : Spells l n) : '.' ∉ l := fun hmem => by
  obtain ⟨ds, -, hds, rfl | rfl, -⟩ := h
  · exact absurd (hds _ hmem) (by decide)
  · rcases List.mem_cons.mp hmem with hmem | hmem
    · exact absurd hmem (by decide)
    · exact absurd (hds _ hmem) (by decide)

end RelayStar

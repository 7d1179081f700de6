import Mathlib.Algebra.Ring.Nat
import RelayStar.Framework.Machine

/-!
# Numbers from a counter

A machine that takes the numbers it gives out from a counter of 32 bits, which
wraps around (`Numbers`): in a step it advances the counter by at most `k`, and
gives out only numbers that it has passed. Over a run of so few steps that the
counter does not come round, a number is not given out by two different steps, and
all of them are close after the first (`Numbers.run`).
-/

namespace RelayStar

/-- Number `x` after `a`. -/
def after (a : UInt32) (x : Nat) : UInt32 := a + UInt32.ofNat x

theorem after_after (a : UInt32) (x y : Nat) : after (after a x) y = after a (x + y) := by
  rw [after, after, after, UInt32.ofNat_add, UInt32.add_assoc]

theorem toNat_after (a : UInt32) (x : Nat) : (after a x).toNat = (a.toNat + x) % 2 ^ 32 := by
  rw [after, UInt32.toNat_add, UInt32.toNat_ofNat', Nat.add_mod_mod]

theorem after_inj {a : UInt32} {x y : Nat} (hx : x < 2 ^ 32) (hy : y < 2 ^ 32) (h : after a x = after a y) : x = y := by
  have := congrArg UInt32.toNat h
  rw [toNat_after, toNat_after] at this
  have := a.toNat_lt
  omega

variable {σ ι ω : Type}

/-- The counter of a machine, and the numbers in its outputs. -/
structure Numbers (step : σ → ι → ω × σ) (next : σ → UInt32) (numbers : ω → List UInt32) (k : Nat) : Prop where
  step : ∀ s i, ∃ j ≤ k, next (step s i).2 = after (next s) j ∧ ∀ a ∈ numbers (step s i).1, ∃ x < j, a = after (next s) x

/-- No number is given out twice. -/
theorem Numbers.run {step : σ → ι → ω × σ} {next : σ → UInt32} {numbers : ω → List UInt32} {k : Nat}
    (h : Numbers step next numbers k) {l : List ι} (hl : k * l.length ≤ 2 ^ 32) (s : σ) :
    (run step s l).1.Pairwise (fun o o' => ∀ a ∈ numbers o, ∀ b ∈ numbers o', a ≠ b) ∧
      ∀ o ∈ (run step s l).1, ∀ a ∈ numbers o, ∃ x < k * l.length, a = after (next s) x := by
  induction l generalizing s with
  | nil => exact ⟨List.Pairwise.nil, fun o ho => by cases ho⟩
  | cons i l ih =>
    rw [List.length_cons, Nat.mul_add, Nat.mul_one] at hl ⊢
    obtain ⟨j, hj, hnext, hnow⟩ := h.step s i
    obtain ⟨hdistinct, hlater⟩ := ih (by omega) (step s i).2
    have hwindow : ∀ o ∈ (RelayStar.run step (step s i).2 l).1, ∀ a ∈ numbers o,
        ∃ x < k * l.length, a = after (next s) (j + x) := fun o ho a ha => by
      obtain ⟨x, hx, rfl⟩ := hlater o ho a ha
      exact ⟨x, hx, by rw [hnext, after_after]⟩
    rw [run_cons]
    refine ⟨List.pairwise_cons.mpr ⟨fun o ho a ha b hb hab => ?_, hdistinct⟩, fun o ho a ha => ?_⟩
    · obtain ⟨x, hx, rfl⟩ := hnow a ha
      obtain ⟨y, hy, rfl⟩ := hwindow o ho b hb
      have := after_inj (by omega) (by omega) hab
      omega
    · rcases List.mem_cons.mp ho with rfl | ho
      · obtain ⟨x, hx, rfl⟩ := hnow a ha
        exact ⟨x, by omega, rfl⟩
      · obtain ⟨x, hx, rfl⟩ := hwindow o ho a ha
        exact ⟨j + x, by omega, rfl⟩

end RelayStar

import DocStore.Proofs.Binary64.Integers

/-!
Integers that doubles do not tell apart.

Rounding keeps the order of integers, but not strictly beyond `2 ^ 53`. Around a power of ten of up to 63 bits it is
known how far the integers reach that are read as that power itself (`roundRatio_window`).
-/

namespace DocStore.Binary64

theorem roundHalfEven_bounds (num den : Nat) :
    num / den ≤ roundHalfEven num den ∧ roundHalfEven num den ≤ num / den + 1 := by
  unfold roundHalfEven
  dsimp only
  split
  · omega
  · split
    · omega
    · have := Nat.mod_lt (num / den) (by decide : 0 < 2)
      omega

/-- Rounding to the nearest integer keeps the order. -/
theorem roundHalfEven_mono {a b : Nat} (h : a ≤ b) (den : Nat) : roundHalfEven a den ≤ roundHalfEven b den := by
  have hdiv : a / den ≤ b / den := Nat.div_le_div_right h
  have ha := roundHalfEven_bounds a den
  have hb := roundHalfEven_bounds b den
  rcases Nat.lt_or_eq_of_le hdiv with hlt | heq
  · omega
  · have hmod : a % den ≤ b % den := by
      have ha' := Nat.div_add_mod a den
      have hb' := Nat.div_add_mod b den
      rw [heq] at ha'
      omega
    by_cases hup : den < 2 * (b % den)
    · have hb' : roundHalfEven b den = b / den + 1 := by
        simp only [roundHalfEven, if_neg (by omega : ¬2 * (b % den) < den), if_pos hup]
      omega
    by_cases hdown : 2 * (a % den) < den
    · have ha' : roundHalfEven a den = a / den := by simp only [roundHalfEven, if_pos hdown]
      omega
    -- Neither of them is decided by its rest, so that both are the same.
    have hrest : a % den = b % den := by omega
    have hsame : a = b := by rw [← Nat.div_add_mod a den, ← Nat.div_add_mod b den, heq, hrest]
    rw [hsame]

/-- A quotient between two integers is rounded to one between them. -/
theorem le_roundHalfEven {n num den : Nat} (hden : 0 < den) (h : n * den ≤ num) : n ≤ roundHalfEven num den :=
  Nat.le_trans ((Nat.le_div_iff_mul_le hden).2 h) (roundHalfEven_bounds num den).1

theorem roundHalfEven_le {n num den : Nat} (hden : 0 < den) (h : num < n * den) : roundHalfEven num den ≤ n :=
  Nat.le_trans (roundHalfEven_bounds num den).2 ((Nat.div_lt_iff_lt_mul hden).2 h)

section Widths

variable {n k : Nat}

/-- The first 53 bits of an integer are as many as a significand has. -/
theorem significand_bounds (hlow : 2 ^ k ≤ n) (hhigh : n < 2 ^ (k + 1)) :
    fractionCount ≤ roundHalfEven (n * 2 ^ (52 - k)) (2 ^ (k - 52)) ∧
      roundHalfEven (n * 2 ^ (52 - k)) (2 ^ (k - 52)) ≤ 2 * fractionCount := by
  have hden : 0 < 2 ^ (k - 52) := Nat.pow_pos (by decide)
  have hpow : 2 ^ k * 2 ^ (52 - k) = fractionCount * 2 ^ (k - 52) := by
    rw [show fractionCount = 2 ^ 52 by rfl, ← Nat.pow_add, ← Nat.pow_add]
    congr 1
    omega
  have hscale : 0 < 2 ^ (52 - k) := Nat.pow_pos (by decide)
  constructor
  · apply le_roundHalfEven hden
    rw [← hpow]
    exact Nat.mul_le_mul_right _ hlow
  · apply roundHalfEven_le hden
    rw [Nat.mul_assoc, ← hpow, ← Nat.mul_assoc, ← Nat.pow_succ']
    exact Nat.mul_lt_mul_of_pos_right hhigh hscale

end Widths

/-- Reading integers as doubles keeps their order. -/
theorem roundRatio_mono {a b : Nat} (h : a ≤ b) : roundRatio a 1 ≤ roundRatio b 1 := by
  by_cases ha : a = 0
  · subst ha
    exact Nat.zero_le _
  · obtain ⟨hlow, hhigh⟩ := (Nat.log2_eq_iff ha).1 rfl
    obtain ⟨hlow', hhigh'⟩ := (Nat.log2_eq_iff (by omega : b ≠ 0)).1 rfl
    generalize a.log2 = k at hlow hhigh
    generalize b.log2 = l at hlow' hhigh'
    rw [roundRatio_one hlow hhigh, roundRatio_one hlow' hhigh']
    have hle : (k + 1022) * fractionCount + roundHalfEven (a * 2 ^ (52 - k)) (2 ^ (k - 52)) ≤
        (l + 1022) * fractionCount + roundHalfEven (b * 2 ^ (52 - l)) (2 ^ (l - 52)) := by
      rcases Nat.lt_trichotomy k l with hlt | rfl | hgt
      · -- The larger number has a longer exponent, and significands differ by a factor of two at most.
        calc (k + 1022) * fractionCount + roundHalfEven (a * 2 ^ (52 - k)) (2 ^ (k - 52))
            ≤ (k + 1022) * fractionCount + 2 * fractionCount :=
              Nat.add_le_add_left (significand_bounds hlow hhigh).2 _
          _ = (k + 1 + 1022) * fractionCount + fractionCount := by
              rw [← Nat.add_mul, ← Nat.succ_mul]
          _ ≤ (l + 1022) * fractionCount + roundHalfEven (b * 2 ^ (52 - l)) (2 ^ (l - 52)) :=
              Nat.add_le_add (Nat.mul_le_mul_right _ (by omega)) (significand_bounds hlow' hhigh').1
      · exact Nat.add_le_add_left (roundHalfEven_mono (Nat.mul_le_mul_right _ h) _) _
      · have hpow : 2 ^ (l + 1) ≤ 2 ^ k := Nat.pow_le_pow_right (by decide) hgt
        omega
    omega

/-- The integers around a power of ten that are read as the power itself. -/
structure Window where
  power : Nat
  reach : Nat
deriving DecidableEq

/-- The windows of the powers of ten between `2 ^ 53` and `2 ^ 63`. -/
def windows : List Window :=
  [⟨10 ^ 16, 1⟩, ⟨10 ^ 17, 8⟩, ⟨10 ^ 18, 64⟩]

/-- Within a window all integers are read as one double, and beyond it on either side as others. -/
theorem roundRatio_window : ∀ window ∈ windows,
    roundRatio (window.power - window.reach - 1) 1 < roundRatio window.power 1 ∧
      roundRatio (window.power - window.reach) 1 = roundRatio window.power 1 ∧
      roundRatio (window.power + window.reach) 1 = roundRatio window.power 1 ∧
      roundRatio window.power 1 < roundRatio (window.power + window.reach + 1) 1 := by
  decide

section Windows

variable {window : Window} {a b : Nat} (hwindow : window ∈ windows) (ha : a < window.power) (hb : window.power ≤ b)

include hwindow ha hb

/-- Numbers on either side of a power of ten are different doubles if one of them is not in its window. -/
theorem roundRatio_lt_of_outside (h : a < window.power - window.reach ∨ window.power + window.reach < b) :
    roundRatio a 1 < roundRatio b 1 := by
  obtain ⟨hbelow, -, -, habove⟩ := roundRatio_window window hwindow
  rcases h with h | h
  · calc roundRatio a 1 ≤ roundRatio (window.power - window.reach - 1) 1 := roundRatio_mono (by omega)
      _ < roundRatio window.power 1 := hbelow
      _ ≤ roundRatio b 1 := roundRatio_mono hb
  · calc roundRatio a 1 ≤ roundRatio window.power 1 := roundRatio_mono (by omega)
      _ < roundRatio (window.power + window.reach + 1) 1 := habove
      _ ≤ roundRatio b 1 := roundRatio_mono h

/-- In the window of a power of ten they are the same. -/
theorem roundRatio_eq_of_inside (hlow : window.power - window.reach ≤ a) (hhigh : b ≤ window.power + window.reach) :
    roundRatio a 1 = roundRatio b 1 := by
  obtain ⟨-, hbelow, habove, -⟩ := roundRatio_window window hwindow
  apply Nat.le_antisymm
  · exact roundRatio_mono (by omega)
  · calc roundRatio b 1 ≤ roundRatio (window.power + window.reach) 1 := roundRatio_mono hhigh
      _ = roundRatio (window.power - window.reach) 1 := habove.trans hbelow.symm
      _ ≤ roundRatio a 1 := roundRatio_mono hlow

end Windows

end DocStore.Binary64

import DocStore.Binary64.Reader
import DocStore.Proofs.Text.Decimal
import Mathlib.Data.List.TakeWhile

/-!
Base-ten texts of integers, read as doubles.
-/

namespace DocStore.Binary64

open Decimal

theorem isDigit_of_mem_chars {n : Nat} {c : Char} (h : c ∈ chars n) : isDigit c = true := by
  obtain ⟨d, hd, rfl⟩ := List.mem_map.1 h
  rw [isDigit, digit?_digitChar (digits_lt_ten n d hd)]
  rfl

/-- The text of a natural number reads as the double nearest to it. -/
theorem unsigned?_chars (n : Nat) : unsigned? (chars n) = some (ofDigits (digits n) 0) := by
  have hall : ∀ c ∈ chars n, isDigit c = true := fun c hc => isDigit_of_mem_chars hc
  have htake : (chars n).takeWhile isDigit = chars n :=
    List.takeWhile_eq_self_iff.2 hall
  have hdrop : (chars n).dropWhile isDigit = [] :=
    List.dropWhile_eq_nil_iff.2 hall
  have hread : (chars n).mapM digit? = some (digits n) := mapM_digit?_map _ (digits_lt_ten n)
  have hne := digits_ne_nil n
  simp [unsigned?, htake, hdrop, hread, hne, exponentPart?]

theorem magnitude?_chars (n : Nat) : magnitude? (chars n) = some (ofDigits (digits n) 0) := by
  have hword : ∀ word : String, word.toList.head? = some 'i' ∨ word.toList.head? = some 'n' →
      String.ofList ((chars n).map Char.toLower) ≠ word := by
    rintro word hhead rfl
    rw [String.toList_ofList, List.head?_map] at hhead
    cases hchars : chars n with
    | nil => simp [hchars] at hhead
    | cons c rest =>
      obtain ⟨d, hd, hc⟩ := List.mem_map.1 (hchars ▸ List.mem_cons_self : c ∈ chars n)
      have hlt := digits_lt_ten n d hd
      rw [hchars] at hhead
      simp only [List.head?_cons, Option.map_some, Option.some.injEq, ← hc] at hhead
      match d, hlt with
      | 0, _ | 1, _ | 2, _ | 3, _ | 4, _ | 5, _ | 6, _ | 7, _ | 8, _ | 9, _ =>
        revert hhead
        decide
  unfold magnitude?
  rw [if_neg, if_neg, unsigned?_chars]
  · exact hword "nan" (.inr rfl)
  · rintro (h | h)
    · exact hword "inf" (.inl rfl) h
    · exact hword "infinity" (.inl rfl) h

theorem ofText?_ofNat (n : Nat) : ofText? (Decimal.ofNat n) = some (ofDigits (digits n) 0) := by
  have hsign : ∀ c rest, (c = '-' ∨ c = '+') → chars n ≠ c :: rest := by
    intro c rest hc heq
    obtain ⟨d, hd, hdc⟩ := List.mem_map.1 (heq ▸ List.mem_cons_self : c ∈ chars n)
    have hne := digitChar_ne_sign (digits_lt_ten n d hd)
    rcases hc with rfl | rfl
    · exact hne.1 hdc
    · exact hne.2 hdc
  unfold ofText?
  rw [Decimal.ofNat, String.toList_ofList]
  split
  · rename_i rest heq
    exact absurd heq (hsign _ rest (.inl rfl))
  · rename_i rest heq
    exact absurd heq (hsign _ rest (.inr rfl))
  · exact magnitude?_chars n

/-- Every integer's text reads as a double. -/
theorem ofText?_ofInt (i : Int) : ∃ x, ofText? (ofInt i) = some x := by
  cases i with
  | ofNat n => exact ⟨_, ofText?_ofNat n⟩
  | negSucc n =>
    refine ⟨(ofDigits (digits (n + 1)) 0).neg, ?_⟩
    simp only [ofText?, ofInt, String.toList_ofList, magnitude?_chars, Option.map_some]

/-- A positive number of up to 20 digits reads as the double nearest to it. -/
theorem ofDigits_digits {n : Nat} (hpos : 0 < n) (hlt : n < 10 ^ 20) :
    ofDigits (digits n) 0 = ⟨false, roundRatio n 1⟩ := by
  obtain ⟨d, rest, hdigits, hd⟩ := digits_of_pos hpos
  have hlength : (digits n).length ≤ 20 := length_digits_le (k := 19) hlt
  have hdrop : (digits n).dropWhile (· = 0) = digits n := by
    rw [hdigits]
    exact List.dropWhile_cons_of_neg (by simpa using hd)
  have hne : (digits n).isEmpty = false := by rw [hdigits]; rfl
  unfold ofDigits
  dsimp only
  rw [hdrop, hne, if_neg (by simp), if_neg (by omega), if_neg (by omega), Decimal.ofDigits_digits]
  simp [ofDecimal, scaled]

theorem floorLog2_one {n k : Nat} (hlow : 2 ^ k ≤ n) (hhigh : n < 2 ^ (k + 1)) : floorLog2 n 1 = k := by
  have hne : n ≠ 0 := by
    rintro rfl
    exact absurd hlow (by simp)
  have hlog : Nat.log2 n = k := (Nat.log2_eq_iff hne).2 ⟨hlow, hhigh⟩
  have hone : Nat.log2 1 = 0 := by decide
  have hscaled : (scaled 2 n 1 (-(k : Int))).2 ≤ (scaled 2 n 1 (-(k : Int))).1 := by
    unfold scaled
    split
    · simpa using hlow
    · have hzero : k = 0 := by omega
      subst hzero
      simpa using hlow
  simp only [floorLog2, hlog, hone]
  rw [Int.ofNat_zero, Int.sub_zero, if_pos hscaled]

/-- The magnitude of an integer: its first 53 bits, rounded by those after them. -/
theorem roundRatio_one {n k : Nat} (hlow : 2 ^ k ≤ n) (hhigh : n < 2 ^ (k + 1)) :
    roundRatio n 1 =
      min ((k + 1022) * fractionCount + roundHalfEven (n * 2 ^ (52 - k)) (2 ^ (k - 52))) infinityMagnitude := by
  have hne : n ≠ 0 := by
    rintro rfl
    exact absurd hlow (by simp)
  have hscaled : scaled 2 n 1 (-((k : Int) - 52)) = (n * 2 ^ (52 - k), 2 ^ (k - 52)) := by
    unfold scaled
    split
    · rw [show (-(-((k : Int) - 52))).toNat = k - 52 by omega, show 52 - k = 0 by omega]
      simp
    · rw [show (-((k : Int) - 52)).toNat = 52 - k by omega, show k - 52 = 0 by omega]
      rfl
  have hmax : max ((k : Int) - 52) (-1074) = (k : Int) - 52 := by omega
  unfold roundRatio
  rw [if_neg hne]
  simp only [floorLog2_one hlow hhigh, hmax, hscaled]
  rw [show ((k : Int) - 52 + 1074).toNat = k + 1022 by omega]

/-- The magnitude of an integer of up to 53 bits: it needs no rounding. -/
theorem roundRatio_exact {n k : Nat} (hk : k ≤ 52) (hlow : 2 ^ k ≤ n) (hhigh : n < 2 ^ (k + 1)) :
    roundRatio n 1 = (k + 1022) * fractionCount + n * 2 ^ (52 - k) := by
  have hround : ∀ m, roundHalfEven m 1 = m := by
    intro m
    simp [roundHalfEven, Nat.mod_one]
  have hbelow : n * 2 ^ (52 - k) < 2 * fractionCount := by
    have hpow : 2 ^ (k + 1) * 2 ^ (52 - k) = 2 * fractionCount := by
      rw [← Nat.pow_add, show k + 1 + (52 - k) = 53 by omega]
      rfl
    rw [← hpow]
    exact Nat.mul_lt_mul_of_pos_right hhigh (Nat.pow_pos (by decide))
  rw [roundRatio_one hlow hhigh, show k - 52 = 0 by omega, Nat.pow_zero, hround]
  refine Nat.min_eq_left ?_
  calc (k + 1022) * fractionCount + n * 2 ^ (52 - k)
      ≤ 1074 * fractionCount + 2 * fractionCount :=
        Nat.add_le_add (Nat.mul_le_mul_right _ (by omega)) (Nat.le_of_lt hbelow)
    _ ≤ infinityMagnitude := by decide

/-- Integers of up to 53 bits are different doubles, in the same order. -/
theorem roundRatio_lt {a b : Nat} (hpos : 0 < a) (hlt : a < b) (hb : b ≤ 2 ^ 53) :
    roundRatio a 1 < roundRatio b 1 := by
  have hexact : ∀ n, 0 < n → n < 2 ^ 53 → ∃ k ≤ 52, 2 ^ k ≤ n ∧ n < 2 ^ (k + 1) ∧
      roundRatio n 1 = (k + 1022) * fractionCount + n * 2 ^ (52 - k) := by
    intro n hn hlt
    have hlog := (Nat.log2_eq_iff (k := Nat.log2 n) (by omega : n ≠ 0)).1 rfl
    have hk : Nat.log2 n ≤ 52 := by
      by_contra hk
      have hpow : 2 ^ 53 ≤ 2 ^ Nat.log2 n := Nat.pow_le_pow_right (by decide) (by omega)
      omega
    exact ⟨_, hk, hlog.1, hlog.2, roundRatio_exact hk hlog.1 hlog.2⟩
  have hlow : ∀ k n : Nat, k ≤ 52 → 2 ^ k ≤ n → fractionCount ≤ n * 2 ^ (52 - k) := by
    intro k n hk hn
    calc fractionCount = 2 ^ k * 2 ^ (52 - k) := by
          rw [← Nat.pow_add, show k + (52 - k) = 52 by omega]
          rfl
      _ ≤ n * 2 ^ (52 - k) := Nat.mul_le_mul_right _ hn
  have hhigh : ∀ k n : Nat, k ≤ 52 → n < 2 ^ (k + 1) → n * 2 ^ (52 - k) < 2 * fractionCount := by
    intro k n hk hn
    calc n * 2 ^ (52 - k) < 2 ^ (k + 1) * 2 ^ (52 - k) :=
          Nat.mul_lt_mul_of_pos_right hn (Nat.pow_pos (by decide))
      _ = 2 * fractionCount := by
          rw [← Nat.pow_add, show k + 1 + (52 - k) = 53 by omega]
          rfl
  obtain ⟨k, hk, hka, hka', ha⟩ := hexact a hpos (by omega)
  have hbound : roundRatio a 1 < (k + 1024) * fractionCount := by
    rw [ha, show k + 1024 = k + 1022 + 2 by omega, Nat.add_mul (k + 1022) 2]
    exact Nat.add_lt_add_left (hhigh k a hk hka') _
  by_cases hlast : b = 2 ^ 53
  · have hvalue : roundRatio (2 ^ 53) 1 = 1076 * fractionCount := by decide
    rw [hlast, hvalue]
    exact Nat.lt_of_lt_of_le hbound (Nat.mul_le_mul_right _ (by omega))
  · obtain ⟨l, hl, hlb, hlb', hb'⟩ := hexact b (by omega) (by omega)
    rcases Nat.lt_trichotomy k l with hkl | rfl | hlk
    · calc roundRatio a 1 < (k + 1024) * fractionCount := hbound
        _ ≤ (l + 1023) * fractionCount := Nat.mul_le_mul_right _ (by omega)
        _ = (l + 1022) * fractionCount + fractionCount := by
            rw [show l + 1023 = l + 1022 + 1 by omega, Nat.add_mul (l + 1022) 1, Nat.one_mul]
        _ ≤ roundRatio b 1 := by
            rw [hb']
            exact Nat.add_le_add_left (hlow l b hl hlb) _
    · rw [ha, hb']
      exact Nat.add_lt_add_left (Nat.mul_lt_mul_of_pos_right hlt (Nat.pow_pos (by decide))) _
    · have hpow : 2 ^ (l + 1) ≤ 2 ^ k := Nat.pow_le_pow_right (by decide) hlk
      omega

end DocStore.Binary64

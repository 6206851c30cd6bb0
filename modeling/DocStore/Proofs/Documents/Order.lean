import DocStore.Proofs.Binary64.Rounding
import DocStore.Proofs.Documents.Listing
import DocStore.Proofs.Text.Order
import Mathlib.Data.List.Pairwise

/-!
Where ids of 64 bits are listed in ascending order, and where they are not.

Ids with as many digits are listed by size: if their doubles do not tell them apart, their texts do. With a power of
ten between them the texts say the opposite. Up to `10 ^ 15` the doubles are exact; beyond that a few ids on either
side of a power of ten are read as the power itself (`Crossing`), and these are listed the wrong way round
(`sooner_ofInt_iff`).
-/

namespace DocStore

open Decimal Binary64

/-- There is a power of ten between the ids that is the double of both. -/
def Crossing (a b : Int) : Prop :=
  ∃ window ∈ windows, (window.power - window.reach : Int) ≤ a ∧ a < window.power ∧ (window.power : Int) ≤ b ∧
    b ≤ window.power + window.reach

instance (a b : Int) : Decidable (Crossing a b) :=
  inferInstanceAs (Decidable (∃ window ∈ windows, _))

/-- The id is listed before the other: it is smaller, or else there is a power of ten between them that is the double
of both. -/
def ListedBefore (a b : Int) : Prop :=
  a < b ∧ ¬Crossing a b ∨ Crossing b a

instance (a b : Int) : Decidable (ListedBefore a b) :=
  inferInstanceAs (Decidable (_ ∨ _))

theorem Crossing.lt {a b : Int} (h : Crossing a b) : a < b := by
  obtain ⟨window, -, -, ha, hb, -⟩ := h
  omega

theorem ListedBefore.asymm {a b : Int} (h : ListedBefore a b) : ¬ListedBefore b a := by
  rcases h with ⟨hlt, hnot⟩ | hcrossing
  · rintro (⟨hgt, -⟩ | hcrossing)
    · exact Int.lt_asymm hlt hgt
    · exact hnot hcrossing
  · rintro (⟨-, hnot⟩ | hback)
    · exact hnot hcrossing
    · exact Int.lt_asymm hcrossing.lt hback.lt

section Positive

variable {a b : Nat}

/-- Below a power of ten that is exact all doubles are smaller than beyond it. -/
theorem roundRatio_lt_of_exact {k : Nat} (hk : k ≤ 15) (hpos : 0 < a) (ha : a < 10 ^ k) (hb : 10 ^ k ≤ b) :
    roundRatio a 1 < roundRatio b 1 := by
  have hexact : 10 ^ k ≤ 2 ^ 53 :=
    Nat.le_trans (Nat.pow_le_pow_right (by decide) hk) (by decide : 10 ^ 15 ≤ 2 ^ 53)
  calc roundRatio a 1 ≤ roundRatio (10 ^ k - 1) 1 := roundRatio_mono (by omega)
    _ < roundRatio (10 ^ k) 1 := roundRatio_lt (by omega) (by omega) hexact
    _ ≤ roundRatio b 1 := roundRatio_mono hb

/-- The windows are those of all powers of ten that an id of 64 bits can exceed and that are not exact. -/
theorem exists_window {k : Nat} (hk : 15 < k) (hb : 10 ^ k ≤ b) (hbits : b < 2 ^ 63) :
    ∃ window ∈ windows, window.power = 10 ^ k := by
  have hlt : k < 19 := by
    by_contra hge
    have hpow : 10 ^ 19 ≤ 10 ^ k := Nat.pow_le_pow_right (by decide) (by omega)
    omega
  obtain rfl | rfl | rfl : k = 16 ∨ k = 17 ∨ k = 18 := by omega
  · exact ⟨⟨10 ^ 16, 1⟩, by decide, rfl⟩
  · exact ⟨⟨10 ^ 17, 8⟩, by decide, rfl⟩
  · exact ⟨⟨10 ^ 18, 64⟩, by decide, rfl⟩

theorem power_of_window {window : Window} (h : window ∈ windows) :
    ∃ k, window.power = 10 ^ (k + 1) ∧ window.reach ≤ 10 ^ k := by
  simp only [windows, List.mem_cons, List.not_mem_nil, or_false] at h
  rcases h with rfl | rfl | rfl
  · exact ⟨15, rfl, by decide⟩
  · exact ⟨16, rfl, by decide⟩
  · exact ⟨17, rfl, by decide⟩

/-- Just below a power of ten numbers begin with a nine, and just beyond it with a one. -/
theorem ofNat_lt_of_inside {window : Window} (hwindow : window ∈ windows) (hlow : window.power - window.reach ≤ a)
    (ha : a < window.power) (hb : window.power ≤ b) (hhigh : b ≤ window.power + window.reach) :
    Decimal.ofNat b < Decimal.ofNat a := by
  obtain ⟨k, hpower, hreach⟩ := power_of_window hwindow
  rw [Nat.pow_succ] at hpower
  obtain ⟨rest, hrest⟩ := @digits_of_leading 9 k a (by decide) (by decide) (by omega) (by omega)
  obtain ⟨more, hmore⟩ := @digits_of_leading 1 (k + 1) b (by decide) (by decide) (by omega) (by omega)
  exact ofNat_lt_of_leading hmore hrest (by decide) (by decide)

end Positive

section Ids

variable {a b : Int}

/-- On either side of a power of ten that is the double of both, the larger id comes first. -/
theorem sooner_of_crossing (hpos : 0 < a) (hb : InInt64 b) (h : Crossing a b) : Sooner (ofInt b) (ofInt a) := by
  obtain ⟨window, hwindow, hlow, ha, hle, hhigh⟩ := h
  have hbits := hb.2
  obtain ⟨n, rfl⟩ := Int.eq_ofNat_of_zero_le (Int.le_of_lt hpos)
  obtain ⟨m, rfl⟩ := Int.eq_ofNat_of_zero_le (by omega : 0 ≤ b)
  refine .inr ⟨?_, ?_⟩
  · rw [rankOf_ofInt (by omega) (by omega), rankOf_ofInt (by omega) (by omega)]
    simp only [Int.toNat_natCast]
    rw [roundRatio_eq_of_inside hwindow (a := n) (b := m) (by omega) (by omega) (by omega) (by omega)]
  · exact ofNat_lt_of_inside hwindow (by omega) (by omega) (by omega) (by omega)

/-- Otherwise the smaller id does. -/
theorem sooner_of_lt (hpos : 0 < a) (hb : InInt64 b) (hlt : a < b) (h : ¬Crossing a b) :
    Sooner (ofInt a) (ofInt b) := by
  have hbits := hb.2
  obtain ⟨n, rfl⟩ := Int.eq_ofNat_of_zero_le (Int.le_of_lt hpos)
  obtain ⟨m, rfl⟩ := Int.eq_ofNat_of_zero_le (by omega : 0 ≤ b)
  have hnm : n < m := by omega
  have hrank : roundRatio n 1 < roundRatio m 1 → Sooner (ofInt n) (ofInt m) := by
    intro hround
    refine .inl ?_
    rw [rankOf_ofInt (by omega) (by omega), rankOf_ofInt (by omega) (by omega)]
    exact Int.ofNat_lt.2 hround
  rcases length_digits_eq_or hnm with hlength | ⟨k, hn, hm⟩
  · rcases Nat.lt_or_eq_of_le (roundRatio_mono (Nat.le_of_lt hnm)) with hround | hsame
    · exact hrank hround
    · refine .inr ⟨?_, ofNat_lt_of_length hnm hlength⟩
      rw [rankOf_ofInt (by omega) (by omega), rankOf_ofInt (by omega) (by omega)]
      exact congrArg Int.ofNat hsame
  · apply hrank
    by_cases hk : k ≤ 15
    · exact roundRatio_lt_of_exact hk (by omega) hn hm
    · obtain ⟨window, hwindow, hpower⟩ := exists_window (by omega) hm (by omega)
      rw [← hpower] at hn hm
      refine roundRatio_lt_of_outside hwindow hn hm ?_
      by_contra hinside
      exact h ⟨window, hwindow, by omega, by omega, by omega, by omega⟩

/-- Scripts list positive ids of 64 bits by size, except across a power of ten that is the double of both. -/
theorem sooner_ofInt_iff (ha : 0 < a) (hb : 0 < b) (ha' : InInt64 a) (hb' : InInt64 b) :
    Sooner (ofInt a) (ofInt b) ↔ ListedBefore a b := by
  have hforward : ∀ {a b : Int}, 0 < a → 0 < b → InInt64 a → InInt64 b → ListedBefore a b →
      Sooner (ofInt a) (ofInt b) := by
    rintro a b ha hb ha' hb' (⟨hlt, hcrossing⟩ | hcrossing)
    · exact sooner_of_lt ha hb' hlt hcrossing
    · exact sooner_of_crossing hb ha' hcrossing
  refine ⟨fun hsooner => ?_, hforward ha hb ha' hb'⟩
  by_contra hnot
  have hback : ListedBefore b a ∨ a = b := by
    rcases Int.lt_trichotomy a b with hlt | heq | hlt
    · have hcrossing : Crossing a b := by
        by_contra hcrossing
        exact hnot (.inl ⟨hlt, hcrossing⟩)
      exact .inl (.inr hcrossing)
    · exact .inr heq
    · have hcrossing : ¬Crossing b a := fun hcrossing => hnot (.inr hcrossing)
      exact .inl (.inl ⟨hlt, hcrossing⟩)
  rcases hback with hback | rfl
  · exact hsooner.asymm (hforward hb ha hb' ha' hback)
  · exact hsooner.asymm hsooner

end Ids

/-- Listed ids are in ascending order exactly if no two of them lie across a power of ten that is the double of
both. -/
theorem pairwise_lt_iff {ids : List Int} (h : ids.Pairwise ListedBefore) :
    ids.Pairwise (· < ·) ↔ ∀ a ∈ ids, ∀ b ∈ ids, ¬Crossing a b := by
  constructor
  · intro hascending a ha b hb hcrossing
    -- In an ascending list the smaller of two ids stands before the other.
    let Kept (x y : Int) : Prop := (x < y → ListedBefore x y) ∧ (y < x → ListedBefore y x)
    have hkept : ids.Pairwise Kept := (List.pairwise_and_iff.2 ⟨hascending, h⟩).imp fun hboth =>
      ⟨fun _ => hboth.2, fun hgt => absurd hgt (Int.not_lt.2 (Int.le_of_lt hboth.1))⟩
    have hsymm : Std.Symm Kept := ⟨fun _ _ hxy => ⟨hxy.2, hxy.1⟩⟩
    have hall := hkept.forall ha hb (Int.ne_of_lt hcrossing.lt)
    rcases hall.1 hcrossing.lt with ⟨-, hnot⟩ | hback
    · exact hnot hcrossing
    · exact Int.lt_asymm hback.lt hcrossing.lt
  · intro hnone
    refine h.imp_of_mem fun {a b} ha hb hbefore => ?_
    rcases hbefore with ⟨hlt, -⟩ | hcrossing
    · exact hlt
    · exact absurd hcrossing (hnone b hb a ha)

/-- Two neighbours that are listed the wrong way round. -/
example : ListedBefore 10000000000000000 9999999999999999 :=
  .inr (by decide)

end DocStore

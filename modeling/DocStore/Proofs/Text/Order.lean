import DocStore.Proofs.Text.Decimal
import Mathlib.Data.String.Basic

/-!
Base-ten texts in the order of their characters.

Numbers with as many digits are ordered as their texts are. If there is a power of ten between two numbers, their
first digits decide, whatever comes after them.
-/

namespace DocStore.Decimal

theorem digitChar_lt {d e : Nat} (h : d < e) (he : e < 10) : digitChar d < digitChar e := by
  match e, he with
  | 0, _ => omega
  | 1, _ | 2, _ | 3, _ | 4, _ | 5, _ | 6, _ | 7, _ | 8, _ | 9, _ =>
    revert h
    revert d
    decide

theorem lt_pow_length_digits (n : Nat) : n < 10 ^ (digits n).length := by
  fun_induction digits n with
  | case1 n h => simpa using h
  | case2 n h ih =>
    rw [List.length_append, List.length_singleton, Nat.pow_succ]
    omega

/-- Two numbers have as many digits, or there is a power of ten between them. -/
theorem length_digits_eq_or {a b : Nat} (h : a < b) :
    (digits a).length = (digits b).length ∨ ∃ k, a < 10 ^ k ∧ 10 ^ k ≤ b := by
  have hle : ∀ {n m : Nat}, n < 10 ^ (digits m).length → (digits n).length ≤ (digits m).length := by
    intro n m hlt
    obtain ⟨k, hk⟩ : ∃ k, (digits m).length = k + 1 :=
      Nat.exists_eq_succ_of_ne_zero fun hzero => digits_ne_nil m (List.length_eq_zero_iff.1 hzero)
    rw [hk] at hlt ⊢
    exact length_digits_le hlt
  by_cases hpow : 10 ^ (digits a).length ≤ b
  · exact .inr ⟨_, lt_pow_length_digits a, hpow⟩
  · refine .inl (Nat.le_antisymm (hle ?_) (hle (Nat.lt_of_not_le hpow)))
    exact Nat.lt_trans h (lt_pow_length_digits b)

theorem digits_of_lt {n : Nat} (h : n < 10) : digits n = [n] := by
  unfold digits
  rw [if_pos h]

theorem digits_of_le {n : Nat} (h : 10 ≤ n) : digits n = digits (n / 10) ++ [n % 10] := by
  conv_lhs => unfold digits
  rw [if_neg (by omega)]

theorem length_digits_of_le {n : Nat} (h : 10 ≤ n) : (digits n).length = (digits (n / 10)).length + 1 := by
  rw [digits_of_le h, List.length_append, List.length_singleton]

/-- Texts of one length are ordered by their beginnings if these differ. -/
theorem append_lt_append {front other : List Char} (h : front < other) (hlength : front.length = other.length)
    (back last : List Char) : front ++ back < other ++ last := by
  induction front generalizing other with
  | nil =>
    rw [List.length_eq_zero_iff.1 hlength.symm] at h
    exact absurd h (List.lt_irrefl _)
  | cons c rest ih =>
    cases other with
    | nil => cases hlength
    | cons d more =>
      rw [List.cons_append, List.cons_append, List.cons_lt_cons_iff]
      refine (List.cons_lt_cons_iff.1 h).imp_right ?_
      rintro ⟨hfirst, hrest⟩
      exact ⟨hfirst, ih hrest (Nat.succ.inj hlength)⟩

/-- Below ten there is a single digit. -/
theorem length_digits_eq_one_iff {n : Nat} : (digits n).length = 1 ↔ n < 10 := by
  refine ⟨fun hlength => ?_, fun h => by rw [digits_of_lt h, List.length_singleton]⟩
  by_contra hn
  have hmore := List.length_pos_iff.2 (digits_ne_nil (n / 10))
  rw [length_digits_of_le (by omega)] at hlength
  omega

theorem chars_of_le {n : Nat} (h : 10 ≤ n) : chars n = chars (n / 10) ++ [digitChar (n % 10)] := by
  rw [chars, digits_of_le h, List.map_append]
  rfl

/-- Of two numbers with as many digits the smaller one has the smaller text. -/
theorem chars_lt_chars {a b : Nat} (h : a < b) (hlength : (digits a).length = (digits b).length) :
    chars a < chars b := by
  fun_induction digits a generalizing b with
  | case1 a ha =>
    have hb : b < 10 := length_digits_eq_one_iff.1 hlength.symm
    rw [chars, chars, digits_of_lt ha, digits_of_lt hb]
    exact List.cons_lt_cons_iff.2 (.inl (digitChar_lt h hb))
  | case2 a ha ih =>
    have hb : 10 ≤ b := by omega
    rw [List.length_append, List.length_singleton, length_digits_of_le hb] at hlength
    rw [chars_of_le (by omega), chars_of_le hb]
    by_cases hdiv : a / 10 < b / 10
    · refine append_lt_append (ih hdiv (Nat.succ.inj hlength)) ?_ _ _
      simpa only [chars, List.length_map] using Nat.succ.inj hlength
    · -- The numbers differ in the last digit only.
      have hsame : a / 10 = b / 10 := by omega
      rw [hsame]
      exact List.append_left_lt (List.cons_lt_cons_iff.2 (.inl (digitChar_lt (by omega) (by omega))))

/-- A number between neighbouring multiples of a power of ten begins with the digit that counts them. -/
theorem digits_of_leading {d k n : Nat} (hd : 0 < d) (hten : d < 10) (hlow : d * 10 ^ k ≤ n)
    (hhigh : n < (d + 1) * 10 ^ k) : ∃ rest, digits n = d :: rest := by
  induction k generalizing n with
  | zero =>
    have hn : n = d := by omega
    exact ⟨[], by rw [hn, digits_of_lt hten]⟩
  | succ k ih =>
    rw [Nat.pow_succ, ← Nat.mul_assoc] at hlow hhigh
    have hpow : 0 < 10 ^ k := Nat.pow_pos (by decide)
    have hle : d * 1 ≤ d * 10 ^ k := Nat.mul_le_mul_left d hpow
    obtain ⟨rest, hrest⟩ := @ih (n / 10) (by omega) (by omega)
    exact ⟨rest ++ [n % 10], by rw [digits_of_le (by omega), hrest, List.cons_append]⟩

theorem ofNat_lt_of_length {a b : Nat} (h : a < b) (hlength : (digits a).length = (digits b).length) :
    ofNat a < ofNat b := by
  rw [String.lt_iff_toList_lt, ofNat, ofNat, String.toList_ofList, String.toList_ofList]
  exact chars_lt_chars h hlength

/-- Texts that begin with different digits are ordered as these are. -/
theorem ofNat_lt_of_leading {d e a b : Nat} {rest more : List Nat} (ha : digits a = d :: rest)
    (hb : digits b = e :: more) (h : d < e) (he : e < 10) : ofNat a < ofNat b := by
  rw [String.lt_iff_toList_lt, ofNat, ofNat, String.toList_ofList, String.toList_ofList, chars, chars, ha, hb]
  exact List.cons_lt_cons_iff.2 (.inl (digitChar_lt h he))

end DocStore.Decimal

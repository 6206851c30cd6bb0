import DocStore.Text.Decimal
import Mathlib.Algebra.Group.Nat.Defs
import Mathlib.Data.List.Induction

/-!
What base-ten texts are made of, and that they can be read back, also with zeros in front (`padded`) or
behind (`nat?_padded_append`).
-/

namespace DocStore.Decimal

/-- The text of an integer is made of digits, with a minus sign at most. -/
theorem mem_ofInt {i : Int} {c : Char} (h : c ∈ (ofInt i).toList) :
    c = '-' ∨ ∃ d < 10, c = digitChar d := by
  have hchars : ∀ n, c ∈ chars n → ∃ d < 10, c = digitChar d := by
    intro n hn
    obtain ⟨d, hd, rfl⟩ := List.mem_map.1 hn
    exact ⟨d, digits_lt_ten n d hd, rfl⟩
  cases i with
  | ofNat n =>
    simp only [ofInt, ofNat, String.toList_ofList] at h
    exact .inr (hchars n h)
  | negSucc n =>
    simp only [ofInt, String.toList_ofList, List.mem_cons] at h
    exact h.imp_right (hchars (n + 1))

theorem notMem_ofInt {c : Char} (hsign : c ≠ '-') (hdigit : ∀ d < 10, c ≠ digitChar d) (i : Int) :
    c ∉ (ofInt i).toList := by
  intro hmem
  rcases mem_ofInt hmem with hc | ⟨d, hd, hc⟩
  · exact hsign hc
  · exact hdigit d hd hc

theorem ofInt_injective {a b : Int} (h : ofInt a = ofInt b) : a = b := by
  have hread := int?_ofInt a
  rw [h, int?_ofInt] at hread
  exact (Option.some.inj hread).symm

theorem ofInt_natCast (n : Nat) : ofInt n = ofNat n := rfl

theorem ofNat_injective {a b : Nat} (h : ofNat a = ofNat b) : a = b :=
  Int.ofNat_inj.1 (ofInt_injective h)

theorem int?_of_int64? {text : String} {i : Int} (h : int64? text = some i) : int? text = some i := by
  unfold int64? at h
  obtain ⟨found, hread, hfound⟩ := Option.bind_eq_some_iff.1 h
  split at hfound
  · cases hfound
    exact hread
  · cases hfound

theorem inInt64_of_int64? {text : String} {i : Int} (h : int64? text = some i) : InInt64 i := by
  unfold int64? at h
  obtain ⟨found, -, hfound⟩ := Option.bind_eq_some_iff.1 h
  split at hfound
  · rename_i hrange
    cases hfound
    exact hrange
  · cases hfound

theorem int64?_ofInt {i : Int} (h : InInt64 i) : int64? (ofInt i) = some i := by
  simp [int64?, int?_ofInt, h]

theorem inInt64_toInt (i : Int64) : InInt64 i.toInt :=
  ⟨i.le_toInt, Int.le_of_lt_add_one i.toInt_lt⟩

theorem wrapped_of_inInt64 {i : Int} (h : InInt64 i) : wrapped i = i :=
  Int64.toInt_ofInt_of_le h.1 (Int.lt_add_one_of_le h.2)

theorem inInt64_wrapped (i : Int) : InInt64 (wrapped i) :=
  inInt64_toInt (Int64.ofInt i)

/-- What is added before or after cutting off comes to the same. -/
theorem wrapped_wrapped_add (i j : Int) : wrapped (wrapped i + j) = wrapped (i + j) := by
  simp only [wrapped, Int64.ofInt_add, Int64.ofInt_toInt]

theorem word64?_ofNat {n : Nat} (h : n ≤ maxWord64) : word64? (ofNat n) = some n := by
  have hplus : ∀ rest, chars n ≠ '+' :: rest := by
    intro rest heq
    have hmem : '+' ∈ chars n := heq ▸ List.mem_cons_self
    obtain ⟨d, hd, hc⟩ := List.mem_map.1 hmem
    exact (digitChar_ne_sign (digits_lt_ten n d hd)).2 hc
  unfold word64?
  rw [ofNat, String.toList_ofList]
  split
  · rename_i rest heq
    exact absurd heq (hplus rest)
  · simp [nat?_chars, h]

/-- A positive number has no leading zero. -/
theorem digits_of_pos {n : Nat} (h : 0 < n) : ∃ d rest, digits n = d :: rest ∧ d ≠ 0 := by
  fun_induction digits n with
  | case1 n hlt => exact ⟨n, [], rfl, by omega⟩
  | case2 n hlt ih =>
    obtain ⟨d, rest, hdigits, hd⟩ := ih (by omega)
    exact ⟨d, rest ++ [n % 10], by rw [hdigits]; rfl, hd⟩

theorem length_digits_le {n k : Nat} (h : n < 10 ^ (k + 1)) : (digits n).length ≤ k + 1 := by
  induction k generalizing n with
  | zero =>
    unfold digits
    rw [if_pos (by omega)]
    exact Nat.le_refl _
  | succ k ih =>
    unfold digits
    split
    · simp
    · have hdiv : n / 10 < 10 ^ (k + 1) := by
        rw [Nat.div_lt_iff_lt_mul (by decide), ← Nat.pow_succ]
        exact h
      rw [List.length_append, List.length_singleton]
      exact Nat.succ_le_succ (ih hdiv)

/-! ### Zeros in front and behind -/

/-- The digits of `n` with zeros in front up to `width` of them. -/
def paddedDigits (width n : Nat) : List Nat :=
  List.replicate (width - (digits n).length) 0 ++ digits n

theorem paddedDigits_lt_ten (width n : Nat) : ∀ d ∈ paddedDigits width n, d < 10 := by
  intro d hd
  rcases List.mem_append.1 hd with hzero | hdigit
  · rw [List.eq_of_mem_replicate hzero]
    omega
  · exact digits_lt_ten n d hdigit

theorem paddedDigits_ne_nil (width n : Nat) : paddedDigits width n ≠ [] := by
  intro hnil
  exact digits_ne_nil n (List.append_eq_nil_iff.1 hnil).2

theorem length_paddedDigits {width n : Nat} (h : n < 10 ^ (width + 1)) :
    (paddedDigits (width + 1) n).length = width + 1 := by
  have hdigits := length_digits_le h
  rw [paddedDigits, List.length_append, List.length_replicate]
  omega

theorem toList_padded (width n : Nat) :
    (padded width n).toList = (paddedDigits width n).map digitChar := by
  simp only [padded, paddedDigits, chars, String.toList_ofList, List.length_map, List.map_append,
    List.map_replicate]
  rfl

/-- A number below the next power of ten is padded to the width itself. -/
theorem length_padded {width n : Nat} (h : n < 10 ^ (width + 1)) :
    (padded (width + 1) n).toList.length = width + 1 := by
  rw [toList_padded, List.length_map, length_paddedDigits h]

theorem ofDigits_zeros_append (count : Nat) (ds : List Nat) :
    ofDigits (List.replicate count 0 ++ ds) = ofDigits ds := by
  have hzeros : (List.replicate count 0).foldr (fun d n => d + 10 * n) 0 = 0 := by
    induction count with
    | zero => rfl
    | succ count ih => rw [List.replicate_succ, List.foldr_cons, ih]
  simp only [ofDigits, ofNumerals_eq_foldr, List.reverse_append, List.reverse_replicate,
    List.foldr_append, hzeros]

theorem digit?_lt_ten {c : Char} {d : Nat} (h : digit? c = some d) : d < 10 := by
  unfold digit? at h
  split at h
  · cases h
    omega
  · cases h

/-- As many digits are a number below that power of ten. -/
theorem ofDigits_lt_pow {ds : List Nat} (h : ∀ d ∈ ds, d < 10) : ofDigits ds < 10 ^ ds.length := by
  induction ds using List.reverseRecOn with
  | nil => decide
  | append_singleton ds d ih =>
    have hfront := ih fun other hother => h other (List.mem_append_left _ hother)
    have hlast := h d (List.mem_append_right _ (List.mem_singleton.2 rfl))
    rw [ofDigits_append, List.length_append, List.length_singleton, Nat.pow_succ]
    omega

theorem ofDigits_append_zeros (ds : List Nat) (count : Nat) :
    ofDigits (ds ++ List.replicate count 0) = ofDigits ds * 10 ^ count := by
  induction count with
  | zero => rw [List.replicate_zero, List.append_nil, Nat.pow_zero, Nat.mul_one]
  | succ count ih =>
    rw [List.replicate_succ', ← List.append_assoc, ofDigits_append, ih, Nat.pow_succ, Nat.add_zero,
      Nat.mul_comm, Nat.mul_assoc]

/-- A padded text with zeros behind it is read as a multiple of a power of ten. -/
theorem nat?_padded_append (width n count : Nat) :
    nat? ((padded width n).toList ++ List.replicate count '0') = some (n * 10 ^ count) := by
  have hdigits : (padded width n).toList ++ List.replicate count '0' =
      (paddedDigits width n ++ List.replicate count 0).map digitChar := by
    rw [List.map_append, List.map_replicate, toList_padded]
    rfl
  have hlow : ∀ d ∈ paddedDigits width n ++ List.replicate count 0, d < 10 := by
    intro d hd
    rcases List.mem_append.1 hd with hpadded | hzero
    · exact paddedDigits_lt_ten width n d hpadded
    · rw [List.eq_of_mem_replicate hzero]
      omega
  have hne : (paddedDigits width n ++ List.replicate count 0).map digitChar ≠ [] := by
    simp [paddedDigits_ne_nil]
  rw [hdigits, nat?, if_neg (by simpa using hne), mapM_digit?_map _ hlow, Option.map_some,
    ofDigits_append_zeros, paddedDigits, ofDigits_zeros_append, ofDigits_digits]

theorem nat?_padded (width n : Nat) : nat? (padded width n).toList = some n := by
  have hread := nat?_padded_append width n 0
  rwa [List.replicate_zero, List.append_nil, Nat.pow_zero, Nat.mul_one] at hread

theorem padded_injective {width n m : Nat} (h : padded width n = padded width m) : n = m := by
  have hread := nat?_padded width n
  rw [h, nat?_padded] at hread
  exact (Option.some.inj hread).symm

theorem isDigit_digitChar {d : Nat} (h : d < 10) : isDigit (digitChar d) = true := by
  rw [isDigit, digit?_digitChar h]
  rfl

theorem isDigit_of_mem_padded {width n : Nat} {c : Char} (h : c ∈ (padded width n).toList) :
    isDigit c = true := by
  rw [toList_padded] at h
  obtain ⟨d, hd, rfl⟩ := List.mem_map.1 h
  exact isDigit_digitChar (paddedDigits_lt_ten width n d hd)

/-- A padded text begins with a digit, so it is read without a sign. -/
theorem int?_padded (width n : Nat) : int? (padded width n) = some (n : Int) := by
  have hsign : ∀ c ∈ (padded width n).toList, c ≠ '-' ∧ c ≠ '+' := by
    intro c hc
    have hdigit := isDigit_of_mem_padded hc
    constructor
    · rintro rfl
      exact absurd hdigit (by decide)
    · rintro rfl
      exact absurd hdigit (by decide)
  have hread := nat?_padded width n
  unfold int?
  generalize (padded width n).toList = cs at hsign hread
  split
  · exact absurd rfl (hsign '-' List.mem_cons_self).1
  · exact absurd rfl (hsign '+' List.mem_cons_self).2
  · rw [hread]
    rfl

/-- A text with a character that is no digit is not read. -/
theorem nat?_eq_none {cs : List Char} {c : Char} (hmem : c ∈ cs) (h : isDigit c = false) :
    nat? cs = none := by
  have hnone : cs.mapM digit? = none := by
    induction cs with
    | nil => cases hmem
    | cons first rest ih =>
      rw [List.mapM_cons]
      rcases List.mem_cons.1 hmem with rfl | hrest
      · rw [isDigit, Option.isSome_eq_false_iff, Option.isNone_iff_eq_none] at h
        rw [h]
        rfl
      · rw [ih hrest]
        cases digit? first <;> rfl
  rw [nat?, hnone]
  split <;> rfl

end DocStore.Decimal

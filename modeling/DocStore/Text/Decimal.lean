/-!
Base-ten text of integers: `Decimal.ofNat` and `Decimal.ofInt` write it without leading zeros,
`Decimal.nat?` and `Decimal.int?` read a non-empty run of ASCII digits with an optional sign.
Reading takes back what writing gives (`int?_ofInt`).
-/

namespace DocStore.Decimal

/-- The digits of `n`, most significant first, without leading zeros. -/
def digits (n : Nat) : List Nat :=
  if n < 10 then [n] else digits (n / 10) ++ [n % 10]
termination_by n
decreasing_by omega

/-- Joins neighbours: two numerals in base `base`, the lower one first, make one in base `base * base`. -/
def joinNeighbours (base : Nat) : List Nat → List Nat
  | low :: high :: rest => (low + base * high) :: joinNeighbours base rest
  | rest => rest

/-- The number that numerals in base `base` stand for, the lowest first. They are joined for a number of
rounds while there are two at least, and what is left then is added up one by one; the result is the same
for any number of rounds (`ofNumerals_eq_foldr`). -/
def ofNumerals : Nat → Nat → List Nat → Nat
  | rounds + 1, base, low :: high :: rest =>
    ofNumerals rounds (base * base) (joinNeighbours base (low :: high :: rest))
  | _, base, numerals => numerals.foldr (fun d n => d + base * n) 0

/-- The number that a list of digits stands for. Joining keeps the factors of a product at one length, so
that also a very long list is read fast. -/
def ofDigits (ds : List Nat) : Nat :=
  ofNumerals 64 10 ds.reverse

/-- The character of a digit below ten. -/
def digitChar (d : Nat) : Char :=
  Char.ofNat (48 + d)

/-- The value of an ASCII digit. -/
def digit? (c : Char) : Option Nat :=
  if 48 ≤ c.toNat ∧ c.toNat ≤ 57 then some (c.toNat - 48) else none

/-- Whether `c` is an ASCII digit. -/
def isDigit (c : Char) : Bool :=
  (digit? c).isSome

/-- Base-ten characters of a natural number. -/
def chars (n : Nat) : List Char :=
  (digits n).map digitChar

/-- Base-ten text of a natural number. -/
def ofNat (n : Nat) : String :=
  String.ofList (chars n)

/-- Base-ten text of an integer, with `-` in front of a negative one. -/
def ofInt : Int → String
  | .ofNat n => ofNat n
  | .negSucc n => String.ofList ('-' :: chars (n + 1))

/-- Base-ten text of `n` with zeros in front up to `width` characters. -/
def padded (width n : Nat) : String :=
  String.ofList (List.replicate (width - (chars n).length) '0' ++ chars n)

/-- Reads a non-empty run of digits. -/
def nat? (cs : List Char) : Option Nat :=
  if cs.isEmpty then none else (cs.mapM digit?).map ofDigits

/-- Reads a signed integer: an optional `+` or `-`, then digits. -/
def int? (text : String) : Option Int :=
  match text.toList with
  | '-' :: rest => (nat? rest).map fun n => -(n : Int)
  | '+' :: rest => (nat? rest).map fun n => (n : Int)
  | cs => (nat? cs).map fun n => (n : Int)

/-- The integers of 64 bits with a sign. -/
def InInt64 (i : Int) : Prop :=
  -9223372036854775808 ≤ i ∧ i ≤ 9223372036854775807

instance (i : Int) : Decidable (InInt64 i) :=
  inferInstanceAs (Decidable (_ ∧ _))

/-- The integer that 64 bits with a sign hold of an integer: the one in range that is equal to it modulo 2⁶⁴. -/
def wrapped (i : Int) : Int :=
  (Int64.ofInt i).toInt

/-- Reads a signed integer of 64 bits. -/
def int64? (text : String) : Option Int := do
  let i ← int? text
  if InInt64 i then some i else none

/-- The largest unsigned integer of 64 bits. -/
def maxWord64 : Nat := 18446744073709551615

/-- Reads an unsigned integer of 64 bits: an optional `+`, then digits. -/
def word64? (text : String) : Option Nat := do
  let n ← match text.toList with
    | '+' :: rest => nat? rest
    | cs => nat? cs
  if n ≤ maxWord64 then some n else none

theorem foldr_joinNeighbours (base : Nat) (numerals : List Nat) :
    (joinNeighbours base numerals).foldr (fun d n => d + base * base * n) 0 =
      numerals.foldr (fun d n => d + base * n) 0 := by
  fun_induction joinNeighbours base numerals with
  | case1 low high rest ih =>
    rw [List.foldr_cons, ih, List.foldr_cons, List.foldr_cons, Nat.mul_add, Nat.mul_assoc,
      Nat.add_assoc]
  | case2 numerals h =>
    match numerals with
    | [] => rfl
    | [_] => simp
    | low :: high :: rest => exact absurd rfl (h low high rest)

/-- Joining changes nothing about the number. -/
theorem ofNumerals_eq_foldr (rounds base : Nat) (numerals : List Nat) :
    ofNumerals rounds base numerals = numerals.foldr (fun d n => d + base * n) 0 := by
  fun_induction ofNumerals rounds base numerals with
  | case1 rounds base low high rest ih => rw [ih, foldr_joinNeighbours]
  | case2 => rfl

theorem ofDigits_append (ds : List Nat) (d : Nat) :
    ofDigits (ds ++ [d]) = 10 * ofDigits ds + d := by
  simp [ofDigits, ofNumerals_eq_foldr, Nat.add_comm]

theorem ofDigits_digits (n : Nat) : ofDigits (digits n) = n := by
  fun_induction digits n with
  | case1 n h => simp [ofDigits, ofNumerals_eq_foldr]
  | case2 n h ih => rw [ofDigits_append, ih]; omega

theorem digits_lt_ten (n : Nat) : ∀ d ∈ digits n, d < 10 := by
  fun_induction digits n with
  | case1 n h => simpa using h
  | case2 n h ih =>
    intro d hd
    rcases List.mem_append.1 hd with hd | hd
    · exact ih d hd
    · have := List.mem_singleton.1 hd
      omega

theorem digits_ne_nil (n : Nat) : digits n ≠ [] := by
  unfold digits
  split <;> simp

theorem digit?_digitChar {d : Nat} (h : d < 10) : digit? (digitChar d) = some d := by
  match d, h with
  | 0, _ | 1, _ | 2, _ | 3, _ | 4, _ | 5, _ | 6, _ | 7, _ | 8, _ | 9, _ => rfl

theorem mapM_digit?_map (ds : List Nat) (h : ∀ d ∈ ds, d < 10) :
    (ds.map digitChar).mapM digit? = some ds := by
  induction ds with
  | nil => rfl
  | cons d rest ih =>
    have hd : d < 10 := h d List.mem_cons_self
    have hrest := ih fun e he => h e (List.mem_cons_of_mem _ he)
    simp [List.mapM_cons, digit?_digitChar hd, hrest]

theorem nat?_chars (n : Nat) : nat? (chars n) = some n := by
  have hne : ((digits n).map digitChar).isEmpty = false := by
    cases h : digits n with
    | nil => exact absurd h (digits_ne_nil n)
    | cons d rest => rfl
  simp [nat?, chars, mapM_digit?_map _ (digits_lt_ten n), ofDigits_digits, hne]

theorem digitChar_ne_sign {d : Nat} (h : d < 10) : digitChar d ≠ '-' ∧ digitChar d ≠ '+' := by
  match d, h with
  | 0, _ | 1, _ | 2, _ | 3, _ | 4, _ | 5, _ | 6, _ | 7, _ | 8, _ | 9, _ => decide

/-- Reading takes back what writing gives. -/
theorem int?_ofInt (i : Int) : int? (ofInt i) = some i := by
  cases i with
  | ofNat n =>
    have hn := nat?_chars n
    cases h : digits n with
    | nil => exact absurd h (digits_ne_nil n)
    | cons d rest =>
      have hd : d < 10 := digits_lt_ten n d (h ▸ List.mem_cons_self)
      have hne := digitChar_ne_sign hd
      have hc : chars n = digitChar d :: rest.map digitChar := by simp [chars, h]
      rw [hc] at hn
      simp only [int?, ofInt, ofNat, String.toList_ofList, hc]
      split
      · rename_i heq
        exact absurd (List.cons.inj heq).1 hne.1
      · rename_i heq
        exact absurd (List.cons.inj heq).1 hne.2
      · simp [hn]
  | negSucc n =>
    simp [int?, ofInt, String.toList_ofList, nat?_chars, Int.negSucc_eq]

end DocStore.Decimal

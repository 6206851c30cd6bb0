import DocStore.Json.Printer
import DocStore.Json.Written
import DocStore.Proofs.Text.Decimal

/-!
Printed values are scanned as the tokens that they are made of.

A string or a bracket is a token of its own whatever follows. A number goes on as long as it can, so it is one
token only in front of what does not belong to a number (`Stops`), as the comma or the bracket after a value.
-/

namespace DocStore.Json

namespace Token

variable {bound : Nat} {cs rest : List Char} {tokens found : List Token}

/-- A larger bound scans the same. -/
theorem scanUpTo?_mono (h : scanUpTo? bound cs = some found) (more : Nat) :
    scanUpTo? (bound + more) cs = some found := by
  induction bound generalizing cs found with
  | zero =>
    unfold scanUpTo? at h
    split at h
    · rename_i hempty
      cases h
      have hnil := List.isEmpty_iff.1 hempty
      rw [Nat.zero_add]
      cases more with
      | zero => rw [scanUpTo?, if_pos hempty]
      | succ more => rw [scanUpTo?, hnil]
    · cases h
  | succ bound ih =>
    rw [Nat.add_right_comm]
    unfold scanUpTo? at h ⊢
    split
    · rename_i hnil
      rw [hnil] at h
      exact h
    · rename_i c rest hcons
      rw [hcons] at h
      dsimp only at h
      cases hnext : next? (c :: rest) with
      | none =>
        rw [hnext] at h
        cases h
      | some step =>
        rw [hnext] at h
        dsimp only at h ⊢
        cases hrest : scanUpTo? bound step.2 with
        | none =>
          rw [hrest] at h
          cases h
        | some others =>
          rw [hrest] at h
          rw [ih hrest]
          exact h

/-- In front of what satisfies the condition, the characters scan as the tokens. -/
def Scans (before : List Char → Prop) (cs : List Char) (tokens : List Token) : Prop :=
  ∀ bound rest found, before rest → scanUpTo? bound rest = some found →
    scanUpTo? (bound + cs.length) (cs ++ rest) = some (tokens ++ found)

/-- No condition. -/
def Anything (_ : List Char) : Prop := True

namespace Scans

variable {before after : List Char → Prop}

theorem nil : Scans before [] [] :=
  fun _ _ _ _ h => h

theorem append {more : List Char} {others : List Token} (h : Scans before cs tokens)
    (h' : Scans after more others) (hmore : ∀ rest, after rest → before (more ++ rest)) :
    Scans after (cs ++ more) (tokens ++ others) := by
  intro bound rest found hafter hrest
  have hboth := h _ _ _ (hmore rest hafter) (h' _ _ _ hafter hrest)
  rw [Nat.add_assoc, Nat.add_comm more.length, ← List.length_append] at hboth
  rw [List.append_assoc, List.append_assoc]
  exact hboth

/-- What scans as its tokens in front of anything does so in front of other tokens. -/
theorem followed {more : List Char} {others : List Token} (h : Scans Anything cs tokens)
    (h' : Scans after more others) : Scans after (cs ++ more) (tokens ++ others) :=
  h.append h' fun _ _ => trivial

theorem token {c : Char} {token : Token} (hblank : isBlank c = false)
    (hnext : ∀ rest, before rest → next? (c :: (cs ++ rest)) = some (token, rest)) :
    Scans before (c :: cs) [token] := by
  intro bound rest found hbefore hrest
  rw [List.length_cons, ← Nat.add_assoc, List.cons_append]
  unfold scanUpTo?
  rw [List.dropWhile_cons_of_neg (by simp [hblank])]
  simp only [hnext rest hbefore, scanUpTo?_mono hrest]
  rfl

theorem char {c : Char} {token : Token} (hblank : isBlank c = false)
    (hnext : ∀ rest, next? (c :: rest) = some (token, rest)) : Scans before [c] [token] :=
  .token hblank fun rest _ => hnext rest

theorem scan? {text : String} (h : Scans before text.toList tokens) (hnil : before []) :
    scan? text = some tokens := by
  have hall := h 0 [] [] hnil rfl
  rw [Nat.zero_add, List.append_nil, List.append_nil] at hall
  exact hall

end Scans

theorem hexDigit?_hexDigit {d : Nat} (h : d < 16) : hexDigit? (Text.hexDigit d) = some d := by
  revert d
  decide

theorem stringUnits?_escaped (c : Char) (rest : List Char) :
    stringUnits? (escapedChar c ++ rest) =
      (stringUnits? rest).map fun found => (c.toNat :: found.1, found.2) := by
  unfold escapedChar
  split
  · simp [stringUnits?, escape?]
  · simp [stringUnits?, escape?]
  · simp [stringUnits?, escape?]
  · simp [stringUnits?, escape?]
  · simp [stringUnits?, escape?]
  · simp [stringUnits?, escape?]
  · simp [stringUnits?, escape?]
  · split
    · rename_i hsmall
      have hzero : hexDigit? '0' = some 0 := by decide
      simp [stringUnits?, hzero, hexDigit?_hexDigit (d := c.toNat / 16) (by omega),
        hexDigit?_hexDigit (d := c.toNat % 16) (by omega), Nat.div_add_mod']
    · rename_i hquote hslash _ _ _ _ _ hlarge
      rw [List.singleton_append, stringUnits?]
      · rw [if_neg (by simp only [not_or]; exact ⟨hlarge, hslash⟩)]
      · exact hquote
      · exact fun _ _ _ _ _ heq _ => hslash heq
      · exact fun _ _ heq _ => hslash heq

theorem stringUnits?_text (text : List Char) (rest : List Char) :
    stringUnits? (text.flatMap escapedChar ++ '"' :: rest) = some (text.map Char.toNat, rest) := by
  induction text with
  | nil => simp [stringUnits?]
  | cons c text ih =>
    rw [List.flatMap_cons, List.append_assoc, stringUnits?_escaped, ih]
    rfl

theorem joinPairs?_chars (text : List Char) : joinPairs? (text.map Char.toNat) = some text := by
  induction text with
  | nil => rfl
  | cons c rest ih =>
    have hvalid : ¬(0xD800 ≤ c.toNat ∧ c.toNat ≤ 0xDFFF) := by
      have hvalid : c.toNat < 0xD800 ∨ 0xDFFF < c.toNat ∧ c.toNat < 0x110000 := c.valid
      omega
    cases rest with
    | nil => simp [joinPairs?, hvalid, Char.ofNat_toNat]
    | cons d rest =>
      rw [List.map_cons, List.map_cons, joinPairs?, if_neg (by omega), if_neg (by omega), ← List.map_cons, ih,
        Char.ofNat_toNat]
      rfl

theorem scans_strText (before : List Char → Prop) (text : String) :
    Scans before (strText text).toList [.str (some text)] := by
  have hchars : (strText text).toList = '"' :: (text.toList.flatMap escapedChar ++ ['"']) := by
    simp [strText]
  rw [hchars]
  refine .token (by decide) fun rest _ => ?_
  rw [next?, List.append_assoc, List.singleton_append, stringUnits?_text]
  simp [joinPairs?_chars]
/-! ### Numbers -/

/-- No number goes on with these characters. -/
def Stops (rest : List Char) : Prop :=
  ∀ c ∈ rest.head?, Decimal.digit? c = none ∧ c ≠ '.' ∧ c ≠ 'e' ∧ c ≠ 'E'

theorem stops_nil : Stops [] := by
  simp [Stops]

theorem stops_cons {c : Char} (hdigit : Decimal.digit? c = none) (hpoint : c ≠ '.')
    (hexponent : c ≠ 'e' ∧ c ≠ 'E') : Stops (c :: rest) := by
  intro d hd
  cases hd
  exact ⟨hdigit, hpoint, hexponent⟩

theorem Stops.append {more : List Char} (h : Stops cs) (hmore : Stops more) : Stops (cs ++ more) := by
  cases cs with
  | nil => exact hmore
  | cons c cs => exact h

theorem digitRun_append {ds : List Nat} (hds : ∀ d ∈ ds, d < 10) (h : Stops rest) :
    digitRun (ds.map Decimal.digitChar ++ rest) = (ds, rest) := by
  induction ds with
  | nil =>
    cases rest with
    | nil => rfl
    | cons c rest => simp [digitRun, (h c rfl).1]
  | cons d ds ih =>
    have hd := Decimal.digit?_digitChar (hds d List.mem_cons_self)
    have hrest := ih fun other hother => hds other (List.mem_cons_of_mem _ hother)
    simp [digitRun, hd, hrest]

theorem digitRun_chars (n : Nat) (h : Stops rest) :
    digitRun (Decimal.chars n ++ rest) = (Decimal.digits n, rest) :=
  digitRun_append (Decimal.digits_lt_ten n) h

/-- Digits without a leading zero are all in front of the point. -/
theorem wholePart?_chars (n : Nat) (h : Stops rest) :
    wholePart? (Decimal.chars n ++ rest) = some (Decimal.digits n, rest) := by
  rw [wholePart?, digitRun_chars n h]
  rcases Nat.eq_zero_or_pos n with rfl | hpos
  · simp [Decimal.chars, Decimal.digits]
  · obtain ⟨d, ds, hdigits, hne⟩ := Decimal.digits_of_pos hpos
    rw [hdigits]
    cases d with
    | zero => exact absurd rfl hne
    | succ d => rfl

theorem fractionPart?_of_stops (h : Stops rest) : fractionPart? rest = some (none, rest) := by
  unfold fractionPart?
  split
  · exact absurd rfl (h _ rfl).2.1
  · rfl

theorem exponentPart?_of_stops (h : Stops rest) : exponentPart? rest = some (none, rest) := by
  cases rest with
  | nil => rfl
  | cons c rest =>
    obtain ⟨-, -, hlower, hupper⟩ := h c rfl
    simp [exponentPart?, hlower, hupper]

theorem number?_chars (negative : Bool) (n : Nat) (h : Stops rest) :
    number? negative (Decimal.chars n ++ rest) =
      some (.number ⟨negative, Decimal.digits n, none, none⟩, rest) := by
  simp [number?, wholePart?_chars n h, fractionPart?_of_stops h, exponentPart?_of_stops h]

/-- A token that begins with a digit is a number without a sign. -/
theorem next?_digitChar {d : Nat} (h : d < 10) (cs : List Char) :
    isBlank (Decimal.digitChar d) = false ∧
      next? (Decimal.digitChar d :: cs) = number? false (Decimal.digitChar d :: cs) := by
  match d, h with
  | 0, _ | 1, _ | 2, _ | 3, _ | 4, _ | 5, _ | 6, _ | 7, _ | 8, _ | 9, _ => exact ⟨rfl, rfl⟩

/-- The number that an integer is written as. -/
def numberOf : Int → NumberText
  | .ofNat n => ⟨false, Decimal.digits n, none, none⟩
  | .negSucc n => ⟨true, Decimal.digits (n + 1), none, none⟩

/-- An integer is one token in front of what does not belong to a number. -/
theorem scans_ofInt (i : Int) : Scans Stops (Decimal.ofInt i).toList [.number (numberOf i)] := by
  cases i with
  | ofNat n =>
    obtain ⟨d, ds, hdigits⟩ := List.exists_cons_of_ne_nil (Decimal.digits_ne_nil n)
    have hd : d < 10 := Decimal.digits_lt_ten n d (hdigits ▸ List.mem_cons_self)
    have hchars : Decimal.chars n = Decimal.digitChar d :: ds.map Decimal.digitChar := by
      rw [Decimal.chars, hdigits, List.map_cons]
    have hnumber := fun rest (h : Stops rest) => number?_chars false n h
    rw [Decimal.ofInt, Decimal.ofNat, String.toList_ofList]
    rw [hchars] at hnumber ⊢
    apply Scans.token
    · exact (next?_digitChar hd []).1
    · intro rest hstops
      rw [(next?_digitChar hd _).2]
      exact hnumber rest hstops
  | negSucc n =>
    rw [Decimal.ofInt, String.toList_ofList]
    apply Scans.token
    · rfl
    · intro rest hstops
      exact number?_chars true (n + 1) hstops

end Token

/-- The integers of 64 bits, with a sign or without. -/
def InWord (i : Int) : Prop :=
  -9223372036854775808 ≤ i ∧ i ≤ Decimal.maxWord64

/-- An integer of 64 bits is read as itself. -/
theorem NumberText.value?_numberOf {i : Int} (h : InWord i) : (Token.numberOf i).value? = some (.int i) := by
  cases i with
  | ofNat n =>
    have hle : n ≤ Decimal.maxWord64 := Int.ofNat_le.1 h.2
    simp [Token.numberOf, value?, Decimal.ofDigits_digits, hle]
  | negSucc n =>
    have hmin := h.1
    have hlow : Decimal.InInt64 (-((n + 1 : Nat) : Int)) := by constructor <;> omega
    rw [Token.numberOf, value?, Decimal.ofDigits_digits, if_pos ⟨rfl, rfl⟩, if_pos rfl,
      if_pos ⟨Nat.succ_pos n, hlow⟩]
    rfl

end DocStore.Json

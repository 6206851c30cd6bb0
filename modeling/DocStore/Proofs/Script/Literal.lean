import DocStore.Proofs.Text.Decimal
import DocStore.Script.Literal
import Mathlib.Data.List.TakeWhile

/-!
Quoted texts as Lua 5.1 reads them.

To its reader a literal stands for bytes. A backslash before `n`, `r`, a backslash or a quote is one byte, and
so is a backslash with the digits behind it, as many as there are up to three (`Literal.readOn?`). Every quoted
text is a complete literal. NUL is written with a single digit, so that digits which follow it in the text are
taken for digits of the escape (`Literal.heard`): a literal has the value of its text if and only if NUL stands
before no digit (`Literal.read?_literal`).
-/

namespace DocStore.Script.Literal

/-- The bytes of characters. -/
def utf8 (cs : List Char) : List UInt8 :=
  cs.flatMap String.utf8EncodeChar

/-- The digits of an escape: as many as stand in front, up to three. -/
def digitRun (cs : List Char) : List Char :=
  (cs.takeWhile Decimal.isDigit).take 3

/-- The number that digits stand for. -/
def runValue (digits : List Char) : Nat :=
  Decimal.ofDigits (digits.filterMap Decimal.digit?)

/-- The character that a letter or a mark stands for behind a backslash. -/
def marked? (c : Char) : Option Char :=
  if c = 'n' then some '\n' else if c = 'r' then some '\r'
  else if c = '\\' ∨ c = '\'' then some c else none

/-- Takes an escape from behind its backslash: its bytes, and what follows it. -/
def escape? : List Char → Option (List UInt8 × List Char)
  | [] => none
  | c :: rest =>
    if digitRun (c :: rest) = [] then (marked? c).map fun found => (String.utf8EncodeChar found, rest)
    else if runValue (digitRun (c :: rest)) < 256 then
      some ([UInt8.ofNat (runValue (digitRun (c :: rest)))], (c :: rest).drop (digitRun (c :: rest)).length)
    else none

theorem length_of_escape? {cs more : List Char} {bytes : List UInt8} (h : escape? cs = some (bytes, more)) :
    more.length ≤ cs.length := by
  cases cs with
  | nil => cases h
  | cons c rest =>
    simp only [escape?] at h
    split at h
    · obtain ⟨found, -, heq⟩ := Option.map_eq_some_iff.1 h
      cases heq
      simp
    · split at h
      · cases h
        simp
      · cases h

/-- Reads on behind the opening quote, up to the closing one: the bytes, and what follows. A line that ends
before that is an error. -/
def readOn? : List Char → Option (List UInt8 × List Char)
  | [] => none
  | c :: rest =>
    if c = '\'' then some ([], rest)
    else if c = '\n' ∨ c = '\r' then none
    else if c = '\\' then
      match h : escape? rest with
      | none => none
      | some (bytes, more) =>
        have : more.length ≤ rest.length := length_of_escape? h
        (readOn? more).map fun taken => (bytes ++ taken.1, taken.2)
    else (readOn? rest).map fun taken => (String.utf8EncodeChar c ++ taken.1, taken.2)
termination_by cs => cs.length

/-- Reads a text that is a literal and nothing else. -/
def read? (text : String) : Option ByteArray :=
  match text.toList with
  | '\'' :: rest =>
    match readOn? rest with
    | some (bytes, []) => some bytes.toByteArray
    | _ => none
  | _ => none

/-! ### One character after another -/

section Steps

variable {c : Char} {cs rest : List Char}

theorem digitRun_of_not_digit (h : Decimal.isDigit c = false) : digitRun (c :: rest) = [] := by
  simp [digitRun, h]

theorem readOn?_quote (rest : List Char) : readOn? ('\'' :: rest) = some ([], rest) := by
  rw [readOn?, if_pos rfl]

theorem readOn?_plain (hquote : c ≠ '\'') (hslash : c ≠ '\\') (hline : c ≠ '\n') (hreturn : c ≠ '\r') :
    readOn? (c :: rest) =
      (readOn? rest).map fun taken => (String.utf8EncodeChar c ++ taken.1, taken.2) := by
  rw [readOn?, if_neg hquote, if_neg (by simp [hline, hreturn]), if_neg hslash]

theorem readOn?_escape {bytes : List UInt8} {more : List Char} (h : escape? rest = some (bytes, more)) :
    readOn? ('\\' :: rest) = (readOn? more).map fun taken => (bytes ++ taken.1, taken.2) := by
  rw [readOn?, if_neg (by decide), if_neg (by decide), if_pos rfl]
  split
  · rename_i hnone
    rw [h] at hnone
    cases hnone
  · rename_i hsome
    rw [h] at hsome
    cases hsome
    rfl

theorem readOn?_marked {found : Char} (hdigit : Decimal.isDigit c = false) (h : marked? c = some found) :
    readOn? ('\\' :: c :: rest) =
      (readOn? rest).map fun taken => (String.utf8EncodeChar found ++ taken.1, taken.2) :=
  readOn?_escape (by simp [escape?, digitRun_of_not_digit hdigit, h])

end Steps

/-! ### What a quoted text is read as -/

/-- The digits that are taken for part of the escape of a NUL in front of them. -/
def swallowed (cs : List Char) : List Char :=
  (cs.takeWhile Decimal.isDigit).take 2

/-- The bytes that the literal of these characters stands for: NUL and up to two digits behind it are one. -/
def heard : List Char → List UInt8
  | [] => []
  | c :: rest =>
    if c = '\x00' then
      UInt8.ofNat (runValue ('0' :: swallowed rest)) :: heard (rest.drop (swallowed rest).length)
    else String.utf8EncodeChar c ++ heard rest
termination_by cs => cs.length

section Heard

variable {cs rest : List Char}

/-- Two digits behind a zero are a number below a hundred. -/
theorem runValue_swallowed (cs : List Char) : runValue ('0' :: swallowed cs) < 100 := by
  have hzero : Decimal.digit? '0' = some 0 := rfl
  have hcount : ((swallowed cs).filterMap Decimal.digit?).length ≤ 2 :=
    (List.length_filterMap_le _ _).trans (List.length_take_le 2 _)
  have hlow : ∀ d ∈ (swallowed cs).filterMap Decimal.digit?, d < 10 := by
    intro d hd
    obtain ⟨c, -, hc⟩ := List.mem_filterMap.1 hd
    exact Decimal.digit?_lt_ten hc
  calc runValue ('0' :: swallowed cs)
      = Decimal.ofDigits (List.replicate 1 0 ++ (swallowed cs).filterMap Decimal.digit?) := by
        rw [runValue, List.filterMap_cons, hzero]
        rfl
    _ = Decimal.ofDigits ((swallowed cs).filterMap Decimal.digit?) := Decimal.ofDigits_zeros_append 1 _
    _ < 10 ^ ((swallowed cs).filterMap Decimal.digit?).length := Decimal.ofDigits_lt_pow hlow
    _ ≤ 100 := Nat.pow_le_pow_right (by decide) hcount

theorem literalChar_of_isDigit {c : Char} (h : Decimal.isDigit c = true) : literalChar c = [c] := by
  unfold literalChar
  repeat' split
  all_goals first
    | rfl
    | (exfalso; revert h; simp_all [Decimal.isDigit, Decimal.digit?])

/-- What is written for a character that is no digit begins with none. -/
theorem head_literalChar_of_not_isDigit {c : Char} (h : Decimal.isDigit c = false) :
    ∃ first more, literalChar c = first :: more ∧ Decimal.isDigit first = false := by
  unfold literalChar
  repeat' split
  · exact ⟨_, _, rfl, by decide⟩
  · exact ⟨_, _, rfl, by decide⟩
  · exact ⟨_, _, rfl, by decide⟩
  · exact ⟨_, _, rfl, by decide⟩
  · exact ⟨_, _, rfl, by decide⟩
  · exact ⟨_, _, rfl, h⟩

/-- The digits in front of a text are those in front of its literal. -/
theorem takeWhile_flatMap_literalChar (hrest : ∀ c ∈ rest.head?, Decimal.isDigit c = false) :
    (cs.flatMap literalChar ++ rest).takeWhile Decimal.isDigit = cs.takeWhile Decimal.isDigit := by
  induction cs with
  | nil =>
    cases rest with
    | nil => rfl
    | cons c more => simp [hrest c rfl]
  | cons c cs ih =>
    cases hdigit : Decimal.isDigit c with
    | true => simp [literalChar_of_isDigit hdigit, hdigit, ih]
    | false =>
      obtain ⟨first, more, hwritten, hfirst⟩ := head_literalChar_of_not_isDigit hdigit
      simp [hwritten, hfirst, hdigit]

/-- Digits in front of a text can be taken off its literal. -/
theorem drop_flatMap_literalChar {count : Nat} (h : count ≤ (cs.takeWhile Decimal.isDigit).length) :
    (cs.flatMap literalChar ++ rest).drop count = (cs.drop count).flatMap literalChar ++ rest := by
  induction cs generalizing count with
  | nil =>
    obtain rfl : count = 0 := by simpa using h
    rfl
  | cons c cs ih =>
    cases count with
    | zero => rfl
    | succ count =>
      cases hdigit : Decimal.isDigit c with
      | false => simp [hdigit] at h
      | true =>
        have hmore : count ≤ (cs.takeWhile Decimal.isDigit).length := by simpa [hdigit] using h
        simp [literalChar_of_isDigit hdigit, ih hmore]

/-- The escape that is written for NUL, with the digits behind it. -/
theorem escape?_nul (hrest : ∀ c ∈ rest.head?, Decimal.isDigit c = false) :
    escape? ('0' :: (cs.flatMap literalChar ++ rest)) =
      some ([UInt8.ofNat (runValue ('0' :: swallowed cs))],
        (cs.drop (swallowed cs).length).flatMap literalChar ++ rest) := by
  have hrun : digitRun ('0' :: (cs.flatMap literalChar ++ rest)) = '0' :: swallowed cs := by
    have hzero : Decimal.isDigit '0' = true := by decide
    simp [digitRun, swallowed, hzero, takeWhile_flatMap_literalChar hrest]
  have hbyte : runValue ('0' :: swallowed cs) < 256 := Nat.lt_trans (runValue_swallowed cs) (by decide)
  have hlength : (swallowed cs).length ≤ (cs.takeWhile Decimal.isDigit).length := by
    rw [swallowed, List.length_take]
    exact Nat.min_le_right _ _
  simp only [escape?, hrun]
  rw [if_neg (List.cons_ne_nil _ _), if_pos hbyte, List.length_cons, List.drop_succ_cons,
    drop_flatMap_literalChar hlength]

/-- A literal is read up to its own closing quote. -/
theorem readOn?_flatMap (cs rest : List Char) :
    readOn? (cs.flatMap literalChar ++ '\'' :: rest) = some (heard cs, rest) := by
  fun_induction heard cs with
  | case1 => exact readOn?_quote rest
  | case2 cs ih =>
    have hnul : literalChar '\x00' = ['\\', '0'] := by decide
    have hquote : ∀ c ∈ ('\'' :: rest).head?, Decimal.isDigit c = false := by
      rintro c ⟨⟩
      decide
    rw [List.flatMap_cons, hnul, List.append_assoc, List.cons_append, List.cons_append, List.nil_append,
      readOn?_escape (escape?_nul hquote), ih]
    rfl
  | case3 c cs hne ih =>
    rw [List.flatMap_cons, List.append_assoc]
    generalize cs.flatMap literalChar ++ '\'' :: rest = more at ih ⊢
    have hmarked : ∀ d, Decimal.isDigit d = false → marked? d = some c →
        readOn? (['\\', d] ++ more) = some (String.utf8EncodeChar c ++ heard cs, rest) := by
      intro d hdigit hd
      rw [List.cons_append, List.cons_append, List.nil_append, readOn?_marked hdigit hd, ih]
      rfl
    unfold literalChar
    split
    · rename_i hc
      exact hmarked _ (by decide) (by rw [hc]; decide)
    split
    · rename_i hc
      exact hmarked _ (by decide) (by rw [hc]; decide)
    split
    · rename_i hc
      exact hmarked _ (by decide) (by rw [hc]; decide)
    split
    · rename_i hc
      exact hmarked _ (by decide) (by rw [hc]; decide)
    split
    · rename_i hc
      exact absurd (by rw [← Char.ofNat_toNat c, hc] : c = '\x00') hne
    · rename_i hslash hquote hline hreturn _
      rw [List.singleton_append, readOn?_plain hquote hslash hline hreturn, ih]
      rfl

/-- Every character has a byte at least. -/
theorem length_utf8_drop {count : Nat} (h : count ≤ cs.length) :
    (utf8 (cs.drop count)).length + count ≤ (utf8 cs).length := by
  induction cs generalizing count with
  | nil =>
    obtain rfl : count = 0 := by simpa using h
    exact Nat.le_refl _
  | cons c cs ih =>
    cases count with
    | zero => exact Nat.le_refl _
    | succ count =>
      have hpos : 0 < (String.utf8EncodeChar c).length := List.length_pos_iff.2 String.utf8EncodeChar_ne_nil
      have hmore := ih (Nat.le_of_succ_le_succ h)
      rw [List.drop_succ_cons, utf8, utf8, List.flatMap_cons, List.length_append]
      rw [utf8, utf8] at hmore
      omega

theorem length_swallowed_le (cs : List Char) : (swallowed cs).length ≤ cs.length :=
  ((List.take_sublist 2 _).trans (List.takeWhile_sublist _)).length_le

/-- Nothing is swallowed if and only if no digit stands in front. -/
theorem swallowed_eq_nil_iff : swallowed cs = [] ↔ ∀ c ∈ cs.head?, Decimal.isDigit c = false := by
  cases cs with
  | nil => simp [swallowed]
  | cons c cs => cases h : Decimal.isDigit c <;> simp [swallowed, h]

/-- No byte is added. -/
theorem length_heard_le (cs : List Char) : (heard cs).length ≤ (utf8 cs).length := by
  fun_induction heard cs with
  | case1 => exact Nat.le_refl _
  | case2 cs ih =>
    have hdrop := length_utf8_drop (length_swallowed_le cs)
    have hnul : (utf8 ('\x00' :: cs)).length = (utf8 cs).length + 1 := rfl
    rw [hnul, List.length_cons]
    omega
  | case3 c cs hne ih =>
    rw [utf8, List.flatMap_cons, List.length_append, List.length_append]
    exact Nat.add_le_add_left ih _

/-- NUL in front of a text stands before no digit if and only if it swallows none. -/
theorem nul_before_no_digit_iff :
    (∀ d, ['\x00', d] <:+: '\x00' :: cs → Decimal.isDigit d = false) ↔
      swallowed cs = [] ∧ ∀ d, ['\x00', d] <:+: cs → Decimal.isDigit d = false := by
  have hinside : ∀ d, ['\x00', d] <:+: '\x00' :: cs ↔ d ∈ cs.head? ∨ ['\x00', d] <:+: cs := by
    intro d
    rw [List.infix_cons_iff, List.cons_prefix_cons]
    cases cs with
    | nil => simp
    | cons first more => simp [List.cons_prefix_cons, @eq_comm _ first d]
  simp only [hinside, or_imp, forall_and]
  rw [swallowed_eq_nil_iff]

theorem infix_cons_iff_of_ne {c d : Char} (h : c ≠ '\x00') : ['\x00', d] <:+: c :: cs ↔ ['\x00', d] <:+: cs := by
  rw [List.infix_cons_iff, or_iff_right]
  intro hfront
  exact h (List.cons_prefix_cons.1 hfront).1.symm

/-- What is left behind a swallowed digit has too few bytes. -/
theorem length_heard_swallowed (h : swallowed cs ≠ []) :
    (heard (cs.drop (swallowed cs).length)).length < (utf8 cs).length := by
  have hheard := length_heard_le (cs.drop (swallowed cs).length)
  have hdrop := length_utf8_drop (length_swallowed_le cs)
  have hpos := List.length_pos_iff.2 h
  omega

/-- The literal stands for its characters if and only if NUL stands before no digit. -/
theorem heard_eq_iff (cs : List Char) :
    heard cs = utf8 cs ↔ ∀ d, ['\x00', d] <:+: cs → Decimal.isDigit d = false := by
  fun_induction heard cs with
  | case1 => simp [utf8]
  | case2 cs ih =>
    have hnul : utf8 ('\x00' :: cs) = 0 :: utf8 cs := rfl
    rw [nul_before_no_digit_iff]
    by_cases hnone : swallowed cs = []
    · have hzero : UInt8.ofNat (runValue ['0']) = 0 := by decide
      rw [hnone, List.length_nil, List.drop_zero] at ih
      rw [hnone, hnul, hzero, List.length_nil, List.drop_zero, List.cons_inj_right, ih]
      exact ⟨fun h => ⟨rfl, h⟩, And.right⟩
    · refine ⟨fun heq => ?_, fun h => absurd h.1 hnone⟩
      have hlength := congrArg List.length heq
      rw [hnul, List.length_cons, List.length_cons] at hlength
      exact absurd (Nat.succ.inj hlength) (Nat.ne_of_lt (length_heard_swallowed hnone))
  | case3 c cs hne ih =>
    rw [utf8, List.flatMap_cons, List.append_cancel_left_eq]
    simp only [infix_cons_iff_of_ne hne]
    exact ih

end Heard

/-- The bytes of a text are those of its characters. -/
theorem toByteArray_utf8 (text : String) : (utf8 text.toList).toByteArray = text.toUTF8 := by
  have hbytes := @String.toByteArray_ofList text.toList
  rw [String.ofList_toList] at hbytes
  exact hbytes.symm

/-- Every quoted text is a complete literal. -/
theorem read?_heard (text : String) : read? (literal text) = some (heard text.toList).toByteArray := by
  have hliteral : (literal text).toList = '\'' :: (text.toList.flatMap literalChar ++ ['\'']) := by
    simp [literal]
  simp only [read?, hliteral, readOn?_flatMap]

/-- It stands for the text if and only if NUL stands before no digit in it. -/
theorem read?_eq_toUTF8_iff (text : String) :
    read? (literal text) = some text.toUTF8 ↔
      ∀ d, ['\x00', d] <:+: text.toList → Decimal.isDigit d = false := by
  rw [read?_heard, ← heard_eq_iff, ← toByteArray_utf8, Option.some_inj, List.toByteArray_inj]

/-- Every quoted text is a complete literal, and it stands for the text if and only if NUL stands before no
digit in it: NUL and up to two digits behind it are one byte. -/
theorem read?_literal (text : String) :
    read? (literal text) = some (heard text.toList).toByteArray ∧
      (read? (literal text) = some text.toUTF8 ↔
        ∀ d, ['\x00', d] <:+: text.toList → Decimal.isDigit d = false) :=
  ⟨read?_heard text, read?_eq_toUTF8_iff text⟩

/-- A text with everything that is escaped, and with NUL before a letter, is read back. -/
theorem read?_literal_escapes : read? (literal "it's\r\n\x00a\\") = some "it's\r\n\x00a\\".toUTF8 := by
  refine (read?_literal _).2.2 fun d hd => ?_
  simp [List.infix_cons_iff, List.cons_prefix_cons] at hd
  subst hd
  decide

/-- Of NUL before a one nothing is left but a byte of value one. -/
theorem literal_swallows_digit :
    read? (literal "\x001") = some ⟨#[1]⟩ ∧ read? (literal "\x001") ≠ some "\x001".toUTF8 := by
  constructor
  · have hbyte : heard ['\x00', '1'] = [1] := by
      have hswallowed : swallowed ['1'] = ['1'] := by decide
      have hvalue : runValue ['0', '1'] = 1 := by decide
      rw [heard, if_pos rfl, hswallowed, hvalue, List.length_singleton, List.drop_one, List.tail_cons, heard]
      rfl
    rw [read?_heard, String.toList_ofList, hbyte]
    rfl
  · rw [Ne, read?_eq_toUTF8_iff]
    intro hclear
    have hdigit := hclear '1' (List.infix_refl _)
    revert hdigit
    decide

end DocStore.Script.Literal

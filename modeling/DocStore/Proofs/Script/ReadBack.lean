import DocStore.Proofs.Script.Reader
import DocStore.Proofs.Text.Decimal
import DocStore.Proofs.Text.Runs
import Mathlib.Data.List.Forall2

/-!
Expressions read back from their text.

There is one rule per form of expression (`Reader.Reads`), each for parts of which the rule is known. From
the rules it follows by induction that a tidy expression is read back from its text, wherever the text is
followed by something that ends it (`Expr.reads_text`).
-/

namespace DocStore.Script

namespace Reader

section Pieces

variable {rest : List Char} {c : Char}

theorem after?_append (text rest : List Char) : after? text (text ++ rest) = some rest := by
  induction text with
  | nil => rfl
  | cons c more ih => rw [List.cons_append, after?, if_pos rfl, ih]

theorem after?_eq_none {expected : Char} {more : List Char} (h : ∀ c ∈ rest.head?, c ≠ expected) :
    after? (expected :: more) rest = none := by
  cases rest with
  | nil => rfl
  | cons c rest => rw [after?, if_neg (h c rfl)]

theorem isIntChar_of_mem_ofInt {i : Int} (h : c ∈ (Decimal.ofInt i).toList) : isIntChar c = true := by
  rw [isIntChar, Bool.or_eq_true, decide_eq_true_eq]
  rcases Decimal.mem_ofInt h with hsign | ⟨d, hd, rfl⟩
  · exact .inl hsign
  · exact .inr (Decimal.isDigit_digitChar hd)

theorem takeInt?_ofInt (i : Int) (h : ∀ c ∈ rest.head?, isIntChar c = false) :
    takeInt? ((Decimal.ofInt i).toList ++ rest) = some (i, rest) := by
  have hint : ∀ c ∈ (Decimal.ofInt i).toList, isIntChar c = true := fun c hc => isIntChar_of_mem_ofInt hc
  rw [takeInt?, Text.takeWhile_append_of_stop hint h, Text.dropWhile_append_of_stop hint h,
    String.ofList_toList, Decimal.int?_ofInt]
  rfl

theorem takeQuoted?_escape (c : Char) (rest : List Char) : takeQuoted? ('\\' :: c :: rest) =
    (takeQuoted? rest).map fun taken => (unescaped c :: taken.1, taken.2) := by
  rw [takeQuoted?, if_neg (by decide), if_pos rfl]

theorem takeQuoted?_plain (hquote : c ≠ '\'') (hslash : c ≠ '\\') (hrest : rest ≠ []) :
    takeQuoted? (c :: rest) = (takeQuoted? rest).map fun taken => (c :: taken.1, taken.2) := by
  cases rest with
  | nil => exact absurd rfl hrest
  | cons next more => rw [takeQuoted?, if_neg hquote, if_neg hslash]

/-- A quoted text ends at its own quote, whatever it holds. -/
theorem takeQuoted?_flatMap (cs rest : List Char) :
    takeQuoted? (cs.flatMap literalChar ++ '\'' :: rest) = some (cs, rest) := by
  induction cs with
  | nil =>
    cases rest with
    | nil => rfl
    | cons next more => rfl
  | cons c cs ih =>
    have hmore : cs.flatMap literalChar ++ '\'' :: rest ≠ [] := by simp
    rw [List.flatMap_cons, List.append_assoc]
    generalize cs.flatMap literalChar ++ '\'' :: rest = more at ih hmore ⊢
    have hescape : ∀ d, unescaped d = c → takeQuoted? (['\\', d] ++ more) = some (c :: cs, rest) := by
      intro d hd
      rw [List.cons_append, List.cons_append, List.nil_append, takeQuoted?_escape, ih, hd]
      rfl
    unfold literalChar
    split
    · rename_i hc
      exact hescape _ hc.symm
    split
    · rename_i hc
      exact hescape _ hc.symm
    split
    · rename_i hc
      exact hescape _ hc.symm
    split
    · rename_i hc
      exact hescape _ hc.symm
    split
    · rename_i hc
      have hnul : c = '\x00' := by
        rw [← Char.ofNat_toNat c, hc]
      exact hescape _ hnul.symm
    · rename_i hslash hquote _ _ _
      rw [List.singleton_append, takeQuoted?_plain hquote hslash hmore, ih]
      rfl

theorem newline_notMem_literal (s : String) : '\n' ∉ (literal s).toList := by
  have hchar : ∀ c, '\n' ∉ literalChar c := by
    intro c
    unfold literalChar
    split
    · decide
    split
    · decide
    split
    · decide
    split
    · decide
    split
    · decide
    · rename_i hline _ _
      intro hmem
      exact hline (List.mem_singleton.1 hmem).symm
  simp [literal, hchar]

theorem newline_notMem_ofInt (i : Int) : '\n' ∉ (Decimal.ofInt i).toList :=
  Decimal.notMem_ofInt (by decide) (by decide) i

theorem toNat_of_isWordChar (h : isWordChar c = true) :
    c = '.' ∨ 65 ≤ c.toNat ∧ c.toNat ≤ 90 ∨ 97 ≤ c.toNat ∧ c.toNat ≤ 122 := by
  unfold isWordChar Char.isAlpha Char.isUpper Char.isLower at h
  simp only [Bool.or_eq_true, Bool.and_eq_true, decide_eq_true_eq, ge_iff_le, UInt32.le_iff_toNat_le] at h
  rcases h with hletter | hdot
  · exact .inr hletter
  · exact .inl hdot

/-- A word begins with a character that begins nothing else. -/
theorem begins_of_isWordChar (h : isWordChar c = true) :
    c ≠ '\'' ∧ c ≠ '\x7b' ∧ c ≠ '#' ∧ c ≠ '(' ∧ isIntChar c = false := by
  refine ⟨?_, ?_, ?_, ?_, ?_⟩
  · rintro rfl
    exact absurd h (by decide)
  · rintro rfl
    exact absurd h (by decide)
  · rintro rfl
    exact absurd h (by decide)
  · rintro rfl
    exact absurd h (by decide)
  · rcases toNat_of_isWordChar h with rfl | hletter
    · decide
    · rw [isIntChar, Bool.or_eq_false_iff, decide_eq_false_iff_not]
      constructor
      · rintro rfl
        revert hletter
        decide
      · rw [Decimal.isDigit, Decimal.digit?, if_neg (by omega)]
        rfl

theorem begins_of_isIntChar (h : isIntChar c = true) : c ≠ '\'' ∧ c ≠ '\x7b' ∧ c ≠ '#' ∧ c ≠ '(' := by
  refine ⟨?_, ?_, ?_, ?_⟩
  all_goals
    rintro rfl
    exact absurd h (by decide)

theorem Stops.isIntChar (h : Stops rest) : ∀ c ∈ rest.head?, isIntChar c = false := by
  intro c hc
  rcases h c hc with rfl | rfl | rfl | rfl <;> decide

theorem Stops.isWordChar (h : Stops rest) : ∀ c ∈ rest.head?, isWordChar c = false := by
  intro c hc
  rcases h c hc with rfl | rfl | rfl | rfl <;> decide

theorem stops_nil : Stops [] := by
  intro c hc
  cases hc

theorem stops_cons (h : c = ')' ∨ c = ',' ∨ c = ' ' ∨ c = '\x7d') : Stops (c :: rest) := by
  intro d hd
  cases hd
  exact h

end Pieces

section Rules

variable {e : Expr} {es : List Expr} {text : String} {texts : List String}

theorem expr?_int {fuel : Nat} {rest : List Char} (i : Int) :
    expr? (fuel + 1) ((Decimal.ofInt i).toList ++ rest) =
      (takeInt? ((Decimal.ofInt i).toList ++ rest)).map fun found => (.int found.1, found.2) := by
  cases htext : (Decimal.ofInt i).toList with
  | nil =>
    have hread := Decimal.int?_ofInt i
    rw [Decimal.int?, htext] at hread
    cases hread
  | cons c cs =>
    have hc := isIntChar_of_mem_ofInt (htext ▸ List.mem_cons_self : c ∈ (Decimal.ofInt i).toList)
    obtain ⟨hquote, hbrace, hhash, hparen⟩ := begins_of_isIntChar hc
    rw [List.cons_append, expr?, if_neg hquote, if_neg hbrace, if_neg hhash, if_neg hparen, if_pos hc]

theorem expr?_word {fuel : Nat} {word : String} {rest : List Char} (hne : word ≠ "")
    (hword : ∀ c ∈ word.toList, isWordChar c = true) (hstop : ∀ c ∈ rest.head?, isWordChar c = false) :
    expr? (fuel + 1) (word.toList ++ rest) = word? (expr? fuel) fuel word rest := by
  have htake := Text.takeWhile_append_of_stop hword hstop
  have hdrop := Text.dropWhile_append_of_stop hword hstop
  cases htext : word.toList with
  | nil => exact absurd (String.toList_inj.1 htext) hne
  | cons c cs =>
    have hc := hword c (htext ▸ List.mem_cons_self)
    obtain ⟨hquote, hbrace, hhash, hparen, hint⟩ := begins_of_isWordChar hc
    rw [htext, List.cons_append] at htake hdrop
    rw [List.cons_append, expr?, if_neg hquote, if_neg hbrace, if_neg hhash, if_neg hparen,
      if_neg (by simp [hint]), if_pos hc, htake, hdrop, ← htext, String.ofList_toList]

theorem Reads.str (s : String) : Reads (.str s) (literal s) where
  oneLine := newline_notMem_literal s
  reads := by
    refine ⟨1, fun fuel hfuel rest _ => ?_⟩
    obtain ⟨fuel, rfl⟩ := Nat.exists_eq_add_of_le' hfuel
    have htext : (literal s).toList ++ rest = '\'' :: (s.toList.flatMap literalChar ++ '\'' :: rest) := by
      simp [literal]
    rw [htext, expr?, if_pos rfl, takeQuoted?_flatMap, Option.map_some, String.ofList_toList]

theorem Reads.int (i : Int) : Reads (.int i) (Decimal.ofInt i) where
  oneLine := newline_notMem_ofInt i
  reads := by
    refine ⟨1, fun fuel hfuel rest hrest => ?_⟩
    obtain ⟨fuel, rfl⟩ := Nat.exists_eq_add_of_le' hfuel
    rw [expr?_int, takeInt?_ofInt i hrest.isIntChar]
    rfl

theorem isWordChar_of_isAlpha {c : Char} (h : c.isAlpha = true) : isWordChar c = true := by
  rw [isWordChar, h]
  rfl

theorem newline_notMem_word {word : String} (h : ∀ c ∈ word.toList, isWordChar c = true) :
    '\n' ∉ word.toList := by
  intro hmem
  exact absurd (h _ hmem) (by decide)

/-- A word that nothing goes on with is read as `nil` or as a variable. -/
theorem word?_of_stops {read : List Char → Option (Expr × List Char)} {count : Nat} {word : String}
    {rest : List Char} (h : Stops rest) :
    word? read count word rest = some (if word = "nil" then .nil else .var word, rest) := by
  unfold word?
  split
  · rcases h _ rfl with heq | heq | heq | heq <;> exact absurd heq (by decide)
  · rcases h _ rfl with heq | heq | heq | heq <;> exact absurd heq (by decide)
  · rfl

theorem Reads.nil : Reads .nil "nil" where
  oneLine := by decide
  reads := by
    refine ⟨1, fun fuel hfuel rest hrest => ?_⟩
    obtain ⟨fuel, rfl⟩ := Nat.exists_eq_add_of_le' hfuel
    rw [expr?_word (by decide) (List.all_eq_true.1 (by decide)) hrest.isWordChar, word?_of_stops hrest, if_pos rfl]

theorem isWordChar_of_isName {name : String} (h : IsName name) :
    ∀ c ∈ name.toList, isWordChar c = true := by
  intro c hc
  exact isWordChar_of_isAlpha (h.2.1 c hc)

theorem Reads.var {name : String} (h : IsName name) : Reads (.var name) name where
  oneLine := newline_notMem_word (isWordChar_of_isName h)
  reads := by
    refine ⟨1, fun fuel hfuel rest hrest => ?_⟩
    obtain ⟨fuel, rfl⟩ := Nat.exists_eq_add_of_le' hfuel
    have hnil : name ≠ "nil" := by
      rintro rfl
      exact h.2.2 (by decide)
    rw [expr?_word h.1 (isWordChar_of_isName h) hrest.isWordChar, word?_of_stops hrest, if_neg hnil]

theorem Reads.param (n : Nat) : Reads (.param n) ("ARGV[" ++ Decimal.ofNat n ++ "]") where
  oneLine := by
    have hint := newline_notMem_ofInt (n : Int)
    rw [Decimal.ofInt_natCast] at hint
    simp [hint]
  reads := by
    refine ⟨1, fun fuel hfuel rest hrest => ?_⟩
    obtain ⟨fuel, rfl⟩ := Nat.exists_eq_add_of_le' hfuel
    have htext : ("ARGV[" ++ Decimal.ofNat n ++ "]").toList ++ rest =
        "ARGV".toList ++ '[' :: ((Decimal.ofInt n).toList ++ ([']'] ++ rest)) := by
      simp [Decimal.ofInt_natCast]
    have hbracket : ∀ c ∈ ([']'] ++ rest).head?, isIntChar c = false := by
      intro c hc
      cases hc
      decide
    have hopen : ∀ c ∈ ('[' :: ((Decimal.ofInt n).toList ++ ([']'] ++ rest))).head?,
        isWordChar c = false := by
      intro c hc
      cases hc
      decide
    rw [htext, expr?_word (by decide) (List.all_eq_true.1 (by decide)) hopen, word?, if_pos rfl,
      takeInt?_ofInt _ hbracket]
    simp only [Option.bind_eq_bind, Option.bind_some, after?_append]
    rfl

theorem Reads.field {map : String} (h : IsName map) (name : String) :
    Reads (.field map name) (map ++ "[" ++ literal name ++ "]") where
  oneLine := by simp [newline_notMem_word (isWordChar_of_isName h), newline_notMem_literal]
  reads := by
    refine ⟨1, fun fuel hfuel rest hrest => ?_⟩
    obtain ⟨fuel, rfl⟩ := Nat.exists_eq_add_of_le' hfuel
    have htext : (map ++ "[" ++ literal name ++ "]").toList ++ rest = map.toList ++
        '[' :: (['\''] ++ (name.toList.flatMap literalChar ++ '\'' :: ([']'] ++ rest))) := by
      simp [literal]
    have hopen : ∀ c ∈ ('[' :: (['\''] ++ (name.toList.flatMap literalChar ++ '\'' :: ([']'] ++ rest)))).head?,
        isWordChar c = false := by
      intro c hc
      cases hc
      decide
    have hargv : map ≠ "ARGV" := by
      rintro rfl
      exact h.2.2 (by decide)
    rw [htext, expr?_word h.1 (isWordChar_of_isName h) hopen, word?, if_neg hargv, after?_append]
    simp only [Option.bind_eq_bind, Option.bind_some, takeQuoted?_flatMap, after?_append,
      String.ofList_toList]

theorem Reads.len (h : Reads e text) : Reads (.len e) ("#" ++ text) where
  oneLine := by simp [h.oneLine]
  reads := by
    obtain ⟨need, hread⟩ := h.reads
    refine ⟨need + 1, fun fuel hfuel rest hrest => ?_⟩
    obtain ⟨fuel, rfl⟩ := Nat.exists_eq_add_of_le' (Nat.le_of_add_left_le hfuel)
    have htext : ("#" ++ text).toList ++ rest = '#' :: (text.toList ++ rest) := by simp
    rw [htext, expr?, if_neg (by decide), if_neg (by decide), if_pos rfl,
      hread fuel (by omega) rest hrest]
    rfl

/-! #### Parentheses -/

theorem isNot_of_tidy (h : e.Tidy) : isNot e = false := by
  cases e
  case var name =>
    rw [isNot, decide_eq_false_iff_not]
    rintro rfl
    exact h.2.2 (by decide)
  all_goals rfl

/-- Behind an open parenthesis the first operand is read, and then whatever follows it. -/
theorem expr?_paren {need fuel : Nat} {first rest : List Char} (hneed : need ≤ fuel)
    (hread : ∀ fuel, need ≤ fuel → ∀ rest, Stops rest → expr? fuel (first ++ rest) = some (e, rest))
    (hrest : Stops rest) :
    expr? (fuel + 1) ('(' :: (first ++ rest)) = group? (expr? fuel) fuel e rest := by
  rw [expr?, if_neg (by decide), if_neg (by decide), if_neg (by decide), if_pos rfl,
    hread fuel hneed rest hrest]
  rfl

theorem Reads.single (h : Reads e text) : Reads (.concat [e]) ("(" ++ text ++ ")") where
  oneLine := by simp [h.oneLine]
  reads := by
    obtain ⟨need, hread⟩ := h.reads
    refine ⟨need + 1, fun fuel hfuel rest hrest => ?_⟩
    obtain ⟨fuel, rfl⟩ := Nat.exists_eq_add_of_le' (Nat.le_of_add_left_le hfuel)
    have htext : ("(" ++ text ++ ")").toList ++ rest = '(' :: (text.toList ++ ')' :: rest) := by simp
    rw [htext, expr?_paren (by omega) hread (stops_cons (.inl rfl))]
    unfold group?
    split
    · rename_i heq
      cases heq
    · rename_i heq
      cases heq
      rcases hrest _ rfl with heq | heq | heq | heq <;> exact absurd heq (by decide)
    · rename_i heq
      cases heq
      rfl
    · rename_i hblank hbracket hclose
      exact absurd rfl (hclose rest)

theorem Reads.index (h : Reads e text) (place : Int) :
    Reads (.index e place) ("(" ++ text ++ ")[" ++ Decimal.ofInt place ++ "]") where
  oneLine := by simp [h.oneLine, newline_notMem_ofInt]
  reads := by
    obtain ⟨need, hread⟩ := h.reads
    refine ⟨need + 1, fun fuel hfuel rest hrest => ?_⟩
    obtain ⟨fuel, rfl⟩ := Nat.exists_eq_add_of_le' (Nat.le_of_add_left_le hfuel)
    have htext : ("(" ++ text ++ ")[" ++ Decimal.ofInt place ++ "]").toList ++ rest =
        '(' :: (text.toList ++ ')' :: '[' :: ((Decimal.ofInt place).toList ++ ([']'] ++ rest))) := by
      simp
    have hbracket : ∀ c ∈ ([']'] ++ rest).head?, isIntChar c = false := by
      intro c hc
      cases hc
      decide
    rw [htext, expr?_paren (by omega) hread (stops_cons (.inl rfl)), group?, takeInt?_ofInt _ hbracket]
    simp only [Option.bind_eq_bind, Option.bind_some, after?_append]

theorem Reads.not (h : Reads e text) : Reads (.not e) ("(not " ++ text ++ ")") where
  oneLine := by simp [h.oneLine]
  reads := by
    obtain ⟨need, hread⟩ := h.reads
    refine ⟨need + 2, fun fuel hfuel rest hrest => ?_⟩
    obtain ⟨fuel, rfl⟩ := Nat.exists_eq_add_of_le' hfuel
    have htext : ("(not " ++ text ++ ")").toList ++ rest =
        '(' :: ("not".toList ++ ' ' :: (text.toList ++ ([')'] ++ rest))) := by
      simp
    have hblank : Stops (' ' :: (text.toList ++ ([')'] ++ rest))) := stops_cons (.inr (.inr (.inl rfl)))
    have hword : ∀ fuel, 1 ≤ fuel → ∀ rest, Stops rest →
        expr? fuel ("not".toList ++ rest) = some (.var "not", rest) := by
      intro fuel hfuel rest hrest
      obtain ⟨fuel, rfl⟩ := Nat.exists_eq_add_of_le' hfuel
      rw [expr?_word (by decide) (List.all_eq_true.1 (by decide)) hrest.isWordChar, word?_of_stops hrest,
        if_neg (by decide)]
    have hoperand := hread (need + fuel + 1) (by omega) ([')'] ++ rest) (stops_cons (.inl rfl))
    have hfuels : fuel + (need + 2) = need + fuel + 1 + 1 := by omega
    rw [htext, hfuels, expr?_paren (by omega) hword hblank, group?, if_pos (by decide), hoperand]
    simp only [Option.bind_eq_bind, Option.bind_some, after?_append]

/-! #### Items -/

/-- Items are read one after another up to what closes the list. -/
theorem items?_joined {separator : String} {first close : Char} {tail : List Char}
    (hseparator : separator.toList = first :: tail) (hfirst : first = ',' ∨ first = ' ')
    (hclose : close = ')' ∨ close = '\x7d') (h : List.Forall₂ Reads es texts) (hne : es ≠ []) :
    ∃ need, ∀ fuel, need ≤ fuel → ∀ count, es.length ≤ count → ∀ rest,
      items? (expr? fuel) (first :: tail) count
        ((Text.joined separator texts).toList ++ close :: rest) = some (es, close :: rest) := by
  rw [← hseparator]
  have hstop : ∀ rest, Stops (close :: rest) := by
    intro rest
    rcases hclose with rfl | rfl
    · exact stops_cons (.inl rfl)
    · exact stops_cons (.inr (.inr (.inr rfl)))
  induction h with
  | nil => exact absurd rfl hne
  | @cons e text es texts he hes ih =>
    obtain ⟨need, hread⟩ := he.reads
    cases hes with
    | nil =>
      refine ⟨need, fun fuel hfuel count hcount rest => ?_⟩
      have hpositive : 1 ≤ count := hcount
      obtain ⟨count, rfl⟩ := Nat.exists_eq_add_of_le' hpositive
      have hlast : after? separator.toList (close :: rest) = none := by
        rw [hseparator]
        refine after?_eq_none fun c hc => ?_
        cases hc
        rcases hclose with rfl | rfl <;> rcases hfirst with rfl | rfl <;> decide
      rw [Text.joined, items?, hread fuel hfuel _ (hstop rest)]
      simp only [hlast]
    | @cons next nextText more moreTexts hnext hmore =>
      obtain ⟨others, hothers⟩ := ih (List.cons_ne_nil _ _)
      refine ⟨need + others, fun fuel hfuel count hcount rest => ?_⟩
      obtain ⟨count, rfl⟩ := Nat.exists_eq_add_of_le' (Nat.le_of_add_left_le hcount)
      have htext : (Text.joined separator (text :: nextText :: moreTexts)).toList ++ close :: rest =
          text.toList ++ (separator.toList ++
            ((Text.joined separator (nextText :: moreTexts)).toList ++ close :: rest)) := by
        simp [Text.joined_cons_cons]
      have hbetween : ∀ rest, Stops (separator.toList ++ rest) := by
        intro rest
        rw [hseparator]
        rcases hfirst with rfl | rfl
        · exact stops_cons (.inr (.inl rfl))
        · exact stops_cons (.inr (.inr (.inl rfl)))
      have hlength : (next :: more).length ≤ count := by
        simp only [List.length_cons] at hcount ⊢
        omega
      rw [htext, items?, hread fuel (by omega) _ (hbetween _)]
      simp only [after?_append]
      rw [hothers fuel (by omega) count hlength rest]
      rfl

theorem toList_comma : ", ".toList = [',', ' '] := rfl

theorem newline_notMem_texts (h : List.Forall₂ Reads es texts) : ∀ text ∈ texts, '\n' ∉ text.toList := by
  induction h with
  | nil => simp
  | cons he _ ih =>
    intro text htext
    rcases List.mem_cons.1 htext with rfl | hmore
    · exact he.oneLine
    · exact ih text hmore

/-- No expression begins with a brace that closes a table. -/
theorem Reads.begins (h : Reads e text) : ∀ rest : List Char, ∀ c ∈ (text.toList ++ rest).head?, c ≠ '\x7d' := by
  obtain ⟨need, hread⟩ := h.reads
  have hfront := hread (need + 1) (by omega) [] stops_nil
  rw [List.append_nil] at hfront
  intro rest c hc hbrace
  cases htext : text.toList with
  | nil =>
    rw [htext] at hfront
    cases hfront
  | cons d cs =>
    rw [htext] at hfront hc
    cases hc
    rw [hbrace] at hfront
    cases hfront

theorem Reads.table (h : List.Forall₂ Reads es texts) :
    Reads (.table es) ("\x7b" ++ Text.joined ", " texts ++ "\x7d") where
  oneLine := by
    have hitems : '\n' ∉ (Text.joined ", " texts).toList :=
      Text.notMem_joined (by decide) (newline_notMem_texts h)
    simp [hitems]
  reads := by
    have htext : ∀ rest, ("\x7b" ++ Text.joined ", " texts ++ "\x7d").toList ++ rest =
        '\x7b' :: ((Text.joined ", " texts).toList ++ '\x7d' :: rest) := by
      intro rest
      simp
    cases h with
    | nil =>
      refine ⟨1, fun fuel hfuel rest hrest => ?_⟩
      obtain ⟨fuel, rfl⟩ := Nat.exists_eq_add_of_le' hfuel
      rw [htext, expr?, if_neg (by decide), if_pos rfl]
      rfl
    | @cons e text es texts he hes =>
      obtain ⟨need, hread⟩ := items?_joined toList_comma (.inl rfl) (.inr rfl)
        (List.Forall₂.cons he hes) (List.cons_ne_nil e es)
      refine ⟨need + es.length + 2, fun fuel hfuel rest hrest => ?_⟩
      obtain ⟨fuel, rfl⟩ := Nat.exists_eq_add_of_le' (Nat.le_of_add_left_le hfuel)
      have hitems := hread (fuel + 1) (by omega) (fuel + 1) (by simp only [List.length_cons]; omega) rest
      have hopen : after? ['\x7d'] ((Text.joined ", " (text :: texts)).toList ++ '\x7d' :: rest) = none := by
        refine after?_eq_none ?_
        cases texts with
        | nil => exact he.begins _
        | cons next more =>
          rw [Text.joined_cons_cons, String.toList_append, String.toList_append, List.append_assoc,
            List.append_assoc]
          exact he.begins _
      rw [htext, expr?, if_neg (by decide), if_pos rfl, table?, hopen, hitems]
      simp only [Option.bind_eq_bind, Option.bind_some]
      rfl

/-- A word in front of parentheses is applied to the items in them. -/
theorem Reads.applied (function : String) (hne : function ≠ "")
    (hword : ∀ c ∈ function.toList, isWordChar c = true) (h : List.Forall₂ Reads es texts)
    (hes : es ≠ []) (happly : applied? function es = some e) :
    Reads e (function ++ "(" ++ Text.joined ", " texts ++ ")") where
  oneLine := by
    have hitems : '\n' ∉ (Text.joined ", " texts).toList :=
      Text.notMem_joined (by decide) (newline_notMem_texts h)
    simp [hitems, newline_notMem_word hword]
  reads := by
    obtain ⟨need, hread⟩ := items?_joined toList_comma (.inl rfl) (.inl rfl) h hes
    refine ⟨need + es.length + 1, fun fuel hfuel rest hrest => ?_⟩
    obtain ⟨fuel, rfl⟩ := Nat.exists_eq_add_of_le' (Nat.le_of_add_left_le hfuel)
    have htext : (function ++ "(" ++ Text.joined ", " texts ++ ")").toList ++ rest =
        function.toList ++ '(' :: ((Text.joined ", " texts).toList ++ ')' :: rest) := by
      simp
    have hopen : ∀ c ∈ ('(' :: ((Text.joined ", " texts).toList ++ ')' :: rest)).head?,
        isWordChar c = false := by
      intro c hc
      cases hc
      decide
    have hitems := hread fuel (by omega) fuel (by omega) rest
    rw [htext, expr?_word hne hword hopen, word?]
    simp only [hitems, Option.bind_eq_bind, Option.bind_some, happly]
    rfl

/-- Two operands at least, with an operator between neighbours, are combined by it. -/
theorem Reads.operation {operator : String} {first : Expr} (hblank : ' ' ∉ operator.toList)
    (hline : '\n' ∉ operator.toList) (hfirst : first.Tidy) (h : List.Forall₂ Reads (first :: es) texts)
    (hes : es ≠ []) (hcombine : combine? operator (first :: es) = some e) :
    Reads e (Expr.operation (" " ++ operator ++ " ") texts) where
  oneLine := by
    have hitems : '\n' ∉ (Text.joined (" " ++ operator ++ " ") texts).toList :=
      Text.notMem_joined (by simp [hline]) (newline_notMem_texts h)
    simp [Expr.operation, hitems]
  reads := by
    cases h with
    | @cons _ text _ texts hhead htail =>
      obtain ⟨need, hread⟩ := hhead.reads
      have hseparator : (" " ++ operator ++ " ").toList = ' ' :: (operator.toList ++ [' ']) := by simp
      obtain ⟨others, hothers⟩ := items?_joined hseparator (.inr rfl) (.inl rfl) htail hes
      refine ⟨need + others + es.length + 1, fun fuel hfuel rest hrest => ?_⟩
      obtain ⟨fuel, rfl⟩ := Nat.exists_eq_add_of_le' (Nat.le_of_add_left_le hfuel)
      have hitems := hothers fuel (by omega) fuel (by omega) rest
      generalize hmore : (Text.joined (" " ++ operator ++ " ") texts).toList ++ ')' :: rest = more at hitems
      have htext : (Expr.operation (" " ++ operator ++ " ") (text :: texts)).toList ++ rest =
          '(' :: (text.toList ++ ' ' :: (operator.toList ++ ' ' :: more)) := by
        rw [← hmore]
        cases htail with
        | nil => exact absurd rfl hes
        | cons => simp [Expr.operation, Text.joined_cons_cons]
      have hstop : ∀ c ∈ (' ' :: more).head?, decide (c ≠ ' ') = false := by
        intro c hc
        cases hc
        rfl
      have hword : ∀ c ∈ operator.toList, decide (c ≠ ' ') = true := by
        intro c hc
        rw [decide_eq_true_eq]
        rintro rfl
        exact hblank hc
      have hafter : after? (' ' :: (operator.toList ++ [' '])) (' ' :: (operator.toList ++ ' ' :: more)) =
          some more := by
        have hsplit : ' ' :: (operator.toList ++ ' ' :: more) =
            (' ' :: (operator.toList ++ [' '])) ++ more := by simp
        rw [hsplit, after?_append]
      rw [htext, expr?_paren (by omega) hread (stops_cons (.inr (.inr (.inl rfl)))), group?,
        if_neg (by simp [isNot_of_tidy hfirst]), Text.takeWhile_append_of_stop hword hstop]
      simp only [List.cons_append, hafter, hitems, Option.bind_eq_bind, Option.bind_some, String.ofList_toList, hcombine]
      rfl

end Rules

/-- The first of two operands or more, and the others. -/
theorem exists_cons_of_two {es : List Expr} (h : 2 ≤ es.length) :
    ∃ first more, es = first :: more ∧ more ≠ [] := by
  cases es with
  | nil => cases h
  | cons first more =>
    refine ⟨first, more, rfl, ?_⟩
    rintro rfl
    simp at h

end Reader

namespace Expr

open Reader

/-- With and without a journal, a command is read from its name. -/
theorem applied?_call {function : String} (h : function = "redis.call" ∨ function = "write")
    (command : Command) (args : List Expr) :
    applied? function (.str command.name :: args) = some (.call command args) := by
  rw [applied?, if_pos h, Command.ofName?_name]
  rfl

theorem reads_call (journal : Bool) (command : Command) {args : List Expr} {texts : List String}
    (h : List.Forall₂ Reads args texts) : Reads (.call command args) (callText journal command texts) := by
  have hitems : List.Forall₂ Reads (.str command.name :: args) (literal command.name :: texts) :=
    .cons (Reads.str _) h
  unfold callText
  split
  · exact Reads.applied "write" (by decide) (List.all_eq_true.1 (by decide)) hitems (List.cons_ne_nil _ _)
      (applied?_call (.inr rfl) command args)
  · exact Reads.applied "redis.call" (by decide) (List.all_eq_true.1 (by decide)) hitems (List.cons_ne_nil _ _)
      (applied?_call (.inl rfl) command args)

/-- A function of one argument. -/
theorem reads_function (function : String) {opening text : String} {e result : Expr}
    (hopening : opening = function ++ "(") (hne : function ≠ "")
    (hword : ∀ c ∈ function.toList, isWordChar c = true) (h : Reads e text)
    (happly : applied? function [e] = some result) : Reads result (opening ++ text ++ ")") := by
  rw [hopening]
  exact Reads.applied function hne hword (.cons h .nil) (List.cons_ne_nil _ _) happly

/-- An operator between two operands. -/
theorem reads_comparison (operator : String) {spaced text other : String} {a b result : Expr}
    (hspaced : spaced = " " ++ operator ++ " ") (hblank : ' ' ∉ operator.toList)
    (hline : '\n' ∉ operator.toList) (ha : a.Tidy) (h : Reads a text) (hb : Reads b other)
    (hcombine : combine? operator [a, b] = some result) :
    Reads result ("(" ++ text ++ spaced ++ other ++ ")") := by
  have htext : "(" ++ text ++ spaced ++ other ++ ")" =
      operation (" " ++ operator ++ " ") [text, other] := by
    simp [operation, Text.joined, hspaced, String.append_assoc]
  rw [htext]
  exact Reads.operation hblank hline ha (.cons h (.cons hb .nil)) (List.cons_ne_nil _ _) hcombine

/-- An operator between two operands or more. -/
theorem reads_chain (operator : String) {spaced : String} {es : List Expr} {texts : List String} {result : Expr}
    (hspaced : spaced = " " ++ operator ++ " ") (hblank : ' ' ∉ operator.toList)
    (hline : '\n' ∉ operator.toList) (htidy : TidyAll es) (htwo : 2 ≤ es.length)
    (h : List.Forall₂ Reads es texts) (hcombine : combine? operator es = some result) :
    Reads result (operation spaced texts) := by
  obtain ⟨first, more, rfl, hmore⟩ := exists_cons_of_two htwo
  rw [hspaced]
  exact Reads.operation hblank hline htidy.1 h hmore hcombine

theorem reads_concat {es : List Expr} {texts : List String} (htidy : TidyAll es) (hne : es ≠ [])
    (h : List.Forall₂ Reads es texts) : Reads (.concat es) (operation " .. " texts) := by
  cases h with
  | nil => exact absurd rfl hne
  | @cons e text more others hfirst hmore =>
    cases hmore with
    | nil => exact hfirst.single
    | cons hsecond hothers =>
      exact reads_chain ".." (by decide) (by decide) (by decide) htidy (by simp)
        (.cons hfirst (.cons hsecond hothers)) rfl

mutual

/-- A tidy expression is read back from its text. -/
theorem reads_text (journal : Bool) (e : Expr) (h : e.Tidy) : Reads e (e.text journal) := by
  cases e with
  | nil => exact Reads.nil
  | str s => exact Reads.str s
  | int i => exact Reads.int i
  | param n => exact Reads.param n
  | var name => exact Reads.var h
  | field map name => exact Reads.field h name
  | index e place => exact (reads_text journal e h).index place
  | concat parts => exact reads_concat h.2 h.1 (reads_texts journal parts h.2)
  | lower e =>
    exact reads_function "string.lower" (by decide) (by decide) (List.all_eq_true.1 (by decide))
      (reads_text journal e h) rfl
  | escape e =>
    exact reads_function "escape" (by decide) (by decide) (List.all_eq_true.1 (by decide))
      (reads_text journal e h) rfl
  | toMap e =>
    exact reads_function "toMap" (by decide) (by decide) (List.all_eq_true.1 (by decide))
      (reads_text journal e h) rfl
  | sortIds e =>
    exact reads_function "sortIds" (by decide) (by decide) (List.all_eq_true.1 (by decide))
      (reads_text journal e h) rfl
  | call command args => exact reads_call journal command (reads_texts journal args h)
  | table items => exact Reads.table (reads_texts journal items h)
  | len e => exact (reads_text journal e h).len
  | eq a b =>
    exact reads_comparison "==" (by decide) (by decide) (by decide) h.1
      (reads_text journal a h.1) (reads_text journal b h.2) rfl
  | ne a b =>
    exact reads_comparison "~=" (by decide) (by decide) (by decide) h.1
      (reads_text journal a h.1) (reads_text journal b h.2) rfl
  | gt a b =>
    exact reads_comparison ">" (by decide) (by decide) (by decide) h.1
      (reads_text journal a h.1) (reads_text journal b h.2) rfl
  | and items =>
    exact reads_chain "and" (by decide) (by decide) (by decide) h.2 h.1
      (reads_texts journal items h.2) rfl
  | or items =>
    exact reads_chain "or" (by decide) (by decide) (by decide) h.2 h.1
      (reads_texts journal items h.2) rfl
  | not e => exact (reads_text journal e h).not

theorem reads_texts (journal : Bool) (es : List Expr) (h : TidyAll es) :
    List.Forall₂ Reads es (texts journal es) := by
  cases es with
  | nil => exact .nil
  | cons e es => exact .cons (reads_text journal e h.1) (reads_texts journal es h.2)

end

end Expr

end DocStore.Script

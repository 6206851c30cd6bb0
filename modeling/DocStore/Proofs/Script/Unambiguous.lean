import DocStore.Script.Compiled
import DocStore.Proofs.Layout.Slots
import DocStore.Proofs.Script.ReadBack

/-!
A script is determined by its text.

The text falls into lines, since no line has a line end inside. Line by line the statements are read back:
what stands further in belongs to the statement above. So programs that can be read back (`Program.Tidy`)
are equal if their texts are, and two of them with one digest are equal unless their texts collide.
-/

namespace DocStore.Script

namespace Reader

variable {e : Expr} {s : Stmt} {ss yes no body : List Stmt} {name text line : String}
  {lines rest inside other : List String} {opening : Opening}

/-! ### First lines -/

/-- The first line of a statement holds no line end, and says what the statement is. -/
structure Opens (line : String) (opening : Opening) : Prop where
  oneLine : '\n' ∉ line.toList
  opens : ∃ need, ∀ fuel, need ≤ fuel → opening? fuel line.toList = some opening

/-- An expression is read behind the text in front of it. -/
theorem Reads.value? (h : Reads e text) (front : String) : ∃ need, ∀ fuel, need ≤ fuel →
    ∀ rest, Stops rest → value? fuel front (front.toList ++ (text.toList ++ rest)) = some e := by
  obtain ⟨need, hread⟩ := h.reads
  refine ⟨need, fun fuel hfuel rest hrest => ?_⟩
  rw [Reader.value?, after?_append]
  simp only [Option.bind_eq_bind, Option.bind_some, hread fuel hfuel rest hrest]

theorem stop_of_any {cs : List Char} (h : cs.head?.any isWordChar = false) :
    ∀ c ∈ cs.head?, isWordChar c = false := by
  intro c hc
  rw [Option.mem_def.1 hc] at h
  exact h

/-- The first word of a line ends where no more letters come. -/
theorem opening?_append {fuel : Nat} {word : String} {cs : List Char}
    (hword : ∀ c ∈ word.toList, isWordChar c = true) (hstop : cs.head?.any isWordChar = false) :
    opening? fuel (word.toList ++ cs) = statement? fuel word cs := by
  rw [opening?, Text.takeWhile_append_of_stop hword (stop_of_any hstop),
    Text.dropWhile_append_of_stop hword (stop_of_any hstop), String.ofList_toList]

/-- Names mean nothing else. -/
theorem ne_of_isName {word : String} (h : IsName name) (hword : word ∈ reserved ∨ '.' ∈ word.toList) :
    name ≠ word := by
  rintro rfl
  rcases hword with hreserved | hdot
  · exact h.2.2 hreserved
  · exact absurd (h.2.1 '.' hdot) (by decide)

/-- A line that declares a variable, which may be the one of an abort. -/
theorem opens_local (hname : ∀ c ∈ name.toList, isWordChar c = true) (h : Reads e text) :
    Opens ("local " ++ name ++ " = " ++ text) (declared name e) where
  oneLine := by simp [newline_notMem_word hname, h.oneLine]
  opens := by
    obtain ⟨need, hvalue⟩ := h.value? " = "
    refine ⟨need, fun fuel hfuel => ?_⟩
    have htext : ("local " ++ name ++ " = " ++ text).toList =
        "local".toList ++ ([' '] ++ (name.toList ++ (" = ".toList ++ (text.toList ++ [])))) := by simp
    have hstop : ∀ c ∈ (" = ".toList ++ (text.toList ++ [])).head?, isWordChar c = false :=
      stop_of_any rfl
    rw [htext, opening?_append (List.all_eq_true.1 (by decide)) rfl, statement?, if_neg (by decide),
      if_neg (by decide), if_neg (by decide), if_pos rfl, after?_append]
    simp only [Option.bind_eq_bind, Option.bind_some, Text.takeWhile_append_of_stop hname hstop,
      Text.dropWhile_append_of_stop hname hstop, hvalue fuel hfuel [] stops_nil, String.ofList_toList]

theorem opens_declare (hname : IsName name) (h : Reads e text) :
    Opens ("local " ++ name ++ " = " ++ text) (.whole (.declare name e)) := by
  have hopens := opens_local (isWordChar_of_isName hname) h
  rwa [declared, if_neg (ne_of_isName hname (.inl (by decide)))] at hopens

theorem opens_aborted (h : Reads e text) : Opens ("local aborted = " ++ text) (.aborted e) :=
  have hword : ∀ c ∈ "aborted".toList, isWordChar c = true := List.all_eq_true.1 (by decide)
  opens_local hword h

theorem opens_push (hname : IsName name) (h : Reads e text) :
    Opens ("table.insert(" ++ name ++ ", " ++ text ++ ")") (.whole (.push name e)) where
  oneLine := by simp [newline_notMem_word (isWordChar_of_isName hname), h.oneLine]
  opens := by
    obtain ⟨need, hvalue⟩ := h.value? ", "
    refine ⟨need, fun fuel hfuel => ?_⟩
    have htext : ("table.insert(" ++ name ++ ", " ++ text ++ ")").toList =
        "table.insert".toList ++ (['('] ++ (name.toList ++ (", ".toList ++ (text.toList ++ [')'])))) := by
      simp
    have hstop : ∀ c ∈ (", ".toList ++ (text.toList ++ [')'])).head?, isWordChar c = false :=
      stop_of_any rfl
    have hletters := isWordChar_of_isName hname
    rw [htext, opening?_append (List.all_eq_true.1 (by decide)) rfl, statement?, if_neg (by decide),
      if_neg (by decide), if_neg (by decide), if_neg (by decide), if_pos rfl, after?_append]
    simp only [Option.bind_eq_bind, Option.bind_some, Text.takeWhile_append_of_stop hletters hstop,
      Text.dropWhile_append_of_stop hletters hstop, hvalue fuel hfuel [')'] (stops_cons (.inl rfl)),
      String.ofList_toList]

theorem opens_branch (h : Reads e text) : Opens ("if " ++ text ++ " then") (.branch e) where
  oneLine := by simp [h.oneLine]
  opens := by
    obtain ⟨need, hvalue⟩ := h.value? " "
    refine ⟨need, fun fuel hfuel => ?_⟩
    have htext : ("if " ++ text ++ " then").toList =
        "if".toList ++ (" ".toList ++ (text.toList ++ " then".toList)) := by simp
    have hthen : Stops " then".toList := by simp [Stops]
    rw [htext, opening?_append (List.all_eq_true.1 (by decide)) rfl, statement?, if_neg (by decide), if_pos rfl,
      hvalue fuel hfuel _ hthen]
    rfl

theorem opens_returned (h : Reads e text) : Opens ("return " ++ text) (.whole (returned e)) where
  oneLine := by simp [h.oneLine]
  opens := by
    obtain ⟨need, hvalue⟩ := h.value? " "
    refine ⟨need, fun fuel hfuel => ?_⟩
    have htext : ("return " ++ text).toList = "return".toList ++ (" ".toList ++ (text.toList ++ [])) := by
      simp
    rw [htext, opening?_append (List.all_eq_true.1 (by decide)) rfl, statement?, if_neg (by decide),
      if_neg (by decide), if_pos rfl, hvalue fuel hfuel [] stops_nil]
    rfl

theorem opening?_do (fuel : Nat) : opening? fuel "do".toList = some .block := rfl

theorem opens_call (journal : Bool) (command : Command) {args : List Expr} {texts : List String}
    (h : List.Forall₂ Reads args texts) :
    Opens (Expr.callText journal command texts) (.whole (.call command args)) where
  oneLine := (Expr.reads_call journal command h).oneLine
  opens := by
    obtain ⟨need, hvalue⟩ := (Expr.reads_call journal command h).value? ""
    refine ⟨need, fun fuel hfuel => ?_⟩
    have hfront : ∃ function cs, (function = "redis.call" ∨ function = "write") ∧
        (Expr.callText journal command texts).toList = function.toList ++ '(' :: cs := by
      unfold Expr.callText
      split
      · exact ⟨"write", _, .inr rfl, by simp; rfl⟩
      · exact ⟨"redis.call", _, .inl rfl, by simp; rfl⟩
    obtain ⟨function, cs, hfunction, htext⟩ := hfront
    have hword : ∀ c ∈ function.toList, isWordChar c = true := by
      rcases hfunction with rfl | rfl <;> exact List.all_eq_true.1 (by decide)
    have hdiffer : function ≠ "do" ∧ function ≠ "if" ∧ function ≠ "return" ∧ function ≠ "local" ∧
        function ≠ "table.insert" := by
      rcases hfunction with rfl | rfl <;> decide
    have hread := hvalue fuel hfuel [] stops_nil
    rw [List.append_nil, htext] at hread
    rw [htext, opening?_append hword rfl, statement?, if_neg hdiffer.1,
      if_neg hdiffer.2.1, if_neg hdiffer.2.2.1, if_neg hdiffer.2.2.2.1, if_neg hdiffer.2.2.2.2,
      if_pos hfunction]
    exact congrArg (Option.bind · called?) hread

/-- A line that begins with a name is an assignment. -/
theorem statement?_name {fuel : Nat} {cs : List Char} (hname : IsName name) :
    statement? fuel name cs = assigned? fuel name cs := by
  have hcall : ¬(name = "redis.call" ∨ name = "write") := by
    rintro (heq | heq)
    · exact ne_of_isName hname (.inr (by decide)) heq
    · exact ne_of_isName hname (.inl (by decide)) heq
  rw [statement?, if_neg (ne_of_isName hname (.inl (by decide))),
    if_neg (ne_of_isName hname (.inl (by decide))), if_neg (ne_of_isName hname (.inl (by decide))),
    if_neg (ne_of_isName hname (.inl (by decide))), if_neg (ne_of_isName hname (.inr (by decide))),
    if_neg hcall]

theorem opens_assign (hname : IsName name) (h : Reads e text) :
    Opens (name ++ " = " ++ text) (.whole (.assign name e)) where
  oneLine := by simp [newline_notMem_word (isWordChar_of_isName hname), h.oneLine]
  opens := by
    obtain ⟨need, hvalue⟩ := h.value? " = "
    refine ⟨need, fun fuel hfuel => ?_⟩
    have htext : (name ++ " = " ++ text).toList =
        name.toList ++ (" = ".toList ++ (text.toList ++ [])) := by simp
    have hfield : after? ['[', '\''] (" = ".toList ++ (text.toList ++ [])) = none := rfl
    rw [htext, opening?_append (isWordChar_of_isName hname) rfl,
      statement?_name hname, assigned?, hfield]
    simp only [Option.bind_eq_bind, hvalue fuel hfuel [] stops_nil, Option.bind_some]

theorem opens_setField (hname : IsName name) (key : String) (h : Reads e text) :
    Opens (name ++ "[" ++ literal key ++ "] = " ++ text) (.whole (.setField name key e)) where
  oneLine := by
    simp [newline_notMem_word (isWordChar_of_isName hname), newline_notMem_literal, h.oneLine]
  opens := by
    obtain ⟨need, hvalue⟩ := h.value? "] = "
    refine ⟨need, fun fuel hfuel => ?_⟩
    have htext : (name ++ "[" ++ literal key ++ "] = " ++ text).toList = name.toList ++ (['[', '\''] ++
        (key.toList.flatMap literalChar ++ '\'' :: ("] = ".toList ++ (text.toList ++ [])))) := by
      simp [literal]
    rw [htext, opening?_append (isWordChar_of_isName hname) rfl,
      statement?_name hname, assigned?, after?_append]
    simp only [Option.bind_eq_bind, takeQuoted?_flatMap, Option.bind_some,
      hvalue fuel hfuel [] stops_nil, String.ofList_toList]

/-! ### Bodies -/

/-- The lines of statements hold no line ends, and the statements are read back from them. -/
structure ReadsBody (lines : List String) (body : List Stmt) : Prop where
  oneLine : ∀ line ∈ lines, '\n' ∉ line.toList
  reads : ∃ need, ∀ fuel, need ≤ fuel → body? fuel (lines.map String.toList) = some body

theorem toList_indented (lines : List String) :
    (Stmt.indented lines).map String.toList = lines.map fun line => ' ' :: ' ' :: line.toList := by
  simp [Stmt.indented]

/-- The lines inside a statement end at the first one that stands no further in. -/
theorem inner_outer {closing : List Char} (hclosing : isIndented closing = false) (lines : List String)
    (after : List (List Char)) :
    inner ((Stmt.indented lines).map String.toList ++ closing :: after) = lines.map String.toList ∧
      outer ((Stmt.indented lines).map String.toList ++ closing :: after) = closing :: after := by
  have hindented : ∀ line ∈ (Stmt.indented lines).map String.toList, isIndented line = true := by
    intro line hline
    rw [toList_indented] at hline
    obtain ⟨text, -, rfl⟩ := List.mem_map.1 hline
    rfl
  have hstop : ∀ line ∈ (closing :: after).head?, isIndented line = false := by
    intro line hline
    cases hline
    exact hclosing
  rw [inner, outer, Text.takeWhile_append_of_stop hindented hstop,
    Text.dropWhile_append_of_stop hindented hstop, toList_indented, List.map_map]
  exact ⟨rfl, rfl⟩

theorem not_isIndented_end : isIndented "end".toList = false := by decide

theorem not_isIndented_else : isIndented "else".toList = false := by decide

theorem newline_notMem_indented (h : ∀ line ∈ lines, '\n' ∉ line.toList) :
    ∀ line ∈ Stmt.indented lines, '\n' ∉ line.toList := by
  intro line hline
  obtain ⟨text, htext, rfl⟩ := List.mem_map.1 hline
  simp [h text htext]

theorem ReadsBody.nil : ReadsBody [] [] where
  oneLine := by simp
  reads := ⟨0, fun fuel _ => by cases fuel <;> rfl⟩

theorem ReadsBody.whole (h : Opens line (.whole s)) (hrest : ReadsBody rest ss) :
    ReadsBody (line :: rest) (s :: ss) where
  oneLine := by
    rw [List.forall_mem_cons]
    exact ⟨h.oneLine, hrest.oneLine⟩
  reads := by
    obtain ⟨need, hopen⟩ := h.opens
    obtain ⟨more, hmore⟩ := hrest.reads
    refine ⟨need + more + 1, fun fuel hfuel => ?_⟩
    obtain ⟨fuel, rfl⟩ := Nat.exists_eq_add_of_le' (Nat.le_of_add_left_le hfuel)
    rw [List.map_cons, body?, hopen fuel (by omega)]
    simp only [hmore fuel (by omega), Option.map_some]

theorem ReadsBody.aborted (h : Opens line (.aborted e)) (hrest : ReadsBody rest ss) :
    ReadsBody (line :: "rollback()" :: "return aborted" :: rest) (.abort e :: ss) where
  oneLine := by
    simp only [List.forall_mem_cons]
    exact ⟨h.oneLine, by decide, by decide, hrest.oneLine⟩
  reads := by
    obtain ⟨need, hopen⟩ := h.opens
    obtain ⟨more, hmore⟩ := hrest.reads
    refine ⟨need + more + 1, fun fuel hfuel => ?_⟩
    obtain ⟨fuel, rfl⟩ := Nat.exists_eq_add_of_le' (Nat.le_of_add_left_le hfuel)
    rw [List.map_cons, body?, hopen fuel (by omega)]
    simp only [List.map_cons, List.drop_succ_cons, List.drop_zero, hmore fuel (by omega),
      Option.map_some]

theorem ReadsBody.block (hbody : ReadsBody lines body) (hrest : ReadsBody rest ss) :
    ReadsBody ("do" :: Stmt.indented lines ++ ["end"] ++ rest) (.block body :: ss) where
  oneLine := by
    intro line hline
    simp only [List.cons_append, List.append_assoc, List.mem_cons, List.mem_append, List.nil_append] at hline
    rcases hline with rfl | hinside | rfl | hafter
    · decide
    · exact newline_notMem_indented hbody.oneLine line hinside
    · decide
    · exact hrest.oneLine line hafter
  reads := by
    obtain ⟨need, hinside⟩ := hbody.reads
    obtain ⟨more, hmore⟩ := hrest.reads
    refine ⟨need + more + 1, fun fuel hfuel => ?_⟩
    obtain ⟨fuel, rfl⟩ := Nat.exists_eq_add_of_le' (Nat.le_of_add_left_le hfuel)
    have hlines : ("do" :: Stmt.indented lines ++ ["end"] ++ rest).map String.toList = "do".toList ::
        ((Stmt.indented lines).map String.toList ++ "end".toList :: rest.map String.toList) := by simp
    obtain ⟨hinner, houter⟩ := inner_outer not_isIndented_end lines (rest.map String.toList)
    rw [hlines, body?]
    simp only [opening?_do, hinner, houter, List.drop_succ_cons, List.drop_zero, Option.bind_eq_bind,
      hinside fuel (by omega), hmore fuel (by omega), Option.bind_some, Option.map_some]

theorem ReadsBody.when (h : Opens line (.branch e)) (hyes : ReadsBody lines yes)
    (hrest : ReadsBody rest ss) :
    ReadsBody (line :: Stmt.indented lines ++ [] ++ ["end"] ++ rest) (.branch e yes [] :: ss) where
  oneLine := by
    intro other hother
    simp only [List.cons_append, List.append_assoc, List.mem_cons, List.mem_append, List.nil_append] at hother
    rcases hother with rfl | hinside | rfl | hafter
    · exact h.oneLine
    · exact newline_notMem_indented hyes.oneLine other hinside
    · decide
    · exact hrest.oneLine other hafter
  reads := by
    obtain ⟨need, hopen⟩ := h.opens
    obtain ⟨within, hinside⟩ := hyes.reads
    obtain ⟨more, hmore⟩ := hrest.reads
    refine ⟨need + within + more + 1, fun fuel hfuel => ?_⟩
    obtain ⟨fuel, rfl⟩ := Nat.exists_eq_add_of_le' (Nat.le_of_add_left_le hfuel)
    have hlines : (line :: Stmt.indented lines ++ [] ++ ["end"] ++ rest).map String.toList = line.toList ::
        ((Stmt.indented lines).map String.toList ++ "end".toList :: rest.map String.toList) := by simp
    obtain ⟨hinner, houter⟩ := inner_outer not_isIndented_end lines (rest.map String.toList)
    have hend : ¬some "end".toList = some "else".toList := by decide
    rw [hlines, body?, hopen fuel (by omega)]
    simp only [hinner, houter, List.drop_succ_cons, List.drop_zero, List.head?_cons, if_neg hend,
      Option.bind_eq_bind, hinside fuel (by omega), hmore fuel (by omega), Option.bind_some,
      Option.map_some]

theorem ReadsBody.either (h : Opens line (.branch e)) (hyes : ReadsBody lines yes)
    (hno : ReadsBody other no) (hrest : ReadsBody rest ss) :
    ReadsBody (line :: Stmt.indented lines ++ ("else" :: Stmt.indented other) ++ ["end"] ++ rest)
      (.branch e yes no :: ss) where
  oneLine := by
    intro text htext
    simp only [List.cons_append, List.append_assoc, List.mem_cons, List.mem_append, List.nil_append] at htext
    rcases htext with rfl | hinside | rfl | hotherwise | rfl | hafter
    · exact h.oneLine
    · exact newline_notMem_indented hyes.oneLine text hinside
    · decide
    · exact newline_notMem_indented hno.oneLine text hotherwise
    · decide
    · exact hrest.oneLine text hafter
  reads := by
    obtain ⟨need, hopen⟩ := h.opens
    obtain ⟨within, hinside⟩ := hyes.reads
    obtain ⟨apart, hotherwise⟩ := hno.reads
    obtain ⟨more, hmore⟩ := hrest.reads
    refine ⟨need + within + apart + more + 1, fun fuel hfuel => ?_⟩
    obtain ⟨fuel, rfl⟩ := Nat.exists_eq_add_of_le' (Nat.le_of_add_left_le hfuel)
    have hlines : (line :: Stmt.indented lines ++ ("else" :: Stmt.indented other) ++ ["end"] ++
          rest).map String.toList =
        line.toList :: ((Stmt.indented lines).map String.toList ++ "else".toList ::
          ((Stmt.indented other).map String.toList ++ "end".toList :: rest.map String.toList)) := by
      simp
    obtain ⟨hinner, houter⟩ := inner_outer not_isIndented_else lines
      ((Stmt.indented other).map String.toList ++ "end".toList :: rest.map String.toList)
    obtain ⟨hinner', houter'⟩ := inner_outer not_isIndented_end other (rest.map String.toList)
    rw [hlines, body?, hopen fuel (by omega)]
    simp only [hinner, houter, hinner', houter', List.drop_succ_cons, List.drop_zero, List.head?_cons,
      if_true, Option.bind_eq_bind, hinside fuel (by omega), hotherwise fuel (by omega),
      hmore fuel (by omega), Option.bind_some, Option.map_some]

end Reader

namespace Stmt

open Reader

mutual

/-- A tidy statement is read back from its lines. -/
theorem readsBody_lines (journal : Bool) (s : Stmt) (h : s.Tidy) {rest : List String} {ss : List Stmt}
    (hrest : ReadsBody rest ss) : ReadsBody (s.lines journal ++ rest) (s :: ss) := by
  cases s with
  | declare name e => exact .whole (opens_declare h.1 (e.reads_text journal h.2)) hrest
  | assign name e => exact .whole (opens_assign h.1 (e.reads_text journal h.2)) hrest
  | setField map name e => exact .whole (opens_setField h.1 name (e.reads_text journal h.2)) hrest
  | push list e => exact .whole (opens_push h.1 (e.reads_text journal h.2)) hrest
  | call command args => exact .whole (opens_call journal command (Expr.reads_texts journal args h)) hrest
  | branch condition yes no =>
    obtain ⟨hcondition, hyes, hno⟩ := h
    have hopen := opens_branch (condition.reads_text journal hcondition)
    have hfirst := readsBody_linesAll journal yes hyes
    have hsecond := readsBody_linesAll journal no hno
    cases no with
    | nil => exact .when hopen hfirst hrest
    | cons s ss => exact .either hopen hfirst hsecond hrest
  | finish e =>
    obtain ⟨htidy, name, rfl⟩ := h
    exact .whole (opens_returned (Expr.reads_text journal (.var name) htidy)) hrest
  | abort e =>
    obtain ⟨htidy, items, rfl⟩ := h
    have hread := Expr.reads_text journal (.table items) htidy
    cases journal with
    | true => exact .aborted (opens_aborted hread) hrest
    | false => exact .whole (opens_returned hread) hrest
  | block body => exact .block (readsBody_linesAll journal body h) hrest

theorem readsBody_linesAll (journal : Bool) (ss : List Stmt) (h : TidyAll ss) :
    ReadsBody (linesAll journal ss) ss := by
  cases ss with
  | nil => exact .nil
  | cons s ss => exact readsBody_lines journal s h.1 (readsBody_linesAll journal ss h.2)

end

end Stmt

/-! ### Programs -/

theorem toList_joinLines (lines : List String) :
    (joinLines lines).toList = lines.flatMap fun line => line.toList ++ ['\n'] := by
  induction lines with
  | nil => rfl
  | cons line rest ih =>
    rw [joinLines] at ih ⊢
    rw [List.map_cons, String.join_cons, String.toList_append, ih, List.flatMap_cons,
      String.toList_append]
    rfl

/-- Lines without line ends can be told apart again. -/
theorem joinLines_injective {lines others : List String} (h : ∀ line ∈ lines, '\n' ∉ line.toList)
    (hothers : ∀ line ∈ others, '\n' ∉ line.toList) (heq : joinLines lines = joinLines others) :
    lines = others := by
  have hlists := congrArg String.toList heq
  rw [toList_joinLines, toList_joinLines] at hlists
  clear heq
  induction lines generalizing others with
  | nil =>
    cases others with
    | nil => rfl
    | cons other more => simp at hlists
  | cons line rest ih =>
    cases others with
    | nil => simp at hlists
    | cons other more =>
      rw [List.forall_mem_cons] at h hothers
      simp only [List.flatMap_cons, List.append_assoc, List.singleton_append] at hlists
      obtain ⟨hline, hrest⟩ := Layout.eq_of_append_cons_eq h.1 hothers.1 hlists
      rw [String.toList_inj.1 hline, ih h.2 hothers.2 hrest]

namespace Program

variable {program other : Program}

/-- A program does not begin as the routines of a journal do. -/
theorem bodyText_ne_journalRoutines (h : program.Tidy) (more : String) :
    program.bodyText ≠ joinLines journalRoutines ++ more := by
  obtain ⟨htidy, name, e, rest, hbody⟩ := h
  have hname : IsName name := by
    rw [hbody] at htidy
    exact htidy.1.1
  have hline : '\n' ∉ ("local " ++ name ++ " = " ++ e.text program.journal).toList := by
    have hlines := (Stmt.readsBody_linesAll program.journal program.body htidy).oneLine
    rw [hbody] at hlines
    exact hlines _ List.mem_cons_self
  intro heq
  have hlists := congrArg String.toList heq
  rw [bodyText, hbody, Stmt.linesAll, Stmt.lines, journalRoutines, String.toList_append, toList_joinLines,
    toList_joinLines, List.cons_append, List.flatMap_cons, List.flatMap_cons] at hlists
  simp only [List.append_assoc, List.singleton_append] at hlists
  have hfirst := (Layout.eq_of_append_cons_eq hline (by decide) hlists).1
  have hchars : "local ".toList ++ (name.toList ++ (" = ".toList ++ (e.text program.journal).toList)) =
      "local ".toList ++ ("undo".toList ++ (" = ".toList ++ ['\x7b', '\x7d'])) := by
    simpa using hfirst
  -- The name ends where its letters end, on either side.
  have hwords := congrArg (List.takeWhile Reader.isWordChar) (List.append_cancel_left hchars)
  rw [Text.takeWhile_append_of_stop (Reader.isWordChar_of_isName hname) (Reader.stop_of_any rfl),
    Text.takeWhile_append_of_stop (List.all_eq_true.1 (by decide)) (Reader.stop_of_any rfl)] at hwords
  exact Reader.ne_of_isName hname (.inl (by decide)) (String.toList_inj.1 hwords)

/-- The statements of a tidy program are determined by their text. -/
theorem body_eq_of_bodyText_eq (h : program.Tidy) (hother : other.Tidy)
    (heq : program.bodyText = other.bodyText) : program.body = other.body := by
  have hfirst := Stmt.readsBody_linesAll program.journal program.body h.1
  have hsecond := Stmt.readsBody_linesAll other.journal other.body hother.1
  have hlines := joinLines_injective hfirst.oneLine hsecond.oneLine heq
  obtain ⟨need, hread⟩ := hfirst.reads
  obtain ⟨enough, hagain⟩ := hsecond.reads
  have hboth := hagain (need + enough) (by omega)
  rw [← hlines, hread (need + enough) (by omega)] at hboth
  exact Option.some.inj hboth

/-- Programs that can be read back are equal if their texts are. -/
theorem eq_of_text_eq (h : program.Tidy) (hother : other.Tidy) (heq : program.text = other.text) :
    program = other := by
  rw [text, text, String.append_assoc, String.append_assoc] at heq
  have hrest := (String.append_right_inj _).1 heq
  have hjournal : program.journal = other.journal := by
    cases hfirst : program.journal <;> cases hsecond : other.journal
    · rfl
    · rw [hfirst, hsecond, if_neg (by decide), if_pos rfl, String.empty_append] at hrest
      exact absurd hrest (bodyText_ne_journalRoutines h _)
    · rw [hfirst, hsecond, if_pos rfl, if_neg (by decide), String.empty_append] at hrest
      exact absurd hrest.symm (bodyText_ne_journalRoutines hother _)
    · rfl
  rw [hjournal] at hrest
  have hbody := body_eq_of_bodyText_eq h hother ((String.append_right_inj _).1 hrest)
  obtain ⟨body, journal⟩ := program
  simp only at hjournal hbody
  rw [hjournal, hbody]

end Program

end DocStore.Script

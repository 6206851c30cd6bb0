import DocStore.Field.Codec
import DocStore.Script.Value
import DocStore.Proofs.Layout.Slots
import Mathlib.Data.List.Induction

/-!
What stored texts look like, and that joined texts can be told apart again.

Free text can be anything. Every other kind leaves texts without a colon, but for dates, which are `null` or
have two colons well inside. Once the colons of each text are doubled, texts of these kinds can be read
back from either end of a text that joins them by single colons. So one part of free text among them does
no harm: it is what remains in the middle.
-/

namespace DocStore

open DocStore.Script DocStore.Layout

/-- The stored text as an index takes it: without regard to case where the field says so. -/
def IndexField.cased (field : IndexField) (text : String) : String :=
  if field.caseInsensitive then Text.lowercase text else text

/-- Three parts without a colon, with a gap between neighbours; the outer ones have two characters at
least. -/
def Clocked (gap cs : List Char) : Prop :=
  ∃ first middle last, ':' ∉ first ∧ ':' ∉ middle ∧ ':' ∉ last ∧ 2 ≤ first.length ∧ 2 ≤ last.length ∧
    cs = first ++ (gap ++ (middle ++ (gap ++ last)))

/-- How the texts look that a field of this kind can hold, if each of their colons is written as a gap. -/
def FieldKind.Shapes (gap : List Char) : FieldKind → List Char → Prop
  | .string, _ => True
  | .date, cs => cs = [nullChar] ∨ Clocked gap cs
  | .int, cs | .boolean, cs | .timestamp, cs => ':' ∉ cs

section Texts

theorem colon_notMem_ofInt (i : Int) : ':' ∉ (Decimal.ofInt i).toList :=
  Decimal.notMem_ofInt (by decide) (by decide) i

theorem colon_notMem_padded (width n : Nat) : ':' ∉ (Decimal.padded width n).toList := by
  have hchars : ':' ∉ (Decimal.ofInt n).toList := colon_notMem_ofInt n
  simp only [Decimal.ofInt_natCast, Decimal.ofNat, String.toList_ofList] at hchars
  simp [Decimal.padded, hchars, List.mem_replicate]

theorem length_padded (width n : Nat) : width ≤ (Decimal.padded width n).toList.length := by
  simp only [Decimal.padded, String.toList_ofList, List.length_append, List.length_replicate]
  omega

/-- A date is a text with two colons well inside. -/
theorem clocked_text (instant : Calendar.Instant) : Clocked [':'] instant.text.toList := by
  refine ⟨(instant.date.text ++ "T" ++ Decimal.padded 2 instant.timeOfDay.hour).toList,
    (Decimal.padded 2 instant.timeOfDay.minute).toList,
    (Decimal.padded 2 instant.timeOfDay.second ++ "." ++
      Calendar.Instant.fractionText instant.timeOfDay.nanos ++ "Z").toList, ?_, ?_, ?_, ?_, ?_, ?_⟩
  · have hyear : ':' ∉ instant.date.text.toList := by
      simp only [Calendar.Date.text]
      split
      · simp [colon_notMem_padded]
      · split <;> simp [colon_notMem_padded]
    simp [colon_notMem_padded, hyear]
  · exact colon_notMem_padded _ _
  · have hfraction : ':' ∉ (Calendar.Instant.fractionText instant.timeOfDay.nanos).toList := by
      unfold Calendar.Instant.fractionText
      split
      · exact colon_notMem_padded _ _
      · split <;> exact colon_notMem_padded _ _
    simp [colon_notMem_padded, hfraction]
  · have hhour := length_padded 2 instant.timeOfDay.hour
    rw [String.toList_append, List.length_append]
    omega
  · have hsecond := length_padded 2 instant.timeOfDay.second
    rw [String.append_assoc, String.append_assoc, String.toList_append, List.length_append]
    omega
  · simp [Calendar.Instant.text, Calendar.Instant.secondText]

theorem toLower_eq_iff {c d : Char} (hd : d.isAlpha = false) : c.toLower = d ↔ c = d := by
  unfold Char.isAlpha Char.isUpper Char.isLower at hd
  simp only [Bool.or_eq_false_iff, Bool.and_eq_false_iff, decide_eq_false_iff_not] at hd
  unfold Char.toLower
  split <;> grind

theorem mem_map_toLower {cs : List Char} {d : Char} (hd : d.isAlpha = false) :
    d ∈ cs.map Char.toLower ↔ d ∈ cs := by
  simp [List.mem_map, toLower_eq_iff hd]

/-- The characters with every colon twice. -/
def twofold (cs : List Char) : List Char :=
  cs.flatMap fun c => if c = ':' then [':', ':'] else [c]

theorem toList_doubled (text : String) : (Value.doubled text).toList = twofold text.toList := by
  rw [Value.doubled, String.toList_ofList, twofold]

theorem twofold_colon (cs : List Char) : twofold (':' :: cs) = ':' :: ':' :: twofold cs := rfl

theorem twofold_cons {c : Char} (h : c ≠ ':') (cs : List Char) : twofold (c :: cs) = c :: twofold cs := by
  rw [twofold, List.flatMap_cons, if_neg h]
  rfl

theorem twofold_append (cs ds : List Char) : twofold (cs ++ ds) = twofold cs ++ twofold ds :=
  List.flatMap_append

/-- Without colons there is nothing to double. -/
theorem twofold_of_notMem {cs : List Char} (h : ':' ∉ cs) : twofold cs = cs := by
  induction cs with
  | nil => rfl
  | cons c rest ih =>
    rw [List.mem_cons, not_or] at h
    rw [twofold_cons (Ne.symm h.1), ih h.2]

theorem twofold_injective {cs ds : List Char} (h : twofold cs = twofold ds) : cs = ds := by
  induction cs generalizing ds with
  | nil =>
    cases ds with
    | nil => rfl
    | cons d rest =>
      by_cases hd : d = ':'
      · rw [hd, twofold_colon] at h
        cases h
      · rw [twofold_cons hd] at h
        cases h
  | cons c rest ih =>
    cases ds with
    | nil =>
      by_cases hc : c = ':'
      · rw [hc, twofold_colon] at h
        cases h
      · rw [twofold_cons hc] at h
        cases h
    | cons d rest' =>
      by_cases hc : c = ':' <;> by_cases hd : d = ':'
      · rw [hc, hd, twofold_colon, twofold_colon] at h
        rw [hc, hd, ih (List.cons.inj (List.cons.inj h).2).2]
      · rw [hc, twofold_colon, twofold_cons hd] at h
        exact absurd (List.cons.inj h).1.symm hd
      · rw [hd, twofold_colon, twofold_cons hc] at h
        exact absurd (List.cons.inj h).1 hc
      · rw [twofold_cons hc, twofold_cons hd] at h
        rw [(List.cons.inj h).1, ih (List.cons.inj h).2]

theorem doubled_injective {a b : String} (h : Value.doubled a = Value.doubled b) : a = b := by
  refine String.toList_inj.1 (twofold_injective ?_)
  rw [← toList_doubled, ← toList_doubled, h]

end Texts

/-- The texts under which fields of a kind store values other than `null`. -/
inductive FieldKind.Writes : FieldKind → String → Prop where
  | string (s : String) : Writes .string (escapeNullRun s)
  | int (i : Int) : Writes .int (Decimal.ofInt i)
  | boolean (b : Bool) : Writes .boolean (if b then "true" else "false")
  | date (instant : Calendar.Instant) : Writes .date instant.text
  | timestamp (millis : Int) : Writes .timestamp (Decimal.ofInt millis)

section Writes

variable {kind : FieldKind} {type : FieldType} {value : FieldValue} {text : String}

theorem FieldKind.writes_of_encode? (h : kind.encode? value = some text) : kind.Writes text := by
  cases kind with
  | string =>
    cases value with
    | text s =>
      cases h
      exact .string s
    | null | bool | int | date => cases h
  | int =>
    cases value with
    | int i =>
      cases h
      exact .int i.toInt
    | null | bool | text | date => cases h
  | boolean =>
    cases value with
    | bool b =>
      cases h
      exact .boolean b
    | null | int | text | date => cases h
  | date =>
    obtain ⟨instant, -, rfl⟩ := Option.map_eq_some_iff.1 h
    exact .date instant
  | timestamp =>
    obtain ⟨millis, -, rfl⟩ := Option.map_eq_some_iff.1 h
    exact .timestamp millis

/-- Either `null` is stored, or a value of the field's kind. -/
theorem FieldType.null_or_writes (h : type.encode value = .ok text) :
    (value = .null ∧ text = nullText) ∨ type.kind.Writes text := by
  unfold FieldType.encode at h
  split at h
  · rename_i hnull
    split at h
    · cases h
      cases value with
      | null => exact .inl ⟨rfl, rfl⟩
      | bool | int | text | date => cases hnull
    · cases h
  · split at h
    · rename_i found hfound
      cases h
      exact .inr (FieldKind.writes_of_encode? hfound)
    · cases h

/-- No other value is stored under the text of `null`. -/
theorem FieldKind.Writes.ne_null (h : kind.Writes text) : text ≠ nullText := by
  have hint : ∀ i : Int, Decimal.ofInt i ≠ nullText := fun i heq =>
    Decimal.notMem_ofInt (by decide) (by decide) i (heq ▸ (by decide : nullChar ∈ nullText.toList))
  cases h with
  | string s =>
    intro heq
    unfold escapeNullRun at heq
    split at heq
    · rename_i hrun
      have hempty : s = "" := by
        have hlists := congrArg String.toList heq
        rw [String.toList_append] at hlists
        exact String.toList_inj.1 (List.append_cancel_left (hlists.trans (List.append_nil _).symm))
      rw [hempty] at hrun
      cases hrun
    · rename_i hrun
      rw [heq] at hrun
      exact hrun (by decide)
  | int i => exact hint i
  | boolean b => cases b <;> decide
  | date instant =>
    intro heq
    obtain ⟨first, middle, last, -, -, -, hopen, -, hsplit⟩ := clocked_text instant
    have hlength := congrArg List.length hsplit
    rw [heq, List.length_append] at hlength
    have hone : nullText.toList.length = 1 := by decide
    omega
  | timestamp millis => exact hint millis

theorem FieldType.encode_eq_null (h : type.encode value = .ok nullText) : value = .null := by
  rcases null_or_writes h with ⟨hnull, -⟩ | hwrites
  · exact hnull
  · exact absurd rfl hwrites.ne_null

theorem FieldType.encode_null (h : type.encode .null = .ok text) : text = nullText := by
  unfold FieldType.encode at h
  split at h
  · split at h <;> cases h
    rfl
  · rename_i hnull
    exact absurd rfl hnull

end Writes

namespace FieldKind.Shapes

variable {kind : FieldKind} {gap cs : List Char}

/-- What a field of this kind holds looks as the kind says. -/
theorem of_encode {type : FieldType} {value : FieldValue} {text : String}
    (h : type.encode value = .ok text) : type.kind.Shapes [':'] text.toList := by
  generalize hkind : type.kind = kind
  rcases type.null_or_writes h with ⟨-, rfl⟩ | hwrites
  · cases kind with
    | string => trivial
    | date => exact .inl rfl
    | int | boolean | timestamp => exact (by decide : ':' ∉ nullText.toList)
  · rw [hkind] at hwrites
    cases hwrites with
    | string s => trivial
    | int i => exact colon_notMem_ofInt i
    | boolean b => cases b <;> simp [Shapes]
    | date instant => exact .inr (clocked_text instant)
    | timestamp millis => exact colon_notMem_ofInt millis

theorem lower (h : kind.Shapes [':'] cs) : kind.Shapes [':'] (cs.map Char.toLower) := by
  have hkeep : ∀ {part : List Char}, ':' ∉ part → ':' ∉ part.map Char.toLower := fun hpart =>
    fun hmem => hpart ((mem_map_toLower (by decide)).1 hmem)
  cases kind with
  | string => trivial
  | int | boolean | timestamp => exact hkeep h
  | date =>
    rcases h with rfl | ⟨first, middle, last, hfirst, hmiddle, hlast, hopen, hclose, rfl⟩
    · exact .inl (by decide)
    · refine .inr ⟨first.map Char.toLower, middle.map Char.toLower, last.map Char.toLower, hkeep hfirst,
        hkeep hmiddle, hkeep hlast, by simpa using hopen, by simpa using hclose, ?_⟩
      have hcolon : Char.toLower ':' = ':' := by decide
      simp [hcolon]

theorem cased {text : String} (h : kind.Shapes [':'] text.toList) (field : IndexField) :
    kind.Shapes [':'] (field.cased text).toList := by
  unfold IndexField.cased
  split
  · rw [Text.lowercase, String.toList_ofList]
    exact h.lower
  · exact h

theorem doubled {text : String} (h : kind.Shapes [':'] text.toList) :
    kind.Shapes [':', ':'] (Value.doubled text).toList := by
  rw [toList_doubled]
  cases kind with
  | string => trivial
  | int | boolean | timestamp =>
    rw [twofold_of_notMem h]
    exact h
  | date =>
    rcases h with h | ⟨first, middle, last, hfirst, hmiddle, hlast, hopen, hclose, h⟩
    · rw [h]
      exact .inl rfl
    · refine .inr ⟨first, middle, last, hfirst, hmiddle, hlast, hopen, hclose, ?_⟩
      rw [h]
      simp only [twofold_append, twofold_of_notMem hfirst, twofold_of_notMem hmiddle, twofold_of_notMem hlast]
      rfl

/-- Read backwards, the texts of a kind look the same. -/
theorem reverse (hgap : gap.reverse = gap) (h : kind.Shapes gap cs) : kind.Shapes gap cs.reverse := by
  cases kind with
  | string => trivial
  | int | boolean | timestamp =>
    intro hmem
    exact h (List.mem_reverse.1 hmem)
  | date =>
    rcases h with rfl | ⟨first, middle, last, hfirst, hmiddle, hlast, hopen, hclose, rfl⟩
    · exact .inl rfl
    · refine .inr ⟨last.reverse, middle.reverse, first.reverse, ?_, ?_, ?_, ?_, ?_, ?_⟩
      · simpa using hlast
      · simpa using hmiddle
      · simpa using hfirst
      · simpa using hclose
      · simpa using hopen
      · simp [hgap]

variable {other rest rest' : List Char}

/-- Where a text that is not free ends, and what follows after a colon, is determined. -/
theorem eq_of_front (hkind : kind ≠ .string) (h : kind.Shapes [':', ':'] cs)
    (hother : kind.Shapes [':', ':'] other) (heq : cs ++ ':' :: rest = other ++ ':' :: rest') :
    cs = other ∧ rest = rest' := by
  have hnull : ':' ∉ [nullChar] := by decide
  -- A date has two characters before its first colon, so it cannot begin like `null`.
  have hdiffer : ∀ {first more more' : List Char}, ':' ∉ first → 2 ≤ first.length →
      [nullChar] ++ ':' :: more ≠ first ++ ':' :: more' := by
    intro first more more' hfirst hlong hsame
    rw [← (eq_of_append_cons_eq hnull hfirst hsame).1] at hlong
    simp at hlong
  cases kind with
  | string => exact absurd rfl hkind
  | int | boolean | timestamp => exact eq_of_append_cons_eq h hother heq
  | date =>
    rcases h with rfl | ⟨first, middle, last, hfirst, hmiddle, hlast, hopen, -, rfl⟩ <;>
      rcases hother with rfl | ⟨first', middle', last', hfirst', hmiddle', hlast', hopen', -, rfl⟩
    · exact eq_of_append_cons_eq hnull hnull heq
    · simp only [List.append_assoc, List.cons_append, List.nil_append] at heq
      exact absurd heq (hdiffer hfirst' hopen')
    · simp only [List.append_assoc, List.cons_append, List.nil_append] at heq
      exact absurd heq.symm (hdiffer hfirst hopen)
    · simp only [List.append_assoc, List.cons_append, List.nil_append] at heq
      obtain ⟨rfl, hminutes⟩ := eq_of_append_cons_eq hfirst hfirst' heq
      obtain ⟨rfl, hseconds⟩ := eq_of_append_cons_eq hmiddle hmiddle' (List.cons.inj hminutes).2
      obtain ⟨rfl, hafter⟩ := eq_of_append_cons_eq hlast hlast' (List.cons.inj hseconds).2
      exact ⟨rfl, hafter⟩

/-- Where a text that is not free begins, and what goes before a colon, is determined. -/
theorem eq_of_back (hkind : kind ≠ .string) (h : kind.Shapes [':', ':'] cs)
    (hother : kind.Shapes [':', ':'] other) (heq : rest ++ ':' :: cs = rest' ++ ':' :: other) :
    cs = other ∧ rest = rest' := by
  have hmirror := congrArg List.reverse heq
  simp only [List.reverse_append, List.reverse_cons, List.append_assoc, List.singleton_append] at hmirror
  obtain ⟨hcs, hrest⟩ := eq_of_front hkind (h.reverse rfl) (hother.reverse rfl) hmirror
  exact ⟨List.reverse_injective hcs, List.reverse_injective hrest⟩

end FieldKind.Shapes

section Joined

variable {α : Type} {kindOf : α → FieldKind} {part part' : α → String}

theorem toList_joined_concat {texts : List String} (hne : texts ≠ []) (last : String) :
    (Text.joined ":" (texts ++ [last])).toList = (Text.joined ":" texts).toList ++ ':' :: last.toList := by
  induction texts with
  | nil => exact absurd rfl hne
  | cons text rest ih =>
    cases rest with
    | nil => simp [Text.joined]
    | cons next more =>
      have hmore := ih (by simp)
      simp only [List.cons_append] at hmore ⊢
      rw [toList_joined_cons, toList_joined_cons, hmore, List.append_assoc, List.cons_append]

/-- Parts that are not free can be read off at the end, up to the first part of all. -/
theorem eq_of_joined_back (first : α) (rest : List α) (hkinds : ∀ field ∈ rest, kindOf field ≠ .string)
    (h : ∀ field ∈ rest, (kindOf field).Shapes [':', ':'] (part field).toList)
    (h' : ∀ field ∈ rest, (kindOf field).Shapes [':', ':'] (part' field).toList)
    (heq : Text.joined ":" ((first :: rest).map part) = Text.joined ":" ((first :: rest).map part')) :
    ∀ field ∈ first :: rest, part field = part' field := by
  induction rest using List.reverseRecOn with
  | nil =>
    intro field hfield
    rw [List.mem_singleton.1 hfield]
    exact heq
  | append_singleton more last ih =>
    have hlast : last ∈ more ++ [last] := by simp
    have hmore : ∀ field ∈ more, field ∈ more ++ [last] := fun field hfield => by simp [hfield]
    have hlists := congrArg String.toList heq
    rw [← List.cons_append, List.map_append, List.map_append, List.map_singleton, List.map_singleton,
      toList_joined_concat (by simp), toList_joined_concat (by simp)] at hlists
    obtain ⟨hend, hstart⟩ := FieldKind.Shapes.eq_of_back (hkinds last hlast) (h last hlast)
      (h' last hlast) hlists
    have hothers := ih (fun field hfield => hkinds field (hmore field hfield))
      (fun field hfield => h field (hmore field hfield)) (fun field hfield => h' field (hmore field hfield))
      (String.toList_inj.1 hstart)
    intro field hfield
    rw [← List.cons_append, List.mem_append, List.mem_singleton] at hfield
    rcases hfield with hfield | rfl
    · exact hothers field hfield
    · exact String.toList_inj.1 hend

/-- Joined parts can be told apart again if at most one of them is free text. -/
theorem eq_of_joined (fields : List α) (hfree : (fields.filter fun field => kindOf field = .string).length ≤ 1)
    (h : ∀ field ∈ fields, (kindOf field).Shapes [':', ':'] (part field).toList)
    (h' : ∀ field ∈ fields, (kindOf field).Shapes [':', ':'] (part' field).toList)
    (heq : Text.joined ":" (fields.map part) = Text.joined ":" (fields.map part')) :
    ∀ field ∈ fields, part field = part' field := by
  induction fields with
  | nil => exact fun field hfield => absurd hfield List.not_mem_nil
  | cons first rest ih =>
    have hrest : ∀ field ∈ rest, field ∈ first :: rest := fun field hfield => List.mem_cons_of_mem _ hfield
    by_cases hstring : kindOf first = .string
    · -- The free part is the first one, so all others are read off from the end.
      rw [List.filter_cons_of_pos (by simpa using hstring), List.length_cons] at hfree
      have hnone : (rest.filter fun field => kindOf field = .string) = [] :=
        List.length_eq_zero_iff.1 (by omega)
      refine eq_of_joined_back first rest (fun field hfield => ?_)
        (fun field hfield => h field (hrest field hfield))
        (fun field hfield => h' field (hrest field hfield)) heq
      simpa using List.filter_eq_nil_iff.1 hnone field hfield
    · rw [List.filter_cons_of_neg (by simpa using hstring)] at hfree
      cases rest with
      | nil =>
        intro field hfield
        rw [List.mem_singleton.1 hfield]
        exact heq
      | cons next more =>
        have hlists := congrArg String.toList heq
        simp only [List.map_cons] at hlists
        rw [toList_joined_cons, toList_joined_cons] at hlists
        obtain ⟨hhead, htail⟩ := FieldKind.Shapes.eq_of_front hstring (h first List.mem_cons_self)
          (h' first List.mem_cons_self) hlists
        have hothers := ih hfree (fun field hfield => h field (hrest field hfield))
          (fun field hfield => h' field (hrest field hfield)) (String.toList_inj.1 htail)
        intro field hfield
        rcases List.mem_cons.1 hfield with rfl | hfield
        · exact String.toList_inj.1 hhead
        · exact hothers field hfield

end Joined

end DocStore

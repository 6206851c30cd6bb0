import DocStore.Proofs.Field.Shapes
import Mathlib.Data.List.Chain

/-!
What joined texts show of the borders between them.

In a joined text a single colon stands for a border, and two colons for a colon of one of the texts. So a run of
colons shows its length only: a colon next to a border looks the same on either side of it (`joined_moved`), and
two borders with nothing between them look like a colon. Where neither occurs, or no text has a colon at all,
the texts can be told from the joined text, even among all texts that have as many borders
(`Separate.eq_of_joined`).
-/

namespace DocStore

open DocStore.Script DocStore.Layout

/-- The characters of the texts in turn, with `none` for the border between neighbours. -/
def bordered : List String → List (Option Char)
  | [] => []
  | [text] => text.toList.map some
  | text :: next :: rest => text.toList.map some ++ none :: bordered (next :: rest)

/-- How marks are written: a border as a colon, and a colon as two. -/
def spelled : List (Option Char) → List Char
  | [] => []
  | none :: marks => ':' :: spelled marks
  | some c :: marks => if c = ':' then ':' :: ':' :: spelled marks else c :: spelled marks

/-- Every border has no colon and no other border beside it. -/
def Open (marks : List (Option Char)) : Prop :=
  marks.IsChain fun mark next => (mark = none → next ≠ none ∧ next ≠ some ':') ∧ (mark = some ':' → next ≠ none)

section Marks

variable {marks others : List (Option Char)} {c : Char} {rest : List Char}

theorem spelled_append : spelled (marks ++ others) = spelled marks ++ spelled others := by
  fun_induction spelled marks with
  | case1 => rfl
  | case2 marks ih => rw [List.cons_append, spelled, ih, List.cons_append]
  | case3 marks ih => rw [List.cons_append, spelled, if_pos rfl, ih, List.cons_append, List.cons_append]
  | case4 c marks hc ih => rw [List.cons_append, spelled, if_neg hc, ih, List.cons_append]

theorem spelled_map_some (cs : List Char) : spelled (cs.map some) = twofold cs := by
  induction cs with
  | nil => rfl
  | cons c rest ih =>
    rw [List.map_cons, spelled, ih]
    split
    · rename_i hc
      rw [hc, twofold_colon]
    · rename_i hc
      rw [twofold_cons hc]

theorem eq_nil_of_spelled (h : spelled marks = []) : marks = [] := by
  cases marks with
  | nil => rfl
  | cons mark marks =>
    cases mark with
    | none => cases h
    | some c =>
      rw [spelled] at h
      split at h <;> cases h

/-- A character other than a colon is written for itself. -/
theorem eq_of_spelled_cons (hc : c ≠ ':') (h : spelled marks = c :: rest) :
    ∃ more, marks = some c :: more ∧ spelled more = rest := by
  cases marks with
  | nil => cases h
  | cons mark marks =>
    cases mark with
    | none => exact absurd (List.cons.inj h).1.symm hc
    | some d =>
      rw [spelled] at h
      split at h
      · exact absurd (List.cons.inj h).1.symm hc
      · obtain ⟨rfl, hrest⟩ := List.cons.inj h
        exact ⟨marks, rfl, hrest⟩

/-- A colon is written for a border, or as the first of two for a colon. -/
theorem eq_of_spelled_colon (h : spelled marks = ':' :: rest) :
    (∃ more, marks = none :: more ∧ spelled more = rest) ∨
      ∃ more, marks = some ':' :: more ∧ ':' :: spelled more = rest := by
  cases marks with
  | nil => cases h
  | cons mark marks =>
    cases mark with
    | none => exact .inl ⟨marks, rfl, (List.cons.inj h).2⟩
    | some d =>
      rw [spelled] at h
      split at h
      · rename_i hd
        exact .inr ⟨marks, by rw [hd], (List.cons.inj h).2⟩
      · rename_i hd
        exact absurd (List.cons.inj h).1 hd

theorem Open.tail {mark : Option Char} (h : Open (mark :: marks)) : Open marks :=
  List.IsChain.tail h

/-- Behind a border an open list goes on with a character other than a colon. -/
theorem Open.head?_ne (h : Open (none :: marks)) : marks.head? ≠ some none ∧ marks.head? ≠ some (some ':') := by
  cases marks with
  | nil => exact ⟨nofun, nofun⟩
  | cons next more =>
    have hnext := ((List.isChain_cons_cons.1 h).1).1 rfl
    exact ⟨fun heq => hnext.1 (Option.some.inj heq), fun heq => hnext.2 (Option.some.inj heq)⟩

theorem Open.head?_ne_none (h : Open (some ':' :: marks)) : marks.head? ≠ some none := by
  cases marks with
  | nil => exact nofun
  | cons next more => exact fun heq => ((List.isChain_cons_cons.1 h).1).2 rfl (Option.some.inj heq)

/-- Open marks have the fewest borders of all that are written alike, and are the only ones with so few. The
second part is about the midst of a run of colons, where the others are one colon behind. -/
theorem count_le_of_spelled (others : List (Option Char)) : ∀ marks, Open marks →
    (spelled others = spelled marks →
      marks.count none ≤ others.count none ∧ (marks.count none = others.count none → marks = others)) ∧
      (marks.head? ≠ some none → spelled others = ':' :: spelled marks →
        marks.count none < others.count none) := by
  induction others with
  | nil =>
    intro marks _
    constructor
    · intro h
      rw [eq_nil_of_spelled h.symm]
      exact ⟨Nat.le_refl _, fun _ => rfl⟩
    · intro _ h
      cases h
  | cons other others ih =>
    intro marks hopen
    cases other with
    | none =>
      rw [List.count_cons_self]
      constructor
      · intro h
        rcases eq_of_spelled_colon h.symm with ⟨more, rfl, hmore⟩ | ⟨more, rfl, hmore⟩
        · obtain ⟨hle, heq⟩ := (ih more hopen.tail).1 hmore.symm
          rw [List.count_cons_self]
          exact ⟨by omega, fun hcount => by rw [heq (by omega)]⟩
        · have hless := (ih more hopen.tail).2 hopen.head?_ne_none hmore.symm
          rw [List.count_cons_of_ne (by simp)]
          exact ⟨by omega, by omega⟩
      · intro _ h
        have hle := ((ih marks hopen).1 (List.cons.inj h).2).1
        omega
    | some d =>
      rw [List.count_cons_of_ne (by simp)]
      by_cases hd : d = ':'
      · subst hd
        constructor
        · intro h
          rcases eq_of_spelled_colon h.symm with ⟨more, rfl, hmore⟩ | ⟨more, rfl, hmore⟩
          · -- Behind a border of open marks there is no second colon.
            rcases eq_of_spelled_colon hmore with ⟨_, rfl, _⟩ | ⟨_, rfl, _⟩
            · exact absurd rfl hopen.head?_ne.1
            · exact absurd rfl hopen.head?_ne.2
          · obtain ⟨hle, heq⟩ := (ih more hopen.tail).1 (List.cons.inj hmore).2.symm
            rw [List.count_cons_of_ne (by simp)]
            exact ⟨hle, fun hcount => by rw [heq hcount]⟩
        · intro hhead h
          rcases eq_of_spelled_colon (List.cons.inj h).2.symm with ⟨more, rfl, hmore⟩ | ⟨more, rfl, hmore⟩
          · exact absurd rfl hhead
          · rw [List.count_cons_of_ne (by simp)]
            exact (ih more hopen.tail).2 hopen.head?_ne_none hmore.symm
      · have hwritten : spelled (some d :: others) = d :: spelled others := by
          rw [spelled, if_neg hd]
        rw [hwritten]
        constructor
        · intro h
          obtain ⟨more, rfl, hmore⟩ := eq_of_spelled_cons hd h.symm
          obtain ⟨hle, heq⟩ := (ih more hopen.tail).1 hmore.symm
          rw [List.count_cons_of_ne (by simp)]
          exact ⟨hle, fun hcount => by rw [heq hcount]⟩
        · intro _ h
          exact absurd (List.cons.inj h).1 hd

/-- A border is written with one colon, a colon with two. -/
theorem count_spelled (marks : List (Option Char)) :
    (spelled marks).count ':' = marks.count none + 2 * marks.count (some ':') := by
  fun_induction spelled marks with
  | case1 => rfl
  | case2 marks ih =>
    rw [List.count_cons_self, ih, List.count_cons_self, List.count_cons_of_ne (by simp)]
    omega
  | case3 marks ih =>
    rw [List.count_cons_self, List.count_cons_self, ih, List.count_cons_of_ne (by simp), List.count_cons_self]
    omega
  | case4 c marks hc ih =>
    rw [List.count_cons_of_ne hc, ih, List.count_cons_of_ne (by simp), List.count_cons_of_ne (by simpa using hc)]

/-- Where every colon is a border, nothing else can be read. -/
theorem eq_of_spelled_of_notMem (hmarks : some ':' ∉ marks) (hothers : some ':' ∉ others)
    (h : spelled marks = spelled others) : marks = others := by
  induction marks generalizing others with
  | nil => exact (eq_nil_of_spelled h.symm).symm
  | cons mark marks ih =>
    have hrest : some ':' ∉ marks := List.not_mem_of_not_mem_cons hmarks
    cases mark with
    | none =>
      rcases eq_of_spelled_colon h.symm with ⟨more, rfl, hmore⟩ | ⟨more, rfl, hmore⟩
      · rw [ih hrest (List.not_mem_of_not_mem_cons hothers) hmore.symm]
      · exact absurd List.mem_cons_self hothers
    | some c =>
      have hc : c ≠ ':' := fun heq => hmarks (by rw [heq]; exact List.mem_cons_self)
      rw [spelled, if_neg hc] at h
      obtain ⟨more, rfl, hmore⟩ := eq_of_spelled_cons hc h.symm
      rw [ih hrest (List.not_mem_of_not_mem_cons hothers) hmore.symm]

/-- Marks are told apart from all that have as many borders if they have no colon, or are open. -/
theorem eq_of_spelled (hmarks : some ':' ∉ marks ∨ Open marks) (hcount : marks.count none = others.count none)
    (h : spelled marks = spelled others) : marks = others := by
  rcases hmarks with hfree | hopen
  · refine eq_of_spelled_of_notMem hfree ?_ h
    -- All colons that are written are borders of the one list, and so they are of the other.
    have hcolons := congrArg (List.count ':') h
    rw [count_spelled, count_spelled, List.count_eq_zero_of_not_mem hfree] at hcolons
    exact List.count_eq_zero.1 (by omega)
  · exact ((count_le_of_spelled others marks hopen).1 h.symm).2 hcount

end Marks

section Texts

variable {texts others : List String}

theorem eq_of_map_some {a b : String} (h : a.toList.map some = b.toList.map some) : a = b :=
  String.toList_inj.1 ((List.map_inj_right fun _ _ => Option.some.inj).1 h)

theorem count_map_some (cs : List Char) : (cs.map some).count none = 0 :=
  List.count_eq_zero.2 (by simp)

theorem count_bordered (texts : List String) : (bordered texts).count none = texts.length - 1 := by
  fun_induction bordered texts with
  | case1 => rfl
  | case2 text => exact count_map_some text.toList
  | case3 text next rest ih =>
    rw [List.count_append, count_map_some, List.count_cons_self, ih]
    simp

theorem bordered_injective (hlength : texts.length = others.length) (h : bordered texts = bordered others) :
    texts = others := by
  induction texts generalizing others with
  | nil => exact (List.length_eq_zero_iff.1 hlength.symm).symm
  | cons text rest ih =>
    match others, hlength with
    | other :: rest', hlength =>
      match rest, rest', hlength with
      | [], [], _ =>
        have hsame : text.toList.map some = other.toList.map some := h
        rw [eq_of_map_some hsame]
      | next :: more, next' :: more', hlength =>
        have hmap : ∀ cs : List Char, none ∉ cs.map some := by simp
        have hsame : text.toList.map some ++ none :: bordered (next :: more) =
          other.toList.map some ++ none :: bordered (next' :: more') := h
        obtain ⟨hhead, htail⟩ := eq_of_append_cons_eq (hmap _) (hmap _) hsame
        rw [eq_of_map_some hhead,
          ih (Nat.succ.inj hlength) htail]

/-- Joined texts with doubled colons are what the characters and borders are written as. -/
theorem toList_joined_doubled (texts : List String) :
    (Text.joined ":" (texts.map Value.doubled)).toList = spelled (bordered texts) := by
  fun_induction bordered texts with
  | case1 => rfl
  | case2 text =>
    rw [spelled_map_some, ← toList_doubled]
    rfl
  | case3 text next rest ih =>
    rw [List.map_cons, List.map_cons, toList_joined_cons, ← List.map_cons, ih, spelled_append, spelled_map_some,
      toList_doubled]
    rfl

/-- No text has a colon where it meets its neighbour. -/
def Guarded : List String → Prop
  | text :: next :: rest =>
    text.toList.getLast? ≠ some ':' ∧ next.toList.head? ≠ some ':' ∧ Guarded (next :: rest)
  | _ => True

/-- No text between two others is empty. -/
def FilledWithin (texts : List String) : Prop :=
  ∀ text ∈ texts.tail.dropLast, text ≠ ""

/-- All colons of the joined text are borders, or else every border can be seen. -/
def Separate (texts : List String) : Prop :=
  (∀ text ∈ texts, ':' ∉ text.toList) ∨ (Guarded texts ∧ FilledWithin texts)

instance Guarded.decidable : (texts : List String) → Decidable (Guarded texts)
  | [] => .isTrue trivial
  | [_] => .isTrue trivial
  | _ :: next :: rest =>
    have := Guarded.decidable (next :: rest)
    inferInstanceAs (Decidable (_ ∧ _ ∧ _))

instance (texts : List String) : Decidable (FilledWithin texts) :=
  inferInstanceAs (Decidable (∀ text ∈ texts.tail.dropLast, text ≠ ""))

instance (texts : List String) : Decidable (Separate texts) :=
  inferInstanceAs (Decidable (_ ∨ _))

theorem colon_mem_bordered : some ':' ∈ bordered texts ↔ ∃ text ∈ texts, ':' ∈ text.toList := by
  fun_induction bordered texts with
  | case1 => simp
  | case2 text => simp
  | case3 text next rest ih =>
    rw [List.mem_append, List.mem_cons, ih]
    simp

theorem open_map_some (cs : List Char) : Open (cs.map some) := by
  induction cs with
  | nil => exact List.isChain_nil
  | cons c rest ih => exact List.isChain_cons.2 ⟨by simp, ih⟩

theorem FilledWithin.tail {text next : String} {rest : List String}
    (h : FilledWithin (text :: next :: rest)) : FilledWithin (next :: rest) := by
  cases rest with
  | nil => exact fun other hother => absurd hother List.not_mem_nil
  | cons third more => exact fun other hother => h other (List.mem_cons_of_mem _ hother)

/-- What stands behind a border is the text there, unless this text is empty. -/
theorem head?_bordered {next : String} {rest : List String} {mark : Option Char}
    (h : mark ∈ (bordered (next :: rest)).head?) :
    mark = next.toList.head? ∧ (mark = none → rest ≠ []) := by
  cases rest with
  | nil =>
    rw [bordered] at h
    cases hchars : next.toList with
    | nil => simp [hchars] at h
    | cons c more =>
      simp only [hchars, List.map_cons, List.head?_cons, Option.mem_some] at h
      subst h
      exact ⟨rfl, nofun⟩
  | cons third more =>
    rw [bordered] at h
    refine ⟨?_, fun _ => by simp⟩
    cases hchars : next.toList with
    | nil =>
      simp only [hchars, List.map_nil, List.nil_append, List.head?_cons, Option.mem_some] at h
      exact h.symm
    | cons c more =>
      simp only [hchars, List.map_cons, List.cons_append, List.head?_cons, Option.mem_some] at h
      exact h.symm

/-- Every border is seen if no colon meets it and no other border does. -/
theorem open_bordered (hguarded : Guarded texts) (hfilled : FilledWithin texts) : Open (bordered texts) := by
  fun_induction bordered texts with
  | case1 => exact List.isChain_nil
  | case2 text => exact open_map_some text.toList
  | case3 text next rest ih =>
    obtain ⟨hend, hstart, hguarded⟩ := hguarded
    refine List.isChain_append.2 ⟨open_map_some text.toList,
      List.isChain_cons.2 ⟨fun mark hmark => ⟨fun _ => ?_, nofun⟩, ih hguarded hfilled.tail⟩, ?_⟩
    · obtain ⟨hmark, hrest⟩ := head?_bordered hmark
      refine ⟨fun hnone => ?_, fun hcolon => hstart (hmark ▸ hcolon)⟩
      have hempty : next = "" := String.toList_inj.1 (List.head?_eq_none_iff.1 (hmark ▸ hnone))
      cases rest with
      | nil => exact hrest hnone rfl
      | cons third more => exact hfilled next List.mem_cons_self hempty
    · intro mark hmark other hother
      cases hother
      rw [List.getLast?_map] at hmark
      obtain ⟨c, hc, rfl⟩ := Option.map_eq_some_iff.1 hmark
      exact ⟨nofun, fun hcolon => absurd (hc.trans hcolon) hend⟩

theorem Separate.eq_of_joined (h : Separate texts) (hlength : texts.length = others.length)
    (hjoined : Text.joined ":" (texts.map Value.doubled) = Text.joined ":" (others.map Value.doubled)) :
    texts = others := by
  have hspelled := congrArg String.toList hjoined
  rw [toList_joined_doubled, toList_joined_doubled] at hspelled
  refine bordered_injective hlength (eq_of_spelled ?_ ?_ hspelled)
  · rcases h with hfree | ⟨hguarded, hfilled⟩
    · refine .inl fun hmem => ?_
      obtain ⟨text, htext, hcolon⟩ := colon_mem_bordered.1 hmem
      exact hfree text htext hcolon
    · exact .inr (open_bordered hguarded hfilled)
  · rw [count_bordered, count_bordered, hlength]

theorem exists_of_not_guarded (h : ¬ Guarded texts) : ∃ before text next after,
    texts = before ++ text :: next :: after ∧
      (text.toList.getLast? = some ':' ∨ next.toList.head? = some ':') := by
  fun_induction Guarded texts with
  | case1 text next rest ih =>
    by_cases hend : text.toList.getLast? = some ':'
    · exact ⟨[], text, next, rest, rfl, .inl hend⟩
    · by_cases hstart : next.toList.head? = some ':'
      · exact ⟨[], text, next, rest, rfl, .inr hstart⟩
      · obtain ⟨before, first, second, after, hsplit, hcolon⟩ := ih fun hguarded => h ⟨hend, hstart, hguarded⟩
        exact ⟨text :: before, first, second, after, by rw [hsplit, List.cons_append], hcolon⟩
  | case2 => exact absurd trivial h

theorem joined_cons_append (colons text : String) (rest : List String) :
    Text.joined ":" ((colons ++ text) :: rest) = colons ++ Text.joined ":" (text :: rest) := by
  cases rest with
  | nil => rfl
  | cons next more => simp only [Text.joined, String.append_assoc]

theorem joined_cons (text : String) (hne : texts ≠ []) :
    Text.joined ":" (text :: texts) = text ++ (":" ++ Text.joined ":" texts) := by
  cases texts with
  | nil => exact absurd rfl hne
  | cons next rest => simp only [Text.joined, String.append_assoc]

/-- A colon that moves over a border leaves no trace. -/
theorem joined_moved (before after : List String) (text next : String) :
    Text.joined ":" ((before ++ (text ++ ":") :: next :: after).map Value.doubled) =
      Text.joined ":" ((before ++ text :: (":" ++ next) :: after).map Value.doubled) := by
  have hback : Value.doubled (text ++ ":") = Value.doubled text ++ "::" := by
    simp [← String.toList_inj, toList_doubled, twofold]
  have hfront : Value.doubled (":" ++ next) = "::" ++ Value.doubled next := by
    simp [← String.toList_inj, toList_doubled, twofold]
  induction before with
  | nil =>
    simp only [List.nil_append, List.map_cons, hback, hfront]
    rw [joined_cons (Value.doubled text) (List.cons_ne_nil _ _), joined_cons_append "::" (Value.doubled next),
      joined_cons (Value.doubled text ++ "::") (List.cons_ne_nil _ _)]
    simp [← String.toList_inj]
  | cons first rest ih =>
    simp only [List.cons_append, List.map_cons] at ih ⊢
    rw [joined_cons (Value.doubled first) (by simp), ih, joined_cons (Value.doubled first) (by simp)]

end Texts

end DocStore

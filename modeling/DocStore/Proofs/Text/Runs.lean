import DocStore.Text.Quoted

/-!
Where a run of characters or lines ends, and what joined texts are made of.
-/

namespace DocStore.Text

section Runs

variable {α : Type} {p : α → Bool} {cs rest : List α}

/-- A run ends in front of the first item that does not belong to it. -/
theorem takeWhile_append_of_stop (h : ∀ c ∈ cs, p c = true) (hstop : ∀ c ∈ rest.head?, p c = false) :
    (cs ++ rest).takeWhile p = cs := by
  rw [List.takeWhile_append_of_pos h]
  cases rest with
  | nil => simp
  | cons c more => simp [hstop c rfl]

theorem dropWhile_append_of_stop (h : ∀ c ∈ cs, p c = true) (hstop : ∀ c ∈ rest.head?, p c = false) :
    (cs ++ rest).dropWhile p = rest := by
  rw [List.dropWhile_append_of_pos h]
  cases rest with
  | nil => rfl
  | cons c more => simp [hstop c rfl]

end Runs

theorem joined_cons_cons (separator text next : String) (rest : List String) :
    joined separator (text :: next :: rest) = text ++ separator ++ joined separator (next :: rest) := rfl

/-- A character is in a joined text only if it is in a part or in the separator. -/
theorem notMem_joined {separator : String} {texts : List String} {c : Char}
    (hseparator : c ∉ separator.toList) (h : ∀ text ∈ texts, c ∉ text.toList) :
    c ∉ (joined separator texts).toList := by
  induction texts with
  | nil => simp [joined]
  | cons text rest ih =>
    have htext : c ∉ text.toList := h text List.mem_cons_self
    have hrest := ih fun other hother => h other (List.mem_cons_of_mem _ hother)
    cases rest with
    | nil => exact htext
    | cons next more =>
      rw [joined_cons_cons]
      simp [htext, hseparator, hrest]

end DocStore.Text

import DocStore.Proofs.Script.Steps

/-!
What the variables of a running script hold.

If every value that a script puts into a variable is of the variable's kind (`Machine.Holds`), so is every
value that it finds there, in whatever scope.
-/

namespace DocStore.Script.Machine

variable {machine : Machine} {kind : String → Value → Prop} {name : String} {value : Value}

/-- Variables hold values of their kinds, in all scopes. -/
def Holds (kind : String → Value → Prop) (machine : Machine) : Prop :=
  ∀ scope ∈ machine.outer :: machine.inner, ∀ name value, scope.find? name = some value → kind name value

theorem findIn?_mem {scopes : List Scope} (h : findIn? name scopes = some value) :
    ∃ scope ∈ scopes, scope.find? name = some value := by
  induction scopes with
  | nil => cases h
  | cons scope rest ih =>
    unfold findIn? at h
    split at h
    · rename_i found hfound
      cases h
      exact ⟨scope, List.mem_cons_self, hfound⟩
    · obtain ⟨other, hother, hfound⟩ := ih h
      exact ⟨other, List.mem_cons_of_mem _ hother, hfound⟩

theorem mem_assignIn? {scopes done : List Scope} (h : assignIn? name value scopes = some done) {scope : Scope}
    (hscope : scope ∈ done) : scope ∈ scopes ∨ ∃ before ∈ scopes, scope = before.insert name value := by
  induction scopes generalizing done with
  | nil => cases h
  | cons head rest ih =>
    unfold assignIn? at h
    split at h
    · cases h
      rcases List.mem_cons.1 hscope with rfl | hscope
      · exact .inr ⟨head, List.mem_cons_self, rfl⟩
      · exact .inl (List.mem_cons_of_mem _ hscope)
    · obtain ⟨later, hlater, rfl⟩ := Option.map_eq_some_iff.1 h
      rcases List.mem_cons.1 hscope with rfl | hscope
      · exact .inl List.mem_cons_self
      · rcases ih hlater hscope with hmem | ⟨before, hbefore, rfl⟩
        · exact .inl (List.mem_cons_of_mem _ hmem)
        · exact .inr ⟨before, List.mem_cons_of_mem _ hbefore, rfl⟩

/-- A scope in which a variable is set. -/
theorem kind_of_insert {scope : Scope} {other : String} {found : Value}
    (hscope : ∀ name value, scope.find? name = some value → kind name value) (hvalue : kind name value)
    (hfound : (scope.insert name value).find? other = some found) : kind other found := by
  rw [SortedMap.find?_insert] at hfound
  split at hfound
  · rename_i heq
    cases hfound
    exact heq ▸ hvalue
  · exact hscope other found hfound

namespace Holds

theorem of_find? (h : machine.Holds kind) (hvalue : machine.find? name = some value) : kind name value := by
  unfold find? at hvalue
  split at hvalue
  · rename_i hfound
    cases hvalue
    obtain ⟨scope, hscope, hheld⟩ := findIn?_mem hfound
    exact h scope (List.mem_cons_of_mem _ hscope) name value hheld
  · exact h machine.outer List.mem_cons_self name value hvalue

theorem start (kind : String → Value → Prop) (program : Program) (space : Keyspace) :
    (Machine.start program space).Holds kind := by
  intro scope hscope name value hvalue
  simp only [Machine.start, List.mem_singleton] at hscope
  rw [hscope, SortedMap.find?_empty] at hvalue
  cases hvalue

theorem declare (h : machine.Holds kind) (hvalue : kind name value) : (machine.declare name value).Holds kind := by
  unfold Machine.declare
  split
  · rename_i scope rest hinner
    intro other hother
    simp only [List.mem_cons] at hother
    rcases hother with rfl | rfl | hother
    · exact h _ List.mem_cons_self
    · exact fun probe found => kind_of_insert (h scope (by simp [hinner])) hvalue
    · exact h other (by simp [hinner, hother])
  · rename_i hinner
    intro other hother
    simp only [hinner, List.mem_singleton] at hother
    rw [hother]
    exact fun probe found => kind_of_insert (h _ List.mem_cons_self) hvalue

theorem assign (h : machine.Holds kind) (hvalue : kind name value) : (machine.assign name value).Holds kind := by
  unfold Machine.assign
  split
  · rename_i inner hinner
    intro scope hscope
    rcases List.mem_cons.1 hscope with rfl | hscope
    · exact h _ List.mem_cons_self
    · rcases mem_assignIn? hinner hscope with hmem | ⟨before, hbefore, rfl⟩
      · exact h scope (List.mem_cons_of_mem _ hmem)
      · exact fun probe found => kind_of_insert (h before (List.mem_cons_of_mem _ hbefore)) hvalue
  · intro scope hscope
    rcases List.mem_cons.1 hscope with rfl | hscope
    · exact fun probe found => kind_of_insert (h _ List.mem_cons_self) hvalue
    · exact h scope (List.mem_cons_of_mem _ hscope)

theorem openScope (h : machine.Holds kind) : machine.openScope.Holds kind := by
  intro scope hscope
  simp only [Machine.openScope, List.mem_cons] at hscope
  rcases hscope with rfl | rfl | hscope
  · exact h _ List.mem_cons_self
  · intro name value hvalue
    rw [SortedMap.find?_empty] at hvalue
    cases hvalue
  · exact h scope (List.mem_cons_of_mem _ hscope)

theorem closeScope (h : machine.Holds kind) : machine.closeScope.Holds kind := by
  intro scope hscope
  rcases List.mem_cons.1 hscope with rfl | hscope
  · exact h _ List.mem_cons_self
  · exact h scope (List.mem_cons_of_mem _ (List.mem_of_mem_drop hscope))

theorem perform (h : machine.Holds kind) (command : Command) (args : List String) :
    (machine.perform command args).Holds kind := by
  simpa [Holds] using h

theorem rollback (h : machine.Holds kind) : machine.rollback.Holds kind := by
  unfold Machine.rollback
  split <;> exact h

end Holds

end DocStore.Script.Machine

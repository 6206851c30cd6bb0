import DocStore.Operation.Build

/-!
What a script of operations is made of: the block of one operation after another, each with its own stretch
of the parameters.
-/

namespace DocStore

open DocStore.Script

namespace Build

variable {ns : String} {schema : Schema} {build : Build} {ops : List Operation} {s : Stmt}

/-- The statement is the block of an operation that the schema allows, and the operation's parameters stand
where the block looks for them. -/
def IsBlock (ns : String) (schema : Schema) (params : List String) (s : Stmt) : Prop :=
  ∃ (op : Operation) (fragment : Operation.Fragment) (before after : List String),
    op.compile ns schema (before.length + 1) = .ok fragment ∧ s = .block fragment.body ∧
      params = before ++ (fragment.params ++ after)

theorem IsBlock.append {params : List String} (h : IsBlock ns schema params s) (more : List String) :
    IsBlock ns schema (params ++ more) s := by
  obtain ⟨op, fragment, before, after, hcompile, hs, rfl⟩ := h
  exact ⟨op, fragment, before, after ++ more, hcompile, hs, by simp only [List.append_assoc]⟩

theorem isBlock_add (h : ∀ s ∈ build.body, IsBlock ns schema build.params s) (op : Operation) :
    ∀ s ∈ (build.add ns schema op).body, IsBlock ns schema (build.add ns schema op).params s := by
  unfold add
  split
  · exact h
  · split
    · exact h
    · rename_i fragment hfragment
      intro s hs
      rcases List.mem_append.1 hs with hbefore | hlast
      · exact (h s hbefore).append fragment.params
      · rw [List.mem_singleton.1 hlast]
        exact ⟨op, fragment, build.params, [], hfragment, rfl, by rw [List.append_nil]⟩

theorem isBlock_addAll (h : ∀ s ∈ build.body, IsBlock ns schema build.params s) (ops : List Operation) :
    ∀ s ∈ (build.addAll ns schema ops).body, IsBlock ns schema (build.addAll ns schema ops).params s := by
  induction ops generalizing build with
  | nil => exact h
  | cons op rest ih => exact ih (isBlock_add h op)

/-- Between its first and its last statement a script of operations has one block per operation. -/
theorem isBlock_ofList : ∀ s ∈ (ofList ns schema ops).body,
    IsBlock ns schema (ofList ns schema ops).params s := by
  apply isBlock_addAll
  intro s hs
  cases hs

theorem exists_body_addAll (ns : String) (schema : Schema) (build : Build) (ops : List Operation) :
    ∃ more, (build.addAll ns schema ops).body = build.body ++ more := by
  induction ops generalizing build with
  | nil => exact ⟨[], (List.append_nil _).symm⟩
  | cons op rest ih =>
    obtain ⟨later, hlater⟩ := ih (build.add ns schema op)
    have hadd : ∃ more, (build.add ns schema op).body = build.body ++ more := by
      unfold add
      split
      · exact ⟨[], (List.append_nil _).symm⟩
      · split
        · exact ⟨[], (List.append_nil _).symm⟩
        · exact ⟨_, rfl⟩
    obtain ⟨more, hmore⟩ := hadd
    refine ⟨more ++ later, ?_⟩
    rw [← List.append_assoc, ← hmore]
    exact hlater

/-- The block of the first operation comes first. -/
theorem exists_body_ofList {op : Operation} {fragment : Operation.Fragment}
    (h : op.compile ns schema 1 = .ok fragment) (ops : List Operation) :
    ∃ more, (ofList ns schema (op :: ops)).body = .block fragment.body :: more := by
  obtain ⟨more, hmore⟩ := exists_body_addAll ns schema (({} : Build).add ns schema op) ops
  have hfirst : (({} : Build).add ns schema op).body = [.block fragment.body] := by
    simp only [add, List.length_nil, Nat.zero_add, h, List.nil_append]
  rw [hfirst] at hmore
  exact ⟨more, hmore⟩

/-- A build that is finished with a script has that script. -/
theorem of_finish {build : Build} {program : Program} {params : List String}
    (h : build.finish = .ok (some (program, params))) : program = build.script ∧ params = build.params := by
  unfold finish at h
  split at h
  · cases h
  · split at h
    · cases h
    · cases h
      exact ⟨rfl, rfl⟩

end Build

end DocStore

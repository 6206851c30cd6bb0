import DocStore.Proofs.Operation.Moves

/-!
Databases in one store are isolated by their namespaces.

Clients may take turns in any order, and each may choose its next move by what it has been told so far. What
they are told is what they would have been told with the store to themselves.
-/

namespace DocStore

open DocStore.Script DocStore.Layout

/-- For every namespace what its client does in its next turn, by what it has been told so far, newest first. -/
abbrev Plans :=
  (ns : String) → List (Except StoreError Reply) → Move ns

/-- A store that clients share, and what they have been told so far. -/
structure Shared where
  space : Keyspace
  told : String → List (Except StoreError Reply)

namespace Shared

variable {ns other : String} {left right : Shared}

/-- Nobody has been told anything yet. -/
def start (space : Keyspace) : Shared :=
  ⟨space, fun _ => []⟩

/-- The client on the namespace takes its turn. -/
def next (plans : Plans) (shared : Shared) (ns : String) : Shared :=
  let taken := (plans ns (shared.told ns)).take shared.space
  ⟨taken.2, Function.update shared.told ns (taken.1 :: shared.told ns)⟩

/-- Clients take turns, those on the namespaces of the schedule one after another. -/
def all (plans : Plans) (shared : Shared) (schedule : List String) : Shared :=
  schedule.foldl (next plans) shared

/-- Nobody on the namespace can tell one from the other. -/
structure Alike (ns : String) (left right : Shared) : Prop where
  space : Keyspace.Agree (Under ns) left.space right.space
  told : left.told ns = right.told ns

theorem Alike.refl (ns : String) (shared : Shared) : shared.Alike ns shared :=
  ⟨fun _ _ => rfl, rfl⟩

theorem Alike.next (h : left.Alike ns right) (plans : Plans) :
    (left.next plans ns).Alike ns (right.next plans ns) := by
  obtain ⟨hsame, hagree⟩ := (plans ns (left.told ns)).agree_take h.space
  unfold Shared.next
  rw [← h.told]
  constructor
  · exact hagree
  · simp only [Function.update_self, hsame]

/-- A turn on another namespace does not show. -/
theorem Alike.next_other (h : left.Alike ns right) (hns : isValidName ns = true)
    (hother : isValidName other = true) (hne : other ≠ ns) (plans : Plans) :
    (left.next plans other).Alike ns right := by
  constructor
  · intro key hkey
    have hforeign : ¬Under other key := fun h' => hne (eq_of_under hother hns h' hkey)
    exact ((plans other (left.told other)).find?_take left.space hforeign).trans (h.space key hkey)
  · simp only [Shared.next, Function.update_of_ne hne.symm, h.told]

/-- With the turns of one namespace alone, its client sees the same. -/
theorem Alike.all_filter (h : left.Alike ns right) (hns : isValidName ns = true) (plans : Plans)
    {schedule : List String} (hvalid : ∀ other ∈ schedule, isValidName other = true) :
    (left.all plans schedule).Alike ns (right.all plans (schedule.filter (· = ns))) := by
  induction schedule generalizing left right with
  | nil => exact h
  | cons other rest ih =>
    have hrest : ∀ name ∈ rest, isValidName name = true := fun name hname =>
      hvalid name (List.mem_cons_of_mem other hname)
    by_cases heq : other = ns
    · subst heq
      rw [List.filter_cons_of_pos (by simp)]
      exact ih (h.next plans) hrest
    · rw [List.filter_cons_of_neg (by simp [heq])]
      exact ih (h.next_other hns (hvalid other List.mem_cons_self) heq plans) hrest

end Shared

/-- Namespaces are isolated, whatever the keyspace holds. A script of a client on one changes no key outside
of it, and what it replies and leaves below it depends on nothing else. So clients that take turns in any
order are told what each of them would be told with nobody else there. -/
theorem namespaces_isolated {ns : String} (hns : isValidName ns = true) :
    (∀ (program : Program) (params : List String), program.Serves ns params → ∀ space key, ¬Under ns key →
      (program.run params space).2.find? key = space.find? key) ∧
    (∀ (program : Program) (params : List String), program.Serves ns params →
      ∀ left right, Keyspace.Agree (Under ns) left right → (program.run params left).1 = (program.run params right).1 ∧
        Keyspace.Agree (Under ns) (program.run params left).2 (program.run params right).2) ∧
    ∀ (plans : Plans) (schedule : List String), (∀ other ∈ schedule, isValidName other = true) →
      ∀ space : Keyspace,
        ((Shared.start space).all plans schedule).told ns =
            ((Shared.start space).all plans (schedule.filter (· = ns))).told ns ∧
          Keyspace.Agree (Under ns) ((Shared.start space).all plans schedule).space
            ((Shared.start space).all plans (schedule.filter (· = ns))).space := by
  constructor
  · intro program params hserves space key hkey
    exact hserves.find?_run space hkey
  constructor
  · intro program params hserves left right hagree
    exact hserves.agree_run hagree
  · intro plans schedule hvalid space
    have halike := (Shared.Alike.refl ns (.start space)).all_filter hns plans hvalid
    exact ⟨halike.told, halike.space⟩

/-- Everybody adds the same person all the time. -/
def addingAda : Plans := fun ns _ => addAdaMove ns

/-- A client that adds a person again is told so, and nothing of those that others add. -/
theorem namespaces_isolated_addAda :
    isValidName "p" = true ∧ ¬Under "p" (schemaKey "q") ∧
      (∀ space, ((Build.ofList "p" people [addAda]).script.run (Build.ofList "p" people [addAda]).params
        space).2.find? (schemaKey "q") = space.find? (schemaKey "q")) ∧
      ((Shared.start ∅).all addingAda ["p", "q", "p"]).told "p" =
        ((Shared.start ∅).all addingAda ["p", "p"]).told "p" := by
  have hp : isValidName "p" = true := by decide
  have hq : isValidName "q" = true := by decide
  have hforeign : ¬Under "p" (schemaKey "q") := by
    intro h
    exact absurd (eq_of_under hp hq h (under_schemaKey "q")) (by decide)
  obtain ⟨hframe, -, hmixed⟩ := namespaces_isolated hp
  refine ⟨hp, hforeign, fun space => hframe _ _ (serves_addAda "p") space _ hforeign, ?_⟩
  exact (hmixed addingAda ["p", "q", "p"] (by simp [hp, hq]) ∅).1

end DocStore

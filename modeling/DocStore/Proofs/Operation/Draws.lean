import DocStore.Proofs.Operation.Counters
import DocStore.Proofs.Operation.OneByOne
import DocStore.Proofs.Script.Counters

/-!
Ids are never used again.

A collection's counter gives one id after another, whoever draws them, on whatever namespace, and whatever
becomes of the operations that do: a script that rejects, aborts or fails keeps the ids that it has drawn.
Nothing else moves the counter, whatever else is stored, and were it of the wrong kind. But it has 64 bits, and
after the greatest integer comes the least (`Move.drawsAll_nearLimit`).
-/

namespace DocStore

open DocStore.Script DocStore.Layout

/-- The first that a creation does is to draw an id. -/
theorem Operation.exists_body_create {ns collection : String} {schema : Schema} {attrs : FieldValues}
    {firstParam : Nat} {fragment : Fragment}
    (h : (Operation.create collection attrs).compile ns schema firstParam = .ok fragment) :
    ∃ rest, fragment.body = .declare "id" (.call .incr [.str (nextIdKey ns collection)]) :: rest := by
  obtain ⟨task, htask, rfl⟩ := exists_task_of_compile h
  obtain ⟨coll, work, -, hwork, rfl⟩ := work_of_check htask
  obtain ⟨row, -, -, rfl⟩ := row_of_checkCreate hwork
  exact Task.exists_body_of_draws rfl ns firstParam

/-- The script draws the id first, whatever comes after. -/
theorem Script.Program.mem_draws_of_body {counter : String} {program : Program} {params : List String}
    {space : Keyspace} {first : Int} {rest : List Stmt} {more : List Stmt}
    (hbody : program.body = .declare "ret" (Operation.answer .none noError []) ::
      .block (.declare "id" (.call .incr [.str counter]) :: rest) :: more)
    (hfirst : space.count? counter = some first) :
    Decimal.wrapped (first + 1) ∈ program.draws counter params space := by
  let start := (Machine.start program space).declare "ret" (.table [.str Method.none.name, .str noError] [])
  have hret : (Stmt.declare "ret" (Operation.answer .none noError [])).run params (Machine.start program space) =
      (.ok .next, start) :=
    Stmt.run_declare (Operation.eval_answer Expr.evalAll_nil .none noError) "ret"
  have hstart : start.space.count? counter = some first := hfirst
  obtain ⟨later, hperformed⟩ := Stmt.exists_performed_draw params hstart rest more
  refine @Program.mem_draws program params space counter first [] later ?_ hfirst
  rw [Program.execution, hbody, Stmt.runAll_of_next hret, hperformed]
  rfl

/-- A build that is finished with a script has compiled its first operation. -/
theorem Build.exists_compile {ns : String} {schema : Schema} {op : Operation} {ops : List Operation}
    {result : Option (Program × List String)} (h : (ofList ns schema (op :: ops)).finish = .ok result) :
    ∃ fragment, op.compile ns schema 1 = .ok fragment := by
  cases hcompile : op.compile ns schema 1 with
  | ok fragment => exact ⟨fragment, rfl⟩
  | error e =>
    have hadd : (({} : Build).add ns schema op).error = some e := by simp [add, hcompile]
    have herror : (ofList ns schema (op :: ops)).error = some e := by
      change (addAll ns schema (({} : Build).add ns schema op) ops).error = some e
      rw [addAll_of_error ns schema hadd, hadd]
    simp only [finish, herror] at h
    cases h

/-- A script that begins with the creation of a record draws the next id of the collection, whatever becomes of
it. -/
theorem Build.draws_create {ns collection : String} {schema : Schema} {attrs : FieldValues} {ops : List Operation}
    {program : Program} {params : List String} {space : Keyspace} {first : Int}
    (h : (ofList ns schema (.create collection attrs :: ops)).finish = .ok (some (program, params)))
    (hfirst : space.count? (nextIdKey ns collection) = some first) :
    Decimal.wrapped (first + 1) ∈ program.draws (nextIdKey ns collection) params space := by
  obtain ⟨fragment, hcompile⟩ := exists_compile h
  obtain ⟨rfl, rfl⟩ := of_finish h
  obtain ⟨more, hbody⟩ := exists_body_ofList hcompile ops
  obtain ⟨rest, hfragment⟩ := Operation.exists_body_create hcompile
  apply Program.mem_draws_of_body _ hfirst
  · exact rest
  · exact more ++ [.finish (.var "ret")]
  · simp only [script, hbody, hfragment, List.cons_append]

namespace Move

variable {ns other third : String} {space : Keyspace} {first : Int}

/-- The ids that the move draws from the counter, in order. -/
def draws (counter : String) (space : Keyspace) : Move ns → List Int
  | .run program params _ => program.draws counter params space
  | .read _ _ => []

theorem counts_draws (move : Move ns) (hns : isValidName ns = true) (hother : isValidName other = true)
    (hthird : isValidName third = true) (hfirst : space.stands? (nextIdKey other third) = some first) :
    ∃ last, Counts first (move.draws (nextIdKey other third) space) last ∧
      (move.take space).2.stands? (nextIdKey other third) = some last := by
  cases move with
  | run program params serves =>
    apply Program.counts_draws hfirst
    exact Program.allowed_of_passes (serves.passes hns hother hthird) space
  | read key under =>
    refine ⟨first, .stay first, ?_⟩
    cases hread : space.text? key with
    | ok found => rw [take, Keyspace.execute_get hread, hfirst]
    | error e => rw [take, Keyspace.execute_get_of_error hread, hfirst]

/-- The keyspace after moves of clients, one after another. -/
def takeAll (space : Keyspace) (moves : List (Sigma Move)) : Keyspace :=
  moves.foldl (fun space move => (move.2.take space).2) space

/-- The ids that the moves draw from the counter, in order. -/
def drawsAll (counter : String) (space : Keyspace) : List (Sigma Move) → List Int
  | [] => []
  | move :: rest => move.2.draws counter space ++ drawsAll counter (move.2.take space).2 rest

theorem counts_drawsAll (hother : isValidName other = true) (hthird : isValidName third = true)
    {moves : List (Sigma Move)} (hmoves : ∀ move ∈ moves, isValidName move.1 = true)
    (hfirst : space.stands? (nextIdKey other third) = some first) :
    ∃ last, Counts first (drawsAll (nextIdKey other third) space moves) last ∧
      (takeAll space moves).stands? (nextIdKey other third) = some last := by
  induction moves generalizing space first with
  | nil => exact ⟨first, .stay first, hfirst⟩
  | cons move rest ih =>
    obtain ⟨between, hdrawn, hbetween⟩ :=
      move.2.counts_draws (hmoves move List.mem_cons_self) hother hthird hfirst
    obtain ⟨last, hlater, hlast⟩ := ih (fun next hnext => hmoves next (List.mem_cons_of_mem _ hnext)) hbetween
    exact ⟨last, hdrawn.append hlater, hlast⟩

theorem drawsAll_append (counter : String) (space : Keyspace) (before after : List (Sigma Move)) :
    drawsAll counter space (before ++ after) =
      drawsAll counter space before ++ drawsAll counter (takeAll space before) after := by
  induction before generalizing space with
  | nil => rfl
  | cons move rest ih =>
    rw [List.cons_append, drawsAll, ih, drawsAll, List.append_assoc]
    rfl

/-- Ids are never used again, as long as the counter does not run over. If a collection's counter is missing or
holds an integer, then the ids that are drawn in the course of any moves of clients are the next ones in order,
in 64 bits, whatever else is stored and however the moves end. Up to the limit no move makes the counter smaller,
and the ids become larger and larger. To create a record is to draw one. -/
theorem ids_never_reused {ns collection : String} (hns : isValidName ns = true)
    (hcollection : isValidName collection = true)
    (hfirst : space.count? (nextIdKey ns collection) = some first) :
    (∀ moves : List (Sigma Move), (∀ move ∈ moves, isValidName move.1 = true) →
      (∃ last, Counts first (drawsAll (nextIdKey ns collection) space moves) last ∧
        (takeAll space moves).stands? (nextIdKey ns collection) = some last) ∧
      (first + (drawsAll (nextIdKey ns collection) space moves).length ≤ 9223372036854775807 →
        (∀ before move after, moves = before ++ move :: after → ∃ stood stands : Int,
          (takeAll space before).stands? (nextIdKey ns collection) = some stood ∧
            (takeAll space (before ++ [move])).stands? (nextIdKey ns collection) = some stands ∧ stood ≤ stands) ∧
          (drawsAll (nextIdKey ns collection) space moves).Pairwise (· < ·) ∧
          ∀ id ∈ drawsAll (nextIdKey ns collection) space moves, first < id)) ∧
      ∀ (schema : Schema) (attrs : FieldValues) (ops : List Operation) (program : Program) (params : List String),
        (Build.ofList ns schema (.create collection attrs :: ops)).finish = .ok (some (program, params)) →
          Decimal.wrapped (first + 1) ∈ program.draws (nextIdKey ns collection) params space := by
  have hstands := Keyspace.stands?_of_count? hfirst
  have hrange := Keyspace.inInt64_of_count? hfirst
  refine ⟨fun moves hmoves => ?_, fun schema attrs ops program params h => Build.draws_create h hfirst⟩
  obtain ⟨last, hcounts, hlast⟩ := counts_drawsAll hns hcollection hmoves hstands
  refine ⟨⟨last, hcounts, hlast⟩, fun hlimit => ?_⟩
  have hfits : Decimal.InInt64 (first + (drawsAll (nextIdKey ns collection) space moves).length) :=
    ⟨Int.le_trans hrange.1 (by omega), hlimit⟩
  obtain ⟨-, hascending⟩ := hcounts.ascends hrange hfits
  obtain ⟨habove, hpairwise⟩ := List.pairwise_cons.1 hascending
  refine ⟨?_, hpairwise, habove⟩
  rintro before move after rfl
  obtain ⟨stood, hbefore, hstood⟩ := @counts_drawsAll _ _ space first hns hcollection before
    (fun other hbefore => hmoves other (List.mem_append_left _ hbefore)) hstands
  have hmove : isValidName move.1 = true := hmoves move (List.mem_append_right _ List.mem_cons_self)
  obtain ⟨stands, hmoved, hafter⟩ := move.2.counts_draws hmove hns hcollection hstood
  -- Neither before the move nor after it have there been more ids than in the end.
  rw [drawsAll_append, drawsAll, List.length_append, List.length_append] at hfits
  simp only [Decimal.InInt64] at hrange hfits
  obtain ⟨hstoodAt, -⟩ := hbefore.ascends hrange ⟨by omega, by omega⟩
  obtain ⟨hstandsAt, -⟩ := hmoved.ascends ⟨by omega, by omega⟩ ⟨by omega, by omega⟩
  refine ⟨stood, stands, hstood, ?_, by omega⟩
  rw [takeAll, List.foldl_append]
  exact hafter

/-- A person is added, is rejected the second time, and is added on another namespace, which has a counter of its
own. The rejected one has used up an id. -/
theorem ids_never_reused_addAda :
    isValidName "p" = true ∧ isValidName "people" = true ∧
      (∅ : Keyspace).count? (nextIdKey "p" "people") = some 0 ∧
      drawsAll (nextIdKey "p" "people") ∅ [⟨"p", addAdaMove "p"⟩, ⟨"p", addAdaMove "p"⟩, ⟨"q", addAdaMove "q"⟩] =
        [1, 2] ∧
      (drawsAll (nextIdKey "p" "people") ∅
        [⟨"p", addAdaMove "p"⟩, ⟨"p", addAdaMove "p"⟩, ⟨"q", addAdaMove "q"⟩]).Pairwise (· < ·) := by
  have hcount : (∅ : Keyspace).count? (nextIdKey "p" "people") = some 0 := rfl
  have hnames : ∀ move ∈ ([⟨"p", addAdaMove "p"⟩, ⟨"p", addAdaMove "p"⟩, ⟨"q", addAdaMove "q"⟩] : List (Sigma Move)),
      isValidName move.1 = true := by
    intro move hmove
    simp only [List.mem_cons, List.not_mem_nil, or_false] at hmove
    rcases hmove with rfl | rfl | rfl <;> decide
  have hdraws : drawsAll (nextIdKey "p" "people") ∅
      [⟨"p", addAdaMove "p"⟩, ⟨"p", addAdaMove "p"⟩, ⟨"q", addAdaMove "q"⟩] = [1, 2] := by decide +kernel
  refine ⟨by decide, by decide, hcount, hdraws, ?_⟩
  exact (((ids_never_reused (by decide) (by decide) hcount).1 _ hnames).2 (by rw [hdraws]; decide)).2.1

/-- A namespace whose people have one id left. -/
def nearLimit : Keyspace := ⟨.ofList [(nextIdKey "p" "people", .text "9223372036854775806")]⟩

/-- Ids do not become larger and larger for ever: two additions draw the greatest integer and then the least, and
the counter goes back with them. -/
theorem drawsAll_nearLimit :
    nearLimit.count? (nextIdKey "p" "people") = some 9223372036854775806 ∧
      drawsAll (nextIdKey "p" "people") nearLimit [⟨"p", addAdaMove "p"⟩, ⟨"p", addAdaMove "p"⟩] =
        [9223372036854775807, -9223372036854775808] ∧
      (takeAll nearLimit [⟨"p", addAdaMove "p"⟩]).stands? (nextIdKey "p" "people") = some 9223372036854775807 ∧
      (takeAll nearLimit [⟨"p", addAdaMove "p"⟩, ⟨"p", addAdaMove "p"⟩]).stands? (nextIdKey "p" "people") =
        some (-9223372036854775808) := by
  decide +kernel

end Move

end DocStore

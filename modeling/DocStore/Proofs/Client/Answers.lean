import DocStore.Client.Answer
import DocStore.Proofs.Documents.Listing
import DocStore.Proofs.Operation.Runs

/-!
What a client reads in the answers of scripts.

Every verdict of the model has an answer, and the client reads just that answer in the script's reply, as
long as the ids that are listed are exact as doubles.
-/

namespace DocStore

open DocStore.Client DocStore.Script

/-- The answer to a call that comes to this verdict. -/
def Verdict.answer (schema : Schema) : Verdict → Except Failure Outcome
  | .created id => .ok (.created id)
  | .updated => .ok .updated
  | .deleted => .ok .deleted
  | .notFound method => .error (.operation ⟨method, .notFound, [], none⟩)
  | .notUnique method indices => .error (.operation ⟨method, .notUnique, indices, none⟩)
  | .row collection texts =>
    match schema.collection? collection with
    | none => .error (.protocol (.unknownCollection collection))
    | some coll =>
      match coll.decodeRecord texts.flat with
      | .ok values => .ok (.record values)
      | .error e => .error (.protocol (.stored e))
  | .exists found => .ok (.exists found)
  | .ids _ live => .ok (.ids live)
  | .size count => .ok (.size count)

/-- The answer to a call that comes to this verdict, or to none because nothing was asked for. -/
def answerOf (schema : Schema) : Option Verdict → Except Failure Outcome
  | none => .ok .done
  | some verdict => verdict.answer schema

section Reading

variable {schema : Schema}

theorem textsOfItems_bulk (part : Part) (texts : List String) :
    textsOfItems part (texts.map .bulk) = .ok texts := by
  induction texts with
  | nil => rfl
  | cons text rest ih =>
    simp [textsOfItems, textOf, Reply.text?, ih, bind, Except.bind]

theorem idsOfTexts_ofInt {ids : List Int} (h : ∀ id ∈ ids, Decimal.InInt64 id) :
    idsOfTexts (ids.map Decimal.ofInt) = .ok ids := by
  induction ids with
  | nil => rfl
  | cons id rest ih =>
    simp [idsOfTexts, Decimal.int64?_ofInt (h id List.mem_cons_self),
      ih fun other hother => h other (List.mem_cons_of_mem _ hother), Except.map]

theorem Exact.inInt64 {id : Int} (h : Exact id) : Decimal.InInt64 id := by
  have hpos := h.1
  have hle := h.2
  exact ⟨by omega, by omega⟩

/-- The documents of a collection whose ids are all exact. -/
theorem Documents.exact_of_mem {docs : Documents} (h : docs.Bounded) (hdrawn : docs.drawn ≤ 2 ^ 53)
    {ids : List Int} (hsub : ids.Sublist docs.ids) : ∀ id ∈ ids, Exact id := by
  intro id hid
  obtain ⟨row, hrow⟩ := (Documents.mem_ids h).1 (hsub.subset hid)
  obtain ⟨hpos, hle⟩ := h id row hrow
  exact ⟨hpos, by omega⟩

theorem readAnswer_listed {ids : List Int} (h : ∀ id ∈ ids, Decimal.InInt64 id) {method : Method}
    (hmethod : method = .list ∨ method = .find ∨ method = .findAll) :
    readAnswer schema (.array [.bulk method.name, .bulk noError,
      .array ((ids.map Decimal.ofInt).map .bulk)]) = .ok (.ids ids) := by
  have hread : outcomeOf schema method (some (.array ((ids.map Decimal.ofInt).map .bulk))) none =
      .ok (.ids ids) := by
    rcases hmethod with rfl | rfl | rfl <;>
      simp only [outcomeOf, textsOf, textsOfItems_bulk, idsOfTexts_ofInt h, bind, Except.bind]
  simp [readAnswer, textOf, Reply.text?, Method.ofName?_name, hread, bind, Except.bind, Except.map, -List.map_map]

theorem readAnswer_notUnique (method : Method) (indices : List String) :
    readAnswer schema (Verdict.notUnique method indices).reply =
      (Verdict.notUnique method indices).answer schema := by
  have hne : ErrorCode.notUnique.name ≠ noError := by decide
  have hcode : ErrorCode.ofName? ErrorCode.notUnique.name = some .notUnique := by decide
  simp [Verdict.reply, Verdict.answer, readAnswer, textOf, Reply.text?, Method.ofName?_name, hne, hcode,
    rejectionOf, textsOf, textsOfItems_bulk, bind, Except.bind, Except.map]

theorem readAnswer_notFound (method : Method) :
    readAnswer schema (Verdict.notFound method).reply = (Verdict.notFound method).answer schema := by
  have hne : ErrorCode.notFound.name ≠ noError := by decide
  have hcode : ErrorCode.ofName? ErrorCode.notFound.name = some .notFound := by decide
  simp [Verdict.reply, Verdict.answer, readAnswer, textOf, Reply.text?, Method.ofName?_name, hne, hcode,
    rejectionOf, bind, Except.bind, Except.map]

theorem readAnswer_row (collection : String) (texts : Row) :
    readAnswer schema (Verdict.row collection texts).reply =
      (Verdict.row collection texts).answer schema := by
  simp only [Verdict.reply, Verdict.answer, readAnswer, textOf, Reply.text?, Method.ofName?_name, outcomeOf,
    textsOf, textsOfItems_bulk, bind, Except.bind, Except.map, List.getElem?_cons_zero, List.getElem?_cons_succ,
    Option.getD_some, if_true]
  cases schema.collection? collection with
  | none => rfl
  | some coll =>
    dsimp only
    cases coll.decodeRecord texts.flat <;> rfl

/-- A client reads the answer of the verdict. -/
theorem Work.readAnswer_apply {collection : String} {coll : Collection} {docs : Documents} {work : Work}
    (hfits : work.Fits coll) (hsound : docs.Sound coll) (hdrawn : docs.drawn ≤ 2 ^ 53) :
    readAnswer schema (work.apply collection coll docs).1.reply =
      (work.apply collection coll docs).1.answer schema := by
  cases work with
  | create row =>
    simp only [apply, applyCreate]
    split
    · rfl
    · exact readAnswer_notUnique _ _
  | update id changes =>
    simp only [apply, applyUpdate]
    split
    · exact readAnswer_notFound _
    · split
      · rfl
      · exact readAnswer_notUnique _ _
  | delete id =>
    simp only [apply]
    split
    · rfl
    · exact readAnswer_notFound _
  | get id =>
    simp only [apply]
    split
    · exact readAnswer_notFound _
    · exact readAnswer_row _ _
  | «exists» id =>
    simp only [apply]
    cases (docs.rows id).isSome <;> rfl
  | list =>
    have hexact := Documents.exact_of_mem hsound.bounded hdrawn (List.Sublist.refl docs.ids)
    simp only [apply, Verdict.reply, Verdict.answer]
    rw [listedTexts_of_exact hexact docs.ids_ascending]
    exact readAnswer_listed (fun id hid => (hexact id hid).inInt64) (.inl rfl)
  | size =>
    simp [apply, Verdict.reply, Verdict.answer, readAnswer, textOf, Reply.text?, Method.ofName?_name, outcomeOf,
      intOf, Reply.int?, bind, Except.bind, Except.map]
  | find method index probe =>
    have hexact := Documents.exact_of_mem hsound.bounded hdrawn
      (List.filter_sublist (p := docs.holds index (index.compositeOf (SortedMap.ofList probe))))
    have hfound := foundTexts_of_exact hexact (docs.ids_ascending.filter _)
    simp only [apply, Documents.holders, Verdict.answer]
    rcases hfits.1 with rfl | rfl
    · simp only [Verdict.reply, hfound]
      exact readAnswer_listed (fun id hid => (hexact id hid).inInt64) (.inr (.inl rfl))
    · simp only [Verdict.reply, hfound]
      exact readAnswer_listed (fun id hid => (hexact id hid).inInt64) (.inr (.inr rfl))

end Reading

namespace Library

variable {schema : Schema} {library : Library}

/-- All ids are exact as doubles. -/
def Exact (schema : Schema) (library : Library) : Prop :=
  ∀ name coll, schema.collection? name = some coll → (library name).drawn ≤ 2 ^ 53

theorem Exact.of_le {later : Library} (h : later.Exact schema)
    (hle : ∀ name, (library name).drawn ≤ (later name).drawn) : library.Exact schema :=
  fun name coll hcoll => Nat.le_trans (hle name) (h name coll hcoll)

theorem Exact.inRange (h : library.Exact schema) : library.InRange schema := by
  intro name coll hcoll
  have hle := h name coll hcoll
  exact ⟨by omega, by omega⟩

/-- A client reads the answer of the verdict that a task comes to. -/
theorem readAnswer_perform (hsound : library.Sound schema) {task : Task} (hfits : task.Fits schema)
    (hexact : library.Exact schema) :
    readAnswer schema (library.perform task).1.reply = (library.perform task).1.answer schema :=
  Work.readAnswer_apply hfits.work (hsound _ _ hfits.collection) (hexact _ _ hfits.collection)

/-- A client reads the answer of the last verdict of several tasks. -/
theorem readAnswer_performAll {tasks : List Task} (hfits : ∀ task ∈ tasks, task.Fits schema)
    (hsound : library.Sound schema) {last : Option Verdict}
    (hexact : (library.performAll last tasks).2.Exact schema)
    (hlast : readAnswer schema (lastValue last).toReply = answerOf schema last) :
    readAnswer schema (lastValue (library.performAll last tasks).1).toReply =
      answerOf schema (library.performAll last tasks).1 := by
  induction tasks generalizing library last with
  | nil => exact hlast
  | cons task rest ih =>
    have hfit := hfits task List.mem_cons_self
    have hstart := hexact.of_le fun name => drawn_le_performAll library last (task :: rest) name
    have hone : readAnswer schema (lastValue (some (library.perform task).1)).toReply =
        answerOf schema (some (library.perform task).1) := by
      rw [lastValue, Verdict.toReply_value]
      exact readAnswer_perform hsound hfit hstart
    cases hstops : (library.perform task).1.stops with
    | true =>
      rw [performAll_of_stops hstops]
      exact hone
    | false =>
      rw [performAll_of_next hstops] at hexact ⊢
      exact ih (fun other hother => hfits other (List.mem_cons_of_mem _ hother))
        (sound_perform hsound hfit) hexact hone

theorem fst_batch (library : Library) (tasks : List Task) :
    (library.batch tasks).1 = (library.performAll none tasks).1 := by
  unfold batch
  split <;> simp_all

/-- A client reads the answer of a batch. -/
theorem readAnswer_batch {tasks : List Task} (hfits : ∀ task ∈ tasks, task.Fits schema)
    (hsound : library.Sound schema) (hexact : (library.batch tasks).2.Exact schema) :
    readAnswer schema (lastValue (library.batch tasks).1).toReply =
      answerOf schema (library.batch tasks).1 := by
  rw [fst_batch]
  refine readAnswer_performAll hfits hsound (hexact.of_le fun name => ?_) rfl
  exact Nat.le_of_eq (drawn_batch library tasks name).symm

end Library

end DocStore

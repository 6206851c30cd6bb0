import DocStore.Proofs.Client.Calls

/-!
Runs of a session: handles are opened on one namespace and asked in any order.

From a namespace with nothing but a schema in it, a run leaves the canonical layout of the documents that
the model has, after every query and so also after the last (`Session.Run.layout`). As long as ids are
exact as doubles, it also gives the model's answers (`Session.Run.answers_eq`).
-/

namespace DocStore

open DocStore.Store DocStore.Client DocStore.Script DocStore.Layout

namespace Session

/-- A run: the queries that are asked, their answers, and the session after them. -/
inductive Run (ns : String) : Session → List Query → List (Except Failure Outcome) → Session → Prop
  | done (session : Session) : Run ns session [] [] session
  | opened {session last : Session} {queries : List Query} {answers : List (Except Failure Outcome)}
      (name : String) (shared : Option String) (preload : Bool) :
      Run ns (session.openHandle name ns shared preload).2 queries answers last →
      Run ns session queries answers last
  | asked {session last : Session} {name : String} {opened : Opened} {query : Query}
      {queries : List Query} {answers : List (Except Failure Outcome)} :
      session.handles.find? name = some opened →
      Run ns (session.act name opened (opened.handle.ask query)).2 queries answers last →
      Run ns session (query :: queries)
        ((session.act name opened (opened.handle.ask query)).1 :: answers) last

/-- Every handle is on the namespace, and knows no other schema. -/
def Attended (ns : String) (schema : Schema) (revision : Nat) (session : Session) : Prop :=
  ∀ name opened, session.handles.find? name = some opened →
    opened.handle.ns = ns ∧ Aware schema revision opened.schema

/-- The programs that the store has loaded, and those that queries run. -/
def Involved (ns : String) (schema : Schema) (session : Session) (queries : List Query)
    (program : Program) : Prop :=
  (∃ digest, session.store.memory.scripts.find? digest = some program) ∨
    ∃ query ∈ queries, ∃ params,
      (Build.ofList ns schema query.ops).finish = .ok (some (program, params))

/-- The namespace has nothing but the schema in it, and no handle knows another one. -/
structure Starts (ns : String) (schema : Schema) (revision : Nat) (session : Session) : Prop where
  unrehearsed : session.store.cues = []
  loaded : ∀ digest program, session.store.memory.scripts.find? digest = some program →
    program.compiled.digest = digest
  stored : SchemaStored ns schema revision session.store.memory.space
  fresh : Fresh ns session.store.memory.space
  attended : session.Attended ns schema revision

variable {programs : Program → Prop} {ns : String} {schema : Schema} {revision : Nat} {library : Library}
  {session : Session}

/-- Opening a handle does nothing to the store. -/
theorem openHandle_store (session : Session) (name ns : String) (shared : Option String) (preload : Bool) :
    (session.openHandle name ns shared preload).2.store = session.store := by
  unfold openHandle
  split <;> rfl

theorem Attended.openHandle (h : session.Attended ns schema revision) (name : String)
    (shared : Option String) (preload : Bool) :
    (session.openHandle name ns shared preload).2.Attended ns schema revision := by
  unfold Session.openHandle
  split
  · exact h
  · rename_i handle hhandle
    intro other opened hopened
    dsimp only at hopened
    rw [SortedMap.find?_insert] at hopened
    split at hopened
    · cases hopened
      unfold Handle.open? at hhandle
      split at hhandle
      · cases hhandle
        exact ⟨rfl, .inl rfl⟩
      · cases hhandle
    · exact h other opened hopened

/-- An action of a handle is held with the session's store. -/
theorem act_eq {α : Type} (session : Session) (name : String) (opened : Opened) (action : Act α) :
    (session.act name opened action).1 =
        (action.on opened.schema ⟨session.store, session.cacheOf opened⟩).1.1 ∧
      (session.act name opened action).2.store =
        (action.on opened.schema ⟨session.store, session.cacheOf opened⟩).2.store ∧
      (session.act name opened action).2.handles = session.handles.insert name
        { opened with schema := (action.on opened.schema ⟨session.store, session.cacheOf opened⟩).1.2 } :=
  ⟨rfl, rfl, rfl⟩

/-- A query keeps the store serving, and is answered as by the model. -/
theorem Attended.act (h : session.Attended ns schema revision)
    (hserves : Serves programs ns schema revision library session.store) (hschema : schema.WellFormed)
    (hrevision : revision ≤ Decimal.maxWord64) (hdiffer : DigestsDiffer programs) {name : String}
    {opened : Opened} (hopened : session.handles.find? name = some opened) {query : Query}
    (hprograms : ∀ program params, (Build.ofList ns schema query.ops).finish = .ok (some (program, params)) →
      programs program)
    (hrange : (library.ask schema query).2.InRange schema) :
    (session.act name opened (opened.handle.ask query)).2.Attended ns schema revision ∧
      Serves programs ns schema revision (library.ask schema query).2
        (session.act name opened (opened.handle.ask query)).2.store ∧
      ((library.ask schema query).2.Exact schema →
        (session.act name opened (opened.handle.ask query)).1 = (library.ask schema query).1) := by
  obtain ⟨hns, hknown⟩ := h name opened hopened
  obtain ⟨answer, later, hrun, hlater, hanswer⟩ :=
    (@Serves.on_ask _ _ _ _ _ ⟨session.store, session.cacheOf opened⟩) hserves hschema hrevision hns hknown
      hdiffer hprograms hrange
  obtain ⟨hfirst, hstore, hhandles⟩ := act_eq session name opened (opened.handle.ask query)
  rw [hrun] at hfirst hstore hhandles
  refine ⟨fun other found hfound => ?_, hstore ▸ hlater, fun hexact => hfirst.trans (hanswer hexact)⟩
  rw [hhandles, SortedMap.find?_insert] at hfound
  split at hfound
  · cases hfound
    exact ⟨hns, .inr rfl⟩
  · exact h other found hfound

/-- A run keeps the store serving, and gives the answers of the model. -/
theorem Run.serves {last : Session} {queries : List Query} {answers : List (Except Failure Outcome)}
    (hrun : Run ns session queries answers last) (hschema : schema.WellFormed)
    (hrevision : revision ≤ Decimal.maxWord64) (hdiffer : DigestsDiffer programs)
    (hattended : session.Attended ns schema revision)
    (hserves : Serves programs ns schema revision library session.store)
    (hprograms : ∀ query ∈ queries, ∀ program params,
      (Build.ofList ns schema query.ops).finish = .ok (some (program, params)) → programs program)
    (hrange : (library.askAll schema queries).2.InRange schema) :
    Serves programs ns schema revision (library.askAll schema queries).2 last.store ∧
      ((library.askAll schema queries).2.Exact schema → answers = (library.askAll schema queries).1) := by
  induction hrun generalizing library with
  | done session => exact ⟨hserves, fun _ => rfl⟩
  | opened name shared preload _ ih =>
    exact ih (hattended.openHandle name shared preload) (by rw [openHandle_store]; exact hserves) hprograms
      hrange
  | @asked session last _ opened query queries answers hopened _ ih =>
    have hle := Library.drawn_le_askAll schema (library.ask schema query).2 queries
    obtain ⟨hattended', hserves', hanswer⟩ := hattended.act hserves hschema hrevision hdiffer hopened
      (hprograms query List.mem_cons_self) (hrange.of_le hle)
    obtain ⟨hlast, hanswers⟩ := ih hattended' hserves'
      (fun other hother => hprograms other (List.mem_cons_of_mem _ hother)) hrange
    refine ⟨hlast, fun hexact => ?_⟩
    rw [Library.askAll, hanswer (hexact.of_le hle), hanswers hexact]

/-- A store that starts serves no documents. -/
theorem Starts.serves (h : session.Starts ns schema revision) (hschema : schema.WellFormed)
    (queries : List Query) :
    Serves (session.Involved ns schema queries) ns schema revision Library.empty session.store where
  plain := ⟨h.unrehearsed, fun digest program hloaded =>
    ⟨.inl ⟨digest, hloaded⟩, h.loaded digest program hloaded⟩⟩
  stored := h.stored
  sound := fun _ coll _ => Documents.sound_empty coll
  canonical := .of_fresh hschema h.fresh

/-- A handle that is open can be asked anything. -/
theorem Run.exists_of_open (ns : String) {name : String} {opened : Opened}
    (h : session.handles.find? name = some opened) (queries : List Query) :
    ∃ answers last, Run ns session queries answers last := by
  induction queries generalizing session opened with
  | nil => exact ⟨[], session, .done session⟩
  | cons query rest ih =>
    have hhandles := (act_eq session name opened (opened.handle.ask query)).2.2
    obtain ⟨answers, last, hrun⟩ := ih
      (by rw [hhandles, SortedMap.find?_insert, if_pos rfl])
    exact ⟨_, last, .asked h hrun⟩

/-- A session with the schema of people in the store. -/
def ofPeople : Session :=
  { store.memory.space :=
      ⟨.ofList [(schemaKey "p", .text people.text), (revisionKey "p", .text (Decimal.ofNat 1))]⟩ }

theorem starts_ofPeople : ofPeople.Starts "p" people 1 := by
  have hfind : ∀ key, ofPeople.store.memory.space.find? key =
      if key = revisionKey "p" then some (.text (Decimal.ofNat 1)) else
        if key = schemaKey "p" then some (.text people.text) else none := by
    intro key
    simp only [ofPeople, Keyspace.find?, SortedMap.ofList_eq_overlay, SortedMap.overlay_cons,
      SortedMap.overlay_nil, SortedMap.find?_insert, SortedMap.find?_empty]
  refine ⟨rfl, fun digest program h => ?_, ⟨?_, ?_⟩, fun key _ hkey => ?_, fun name opened h => ?_⟩
  · cases h
  · rw [hfind, if_neg (by decide), if_pos rfl]
  · rw [hfind, if_pos rfl]
  · rw [hfind] at hkey
    by_contra hnot
    rw [SchemaKey, not_or] at hnot
    rw [if_neg hnot.2, if_neg hnot.1] at hkey
    exact hkey rfl
  · cases h

theorem run_ofPeople : ∃ answers last, Run "p" ofPeople [.single addAda, .single addAda] answers last := by
  obtain ⟨answers, last, hrun⟩ := (@Run.exists_of_open (ofPeople.openHandle "h" "p" none true).2 "p" "h"
    ⟨⟨"p", by decide, true⟩, .unloaded, ofPeople.cacheName none⟩)
    (by simp [openHandle, Handle.open?, show isValidName "p" = true by decide, SortedMap.find?_insert])
    [.single addAda, .single addAda]
  exact ⟨answers, last, .opened "h" none true hrun⟩

theorem involved_ofPeople {program : Program}
    (h : ofPeople.Involved "p" people [.single addAda, .single addAda] program) :
    program = (Task.script "p" [addAdaTask]).1 := by
  rcases h with ⟨digest, hloaded⟩ | ⟨query, hquery, params, hfinish⟩
  · cases hloaded
  · have hops : query.ops = [addAda] := by
      simp only [List.mem_cons, List.not_mem_nil, or_false, or_self] at hquery
      rw [hquery]
      rfl
    rw [hops, finish_addAda] at hfinish
    cases hfinish
    rfl

theorem exact_ofPeople :
    (Library.empty.askAll people [.single addAda, .single addAda]).2.Exact people := by
  intro name coll hcoll
  rw [(collection?_people hcoll).1]
  decide +kernel

/-- After a run the keys of the namespace are the canonical layout of the documents that the model has. -/
theorem Run.layout {value : Json} (hschema : Schema.ofJson value = .ok schema)
    (hrevision : revision ≤ Decimal.maxWord64) (hstarts : session.Starts ns schema revision)
    {last : Session} {queries : List Query} {answers : List (Except Failure Outcome)}
    (hrun : Run ns session queries answers last)
    (hdiffer : DigestsDiffer (session.Involved ns schema queries))
    (hrange : (Library.empty.askAll schema queries).2.InRange schema) :
    SchemaStored ns schema revision last.store.memory.space ∧
      (Library.empty.askAll schema queries).2.Sound schema ∧
      Canonical ns schema (Library.empty.askAll schema queries).2 last.store.memory.space := by
  have hwell := Schema.wellFormed_of_ofJson hschema
  have hserves := (hrun.serves hwell hrevision hdiffer hstarts.attended (hstarts.serves hwell queries)
    (fun query hquery program params hfinish => .inr ⟨query, hquery, params, hfinish⟩) hrange).1
  exact ⟨hserves.stored, hserves.sound, hserves.canonical⟩

/-- One person is added, and a second one of the same name is not. -/
theorem layout_ofPeople : ∃ answers last,
    Run "p" ofPeople [.single addAda, .single addAda] answers last ∧
      SchemaStored "p" people 1 last.store.memory.space ∧
      (Library.empty.askAll people [.single addAda, .single addAda]).2.Sound people ∧
      Canonical "p" people (Library.empty.askAll people [.single addAda, .single addAda]).2
        last.store.memory.space := by
  obtain ⟨answers, last, hrun⟩ := run_ofPeople
  exact ⟨answers, last, hrun, hrun.layout people_ofJson (by decide) starts_ofPeople
    (fun a b ha hb _ => (involved_ofPeople ha).trans (involved_ofPeople hb).symm) exact_ofPeople.inRange⟩

/-- A run gives the answers of the model, as long as ids are exact as doubles. -/
theorem Run.answers_eq {value : Json} (hschema : Schema.ofJson value = .ok schema)
    (hrevision : revision ≤ Decimal.maxWord64) (hstarts : session.Starts ns schema revision)
    {last : Session} {queries : List Query} {answers : List (Except Failure Outcome)}
    (hrun : Run ns session queries answers last)
    (hdiffer : DigestsDiffer (session.Involved ns schema queries))
    (hexact : (Library.empty.askAll schema queries).2.Exact schema) :
    answers = (Library.empty.askAll schema queries).1 := by
  have hwell := Schema.wellFormed_of_ofJson hschema
  exact (hrun.serves hwell hrevision hdiffer hstarts.attended (hstarts.serves hwell queries)
    (fun query hquery program params hfinish => .inr ⟨query, hquery, params, hfinish⟩)
    hexact.inRange).2 hexact

/-- One person is added, and a second one of the same name is not. -/
theorem answers_ofPeople : ∃ answers last,
    Run "p" ofPeople [.single addAda, .single addAda] answers last ∧
      answers = (Library.empty.askAll people [.single addAda, .single addAda]).1 := by
  obtain ⟨answers, last, hrun⟩ := run_ofPeople
  exact ⟨answers, last, hrun, hrun.answers_eq people_ofJson (by decide) starts_ofPeople
    (fun a b ha hb _ => (involved_ofPeople ha).trans (involved_ofPeople hb).symm) exact_ofPeople⟩

end Session

end DocStore

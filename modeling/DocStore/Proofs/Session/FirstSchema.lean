import DocStore.Proofs.Client.Visits
import DocStore.Proofs.Session.Runs

/-!
The first schema wins, unless a handle has given up on the one before it.

Once a schema is stored it stays, and no other is accepted, as long as no handle stores one that takes what
was there before for unreadable (`Session.Turns.first_schema_wins`). Such a handle replaces the schema whenever
it stores one, though it could be read by now: what it knows is older than the schema
(`Session.two_schemas_accepted`).
-/

namespace DocStore

open DocStore.Store DocStore.Client DocStore.Script DocStore.Layout

namespace Session

/-- A visit that a handle pays, and the session it comes to. -/
structure Turn where
  before : Session
  name : String
  opened : Opened
  visit : Visit

namespace Turn

/-- What the visit answers. -/
def answer (turn : Turn) : Except Failure Unit :=
  (turn.before.act turn.name turn.opened (turn.opened.handle.visit turn.visit)).1

/-- The session that the visit leaves. -/
def after (turn : Turn) : Session :=
  (turn.before.act turn.name turn.opened (turn.opened.handle.visit turn.visit)).2

/-- The keyspace that the visit comes to. -/
def space (turn : Turn) : Keyspace :=
  turn.before.store.memory.space

/-- The scripts that the visit may run. -/
def Runs (turn : Turn) (program : Program) : Prop :=
  (turn.visit.setsSchema = true ∧ program = setSchemaProgram turn.opened.handle.ns) ∨
    ∃ stored params, turn.space.known turn.opened.handle.ns turn.opened.schema = .loaded stored ∧
      (Build.ofList turn.opened.handle.ns stored.schema turn.visit.ops).finish = .ok (some (program, params))

/-- The handle stores a schema, and takes the one before it for unreadable. -/
def Replaces (turn : Turn) : Prop :=
  turn.opened.schema.isBad = true ∧ turn.visit.setsSchema = true ∧ turn.answer = .ok ()

/-- The visit stores this schema. -/
def Accepts (turn : Turn) (schema : Schema) (revision : Nat) : Prop :=
  ∃ value, turn.visit = .setSchema revision value ∧ Schema.ofJson value = .ok schema ∧ turn.answer = .ok ()

end Turn

/-- Handles on one namespace take turns, in any order. -/
inductive Turns (ns : String) : Session → List Turn → Session → Prop
  | done (session : Session) : Turns ns session [] session
  | opened {session last : Session} {turns : List Turn} (name : String) (shared : Option String)
      (preload : Bool) :
      Turns ns (session.openHandle name ns shared preload).2 turns last → Turns ns session turns last
  | visited (turn : Turn) {last : Session} {turns : List Turn} :
      turn.before.handles.find? turn.name = some turn.opened → turn.opened.handle.ns = ns →
      Turns ns turn.after turns last → Turns ns turn.before (turn :: turns) last

/-- The programs that the store has loaded, and those that turns may run. -/
def Engaged (session : Session) (turns : List Turn) (program : Program) : Prop :=
  (∃ digest, session.store.memory.scripts.find? digest = some program) ∨ ∃ turn ∈ turns, turn.Runs program

/-- The store answers by itself, and keeps scripts under their own digests. -/
structure Unrehearsed (session : Session) : Prop where
  cues : session.store.cues = []
  digests : ∀ digest program, session.store.memory.scripts.find? digest = some program →
    program.compiled.digest = digest

variable {programs : Program → Prop} {ns : String} {schema : Schema} {revision : Nat} {session : Session}

theorem Unrehearsed.plain (h : session.Unrehearsed) (turns : List Turn) :
    session.store.Plain (session.Engaged turns) :=
  ⟨h.cues, fun digest program hloaded => ⟨.inl ⟨digest, hloaded⟩, h.digests digest program hloaded⟩⟩

namespace Turn

variable {turn : Turn}

/-- A handle that stores a schema does so as `Keyspace.setSchemaAs` does. -/
theorem of_setSchema (hplain : turn.before.store.Plain programs) (hdiffer : DigestsDiffer programs)
    (hprograms : ∀ program, turn.Runs program → programs program) {number : Nat} {value : Json}
    (hvisit : turn.visit = .setSchema number value) :
    turn.after.store.Plain programs ∧
      turn.answer = (turn.space.setSchemaAs turn.opened.handle.ns number value turn.opened.schema).1.1 ∧
      turn.after.store.memory.space =
        (turn.space.setSchemaAs turn.opened.handle.ns number value turn.opened.schema).2 := by
  have hprogram : programs (setSchemaProgram turn.opened.handle.ns) :=
    hprograms _ (.inl ⟨by rw [hvisit]; rfl, rfl⟩)
  obtain ⟨later, hrun, hlater, hspace⟩ :=
    (@Client.on_setSchema _ ⟨turn.before.store, turn.before.cacheOf turn.opened⟩) hplain hdiffer hprogram
      number value turn.opened.schema
  obtain ⟨hanswer, hstore, -⟩ :=
    act_eq turn.before turn.name turn.opened (turn.opened.handle.setSchema number value)
  rw [hrun] at hanswer hstore
  rw [answer, after, hvisit, Handle.visit, hstore]
  exact ⟨hlater, hanswer, hspace⟩

/-- Every other visit leaves the schema where it is. -/
theorem of_not_setsSchema (hplain : turn.before.store.Plain programs) (hdiffer : DigestsDiffer programs)
    (hprograms : ∀ program, turn.Runs program → programs program) (hvisit : turn.visit.setsSchema = false) :
    turn.after.store.Plain programs ∧
      (∀ key, SchemaKey turn.opened.handle.ns key →
        turn.after.store.memory.space.find? key = turn.space.find? key) ∧
      turn.after.handles = turn.before.handles.insert turn.name
        { turn.opened with schema := turn.space.known turn.opened.handle.ns turn.opened.schema } := by
  obtain ⟨answer, later, hrun, haside⟩ :=
    (@Client.on_visit _ ⟨turn.before.store, turn.before.cacheOf turn.opened⟩) hplain hdiffer
      turn.opened.schema hvisit fun stored hknown program params hfinish =>
        hprograms program (.inr ⟨stored, params, hknown, hfinish⟩)
  obtain ⟨-, hstore, hhandles⟩ :=
    act_eq turn.before turn.name turn.opened (turn.opened.handle.visit turn.visit)
  rw [hrun] at hstore hhandles
  rw [after, hstore]
  exact ⟨haside.plain, fun key hkey => haside.frame key (not_documentKey hkey), hhandles⟩

/-- Once a schema is stored, only a handle that has given up on it stores another. -/
theorem answer_iff (hplain : turn.before.store.Plain programs) (hdiffer : DigestsDiffer programs)
    (hprograms : ∀ program, turn.Runs program → programs program) (hschema : schema.WellFormed)
    (hrevision : revision ≤ Decimal.maxWord64)
    (hstored : SchemaStored turn.opened.handle.ns schema revision turn.space) {number : Nat} {value : Json}
    (hvisit : turn.visit = .setSchema number value) :
    turn.answer = .ok () ↔ 1 ≤ number ∧ ∃ other, Schema.ofJson value = .ok other ∧
      (turn.opened.schema.isBad = true ∨ (other = schema ∧ number = revision)) := by
  rw [(of_setSchema hplain hdiffer hprograms hvisit).2.1]
  cases hbad : turn.opened.schema with
  | bad reason =>
    rw [(hstored.setSchemaAs_of_bad number value reason).1]
    simp [SchemaState.isBad]
  | unloaded | loaded stored =>
    rw [(hstored.setSchemaAs_of_readable hschema hrevision rfl number value).2]
    simp only [SchemaState.isBad]
    apply and_congr_right
    intro _
    constructor
    · rintro ⟨hother, hnumber⟩
      exact ⟨schema, hother, .inr ⟨rfl, hnumber⟩⟩
    · rintro ⟨other, hother, hfalse | ⟨rfl, hnumber⟩⟩
      · cases hfalse
      · exact ⟨hother, hnumber⟩

/-- A stored schema stays unless a handle replaces it that has given up on it. -/
theorem keeps_schema (hplain : turn.before.store.Plain programs) (hdiffer : DigestsDiffer programs)
    (hprograms : ∀ program, turn.Runs program → programs program) (hschema : schema.WellFormed)
    (hrevision : revision ≤ Decimal.maxWord64)
    (hstored : SchemaStored turn.opened.handle.ns schema revision turn.space) (hreplaces : ¬turn.Replaces) :
    SchemaStored turn.opened.handle.ns schema revision turn.after.store.memory.space := by
  cases hvisit : turn.visit with
  | setSchema number value =>
    obtain ⟨-, hanswer, hspace⟩ := of_setSchema hplain hdiffer hprograms hvisit
    rw [hspace]
    cases hknown : turn.opened.schema with
    | bad reason =>
      have hrefused : turn.answer ≠ .ok () := fun hok =>
        hreplaces ⟨by rw [hknown]; rfl, by rw [hvisit]; rfl, hok⟩
      rw [hanswer, hknown] at hrefused
      rw [(hstored.setSchemaAs_of_bad number value reason).2 hrefused]
      exact hstored
    | unloaded | loaded stored =>
      rw [(hstored.setSchemaAs_of_readable hschema hrevision rfl number value).1]
      exact hstored
  | getSchema | schemaDigest | currentId collection | ask query =>
    exact hstored.congr (of_not_setsSchema hplain hdiffer hprograms (by rw [hvisit]; rfl)).2.1

/-- A visit leaves the store answering by itself. -/
theorem plain_after (hplain : turn.before.store.Plain programs) (hdiffer : DigestsDiffer programs)
    (hprograms : ∀ program, turn.Runs program → programs program) : turn.after.store.Plain programs := by
  cases hvisit : turn.visit with
  | setSchema number value => exact (of_setSchema hplain hdiffer hprograms hvisit).1
  | getSchema | schemaDigest | currentId collection | ask query =>
    exact (of_not_setsSchema hplain hdiffer hprograms (by rw [hvisit]; rfl)).1

/-- A schema that a visit stores is stored. -/
theorem Accepts.stored (h : turn.Accepts schema revision) (hplain : turn.before.store.Plain programs)
    (hdiffer : DigestsDiffer programs) (hprograms : ∀ program, turn.Runs program → programs program) :
    SchemaStored turn.opened.handle.ns schema revision turn.after.store.memory.space := by
  obtain ⟨value, hvisit, hschema, hok⟩ := h
  obtain ⟨-, hanswer, hspace⟩ := of_setSchema hplain hdiffer hprograms hvisit
  obtain ⟨other, hother, -, -, hstored⟩ := SchemaStored.of_setSchemaAs (hanswer ▸ hok)
  cases hschema.symm.trans hother
  rw [hspace]
  exact hstored

end Turn

namespace Turns

/-- The first turns of a run are a run to where the others begin. -/
theorem split {last : Session} {earlier later : List Turn} (h : Turns ns session (earlier ++ later) last) :
    ∃ middle, Turns ns session earlier middle ∧ Turns ns middle later last := by
  generalize hturns : earlier ++ later = turns at h
  induction h generalizing earlier with
  | done session =>
    obtain ⟨rfl, rfl⟩ := List.append_eq_nil_iff.1 hturns
    exact ⟨session, .done session, .done session⟩
  | opened name shared preload _ ih =>
    obtain ⟨middle, hfirst, hrest⟩ := ih hturns
    exact ⟨middle, .opened name shared preload hfirst, hrest⟩
  | visited turn hopened hns hrun ih =>
    cases earlier with
    | nil =>
      subst hturns
      exact ⟨_, .done _, .visited turn hopened hns hrun⟩
    | cons head rest =>
      obtain ⟨rfl, hrest⟩ := List.cons.inj hturns
      obtain ⟨middle, hfirst, hlast⟩ := ih hrest
      exact ⟨middle, .visited _ hopened hns hfirst, hlast⟩

/-- The next turn comes to the store as it is. -/
theorem next {last : Session} {turn : Turn} {later : List Turn} (h : Turns ns session (turn :: later) last) :
    turn.before.store = session.store ∧ turn.opened.handle.ns = ns ∧ Turns ns turn.after later last := by
  generalize hturns : turn :: later = turns at h
  induction h with
  | done session => cases hturns
  | opened name shared preload _ ih =>
    rw [openHandle_store] at ih
    exact ih hturns
  | visited turn hopened hns hrun =>
    cases hturns
    exact ⟨rfl, hns, hrun⟩

/-- A run leaves the store answering by itself. -/
theorem plain_last {last : Session} {turns : List Turn} (h : Turns ns session turns last)
    (hdiffer : DigestsDiffer programs)
    (hprograms : ∀ turn ∈ turns, ∀ program, turn.Runs program → programs program)
    (hplain : session.store.Plain programs) : last.store.Plain programs := by
  induction h with
  | done session => exact hplain
  | opened name shared preload _ ih => exact ih hprograms (by rw [openHandle_store]; exact hplain)
  | visited turn _ _ _ ih =>
    exact ih (fun other hother => hprograms other (List.mem_cons_of_mem _ hother))
      (Turn.plain_after hplain hdiffer (hprograms _ List.mem_cons_self))

/-- A schema stays through a run in which no handle replaces it that has given up on it. -/
theorem keeps_schema {last : Session} {turns : List Turn} (h : Turns ns session turns last)
    (hdiffer : DigestsDiffer programs)
    (hprograms : ∀ turn ∈ turns, ∀ program, turn.Runs program → programs program)
    (hschema : schema.WellFormed) (hrevision : revision ≤ Decimal.maxWord64)
    (hplain : session.store.Plain programs)
    (hstored : SchemaStored ns schema revision session.store.memory.space)
    (hreplaces : ∀ turn ∈ turns, ¬turn.Replaces) :
    SchemaStored ns schema revision last.store.memory.space := by
  induction h with
  | done session => exact hstored
  | opened name shared preload _ ih =>
    rw [openHandle_store] at ih
    exact ih hprograms hplain hstored hreplaces
  | visited turn _ hns _ ih =>
    subst hns
    have hruns := hprograms _ List.mem_cons_self
    exact ih (fun other hother => hprograms other (List.mem_cons_of_mem _ hother))
      (Turn.plain_after hplain hdiffer hruns)
      (Turn.keeps_schema hplain hdiffer hruns hschema hrevision hstored (hreplaces _ List.mem_cons_self))
      fun other hother => hreplaces other (List.mem_cons_of_mem _ hother)

end Turns

/-- A session with a text in the store that is no schema, and two handles. -/
def ofUnreadable : Session :=
  let store : Rehearsed := { memory.space := ⟨.ofList [(schemaKey "p", .text "[")]⟩ }
  ((({ store := store } : Session).openHandle "a" "p" (some "a") true).2.openHandle
    "b" "p" (some "b") true).2

/-- A schema of another collection. -/
def petsJson : Json :=
  .obj [("pets", .obj [("definition", .obj [("name", .str "string")])])]

/-- What that schema reads as. -/
def pets : Schema :=
  ⟨.ofList [("pets", ⟨.ofList [("name", ⟨.string, false, false⟩)], ∅⟩)]⟩

theorem pets_ofJson : Schema.ofJson petsJson = .ok pets := by
  with_unfolding_all rfl

/-- The second handle looks for the schema, and gives up on it. -/
def look : Turn :=
  ⟨ofUnreadable, "b", ⟨⟨"p", by decide, true⟩, .unloaded, "shared b"⟩, .getSchema⟩

/-- The first handle replaces it. -/
def repair : Turn :=
  ⟨look.after, "a", ⟨⟨"p", by decide, true⟩, .unloaded, "shared a"⟩, .setSchema 1 peopleJson⟩

/-- The second handle stores a schema of its own. -/
def overrule : Turn :=
  ⟨repair.after, "b", ⟨⟨"p", by decide, true⟩, .bad (.schema .notJson), "shared b"⟩, .setSchema 1 petsJson⟩

theorem known_ofUnreadable : look.space.known "p" .unloaded = .bad (.schema .notJson) := by
  have htext : look.space.text? (schemaKey "p") = .ok (some "[") := by decide +kernel
  have hrevision : look.space.text? (revisionKey "p") = .ok none := by decide +kernel
  have hread : StoredSchema.read "[" none = .error (.schema .notJson) := by decide +kernel
  simp only [Keyspace.known, Keyspace.knowSchema, Keyspace.lookSchema, htext, hrevision, hread]

theorem handles_ofUnreadable : ofUnreadable.handles.find? "a" = some repair.opened ∧
    ofUnreadable.handles.find? "b" = some look.opened := by
  simp [ofUnreadable, openHandle, Handle.open?, show isValidName "p" = true by decide, cacheName,
    SortedMap.find?_insert, repair, look]

theorem unrehearsed_ofUnreadable : ofUnreadable.Unrehearsed :=
  ⟨rfl, fun digest program h => by cases h⟩

/-- A turn without operations runs no script but the one that stores a schema. -/
theorem Turn.Runs.of_ops_nil {turn : Turn} {program : Program} (h : turn.Runs program)
    (hops : turn.visit.ops = []) : program = setSchemaProgram turn.opened.handle.ns := by
  rcases h with ⟨-, rfl⟩ | ⟨stored, params, -, hfinish⟩
  · rfl
  · rw [hops] at hfinish
    cases hfinish

theorem engaged_ofUnreadable {program : Program} (h : ofUnreadable.Engaged [look, repair, overrule] program) :
    program = setSchemaProgram "p" := by
  rcases h with ⟨digest, hloaded⟩ | ⟨turn, hturn, hruns⟩
  · cases hloaded
  · simp only [List.mem_cons, List.not_mem_nil, or_false] at hturn
    rcases hturn with rfl | rfl | rfl <;> exact hruns.of_ops_nil rfl

theorem differ_ofUnreadable : DigestsDiffer (ofUnreadable.Engaged [look, repair, overrule]) :=
  fun _ _ ha hb _ => (engaged_ofUnreadable ha).trans (engaged_ofUnreadable hb).symm

theorem turns_ofUnreadable : Turns "p" ofUnreadable [look, repair, overrule] overrule.after := by
  have hplain := unrehearsed_ofUnreadable.plain [look, repair, overrule]
  have hlook := (Turn.of_not_setsSchema hplain differ_ofUnreadable
    (fun program hruns => .inr ⟨look, by simp, hruns⟩) rfl).2.2
  rw [show look.space.known look.opened.handle.ns look.opened.schema = _ from known_ofUnreadable] at hlook
  have hrepair : repair.before.handles.find? repair.name = some repair.opened := by
    change look.after.handles.find? "a" = _
    rw [hlook, SortedMap.find?_insert, if_neg (by decide)]
    exact handles_ofUnreadable.1
  have hoverrule : overrule.before.handles.find? overrule.name = some overrule.opened := by
    change repair.after.handles.find? "b" = _
    rw [Turn.after, (act_eq _ _ _ _).2.2, SortedMap.find?_insert, if_neg (by decide)]
    change look.after.handles.find? "b" = _
    rw [hlook, SortedMap.find?_insert, if_pos (by rfl)]
    rfl
  exact .visited look handles_ofUnreadable.2 rfl
    (.visited repair hrepair rfl (.visited overrule hoverrule rfl (.done _)))

theorem accepts_repair : repair.Accepts people 1 := by
  have hplain := unrehearsed_ofUnreadable.plain [look, repair, overrule]
  have hlook : ∀ program, look.Runs program → ofUnreadable.Engaged [look, repair, overrule] program :=
    fun program hruns => .inr ⟨look, by simp, hruns⟩
  have hframe := (Turn.of_not_setsSchema hplain differ_ofUnreadable hlook rfl).2.1
  have htext : repair.space.text? (schemaKey "p") = .ok (some "[") :=
    Keyspace.text?_of_find? ((hframe _ (.inl rfl)).trans (by decide +kernel))
  have hrevision : repair.space.text? (revisionKey "p") = .ok none :=
    Keyspace.text?_of_find? ((hframe _ (.inr rfl)).trans (by decide +kernel))
  have hread : StoredSchema.read "[" none = .error (.schema .notJson) := by decide +kernel
  refine ⟨peopleJson, rfl, people_ofJson, ?_⟩
  rw [(Turn.of_setSchema (Turn.plain_after hplain differ_ofUnreadable hlook) differ_ofUnreadable
    (fun program hruns => .inr ⟨repair, by simp, hruns⟩) rfl).2.1]
  change (repair.space.setSchemaAs "p" 1 peopleJson .unloaded).1.1 = _
  simp [Keyspace.setSchemaAs, people_ofJson, Keyspace.beforeSetting, Keyspace.lookSchema, htext, hrevision,
    hread, Handle.isUnusableSchema, Keyspace.acceptSchema, SchemaState.isBad, Keyspace.setSchema]

/-- After a schema has been stored, and until a handle replaces it that has given up on the one before,
the schema and its revision stay, and a schema is stored if and only if it is the same one again, or comes
from such a handle. -/
theorem Turns.first_schema_wins {last : Session} {earlier middle rest : List Turn} {first turn : Turn}
    (hrun : Turns ns session (earlier ++ first :: (middle ++ turn :: rest)) last)
    (hsession : session.Unrehearsed)
    (hdiffer : DigestsDiffer (session.Engaged (earlier ++ first :: (middle ++ turn :: rest))))
    (hfirst : first.Accepts schema revision) (hrevision : revision ≤ Decimal.maxWord64)
    (hmiddle : ∀ other ∈ middle, ¬other.Replaces) :
    SchemaStored ns schema revision turn.space ∧
      ∀ number value, turn.visit = .setSchema number value →
        (turn.answer = .ok () ↔ 1 ≤ number ∧ ∃ other, Schema.ofJson value = .ok other ∧
          (turn.opened.schema.isBad = true ∨ (other = schema ∧ number = revision))) := by
  have hplain := hsession.plain (earlier ++ first :: (middle ++ turn :: rest))
  have hprograms : ∀ turn' ∈ earlier ++ first :: (middle ++ turn :: rest), ∀ program,
      turn'.Runs program → session.Engaged (earlier ++ first :: (middle ++ turn :: rest)) program :=
    fun turn' hturn' program hruns => .inr ⟨turn', hturn', hruns⟩
  generalize session.Engaged (earlier ++ first :: (middle ++ turn :: rest)) = programs at *
  obtain ⟨value, -, hvalue, -⟩ := id hfirst
  have hschema := Schema.wellFormed_of_ofJson hvalue
  obtain ⟨before, hearlier, hlater⟩ := hrun.split
  obtain ⟨hbefore, hns, hafter⟩ := hlater.next
  have hplain' := hearlier.plain_last hdiffer (fun other hother => hprograms other (by simp [hother])) hplain
  rw [← hbefore] at hplain'
  have hruns := hprograms first (by simp)
  have hstored := hfirst.stored hplain' hdiffer hruns
  rw [hns] at hstored
  obtain ⟨between, hmiddles, hlast⟩ := hafter.split
  have hruns' : ∀ other ∈ middle, ∀ program, other.Runs program → programs program :=
    fun other hother => hprograms other (by simp [hother])
  have hplain'' := hmiddles.plain_last hdiffer hruns' (Turn.plain_after hplain' hdiffer hruns)
  have hkept := hmiddles.keeps_schema hdiffer hruns' hschema hrevision
    (Turn.plain_after hplain' hdiffer hruns) hstored hmiddle
  obtain ⟨hbetween, hns', -⟩ := hlast.next
  rw [← hbetween] at hplain'' hkept
  refine ⟨hkept, fun number value hvisit => ?_⟩
  rw [← hns'] at hkept
  exact Turn.answer_iff hplain'' hdiffer (hprograms turn (by simp)) hschema hrevision hkept hvisit

/-- The second handle finds a schema stored, and overrules it. -/
theorem first_schema_wins_ofUnreadable :
    SchemaStored "p" people 1 overrule.space ∧ overrule.answer = .ok () := by
  obtain ⟨hstored, hiff⟩ := (@Turns.first_schema_wins "p" people 1 ofUnreadable overrule.after [look] []
    [] repair overrule) turns_ofUnreadable unrehearsed_ofUnreadable differ_ofUnreadable accepts_repair
    (by decide) (fun turn hturn => by cases hturn)
  exact ⟨hstored, (hiff 1 petsJson rfl).2 ⟨Nat.le_refl 1, pets, pets_ofJson, .inl rfl⟩⟩

/-- Two handles that both have given up on an unreadable schema store different ones, and it is the second
that stays. -/
theorem two_schemas_accepted : ∃ session first second last earlier, session.Unrehearsed ∧
    Turns "p" session (earlier ++ [first, second]) last ∧ first.Accepts people 1 ∧ second.Accepts pets 1 ∧
      SchemaStored "p" pets 1 last.store.memory.space := by
  have hplain := unrehearsed_ofUnreadable.plain [look, repair, overrule]
  have hruns : ∀ turn ∈ [look, repair, overrule], ∀ program, turn.Runs program →
      ofUnreadable.Engaged [look, repair, overrule] program :=
    fun turn hturn program hruns => .inr ⟨turn, hturn, hruns⟩
  have hrepair : repair.before.store.Plain (ofUnreadable.Engaged [look, repair, overrule]) :=
    Turn.plain_after hplain differ_ofUnreadable (hruns look (by simp))
  have hoverrule : overrule.before.store.Plain (ofUnreadable.Engaged [look, repair, overrule]) :=
    Turn.plain_after hrepair differ_ofUnreadable (hruns repair (by simp))
  have hstored : SchemaStored "p" people 1 overrule.space := by
    rw [overrule, Turn.space]
    exact accepts_repair.stored hrepair differ_ofUnreadable (hruns repair (by simp))
  have hanswer : overrule.answer = .ok () := by
    rw [Turn.answer_iff hoverrule differ_ofUnreadable (hruns overrule (by simp))
      (Schema.wellFormed_of_ofJson people_ofJson) (by decide) hstored rfl]
    exact ⟨Nat.le_refl 1, pets, pets_ofJson, .inl rfl⟩
  have haccepts : overrule.Accepts pets 1 := ⟨petsJson, rfl, pets_ofJson, hanswer⟩
  exact ⟨ofUnreadable, repair, overrule, overrule.after, [look], unrehearsed_ofUnreadable, turns_ofUnreadable,
    accepts_repair, haccepts, haccepts.stored hoverrule differ_ofUnreadable (hruns overrule (by simp))⟩

end Session

end DocStore

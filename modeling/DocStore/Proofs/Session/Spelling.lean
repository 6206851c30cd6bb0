import DocStore.Proofs.Schema.Spelling
import DocStore.Proofs.Session.FirstSchema

/-!
A schema is stored again in any spelling.

What a call to store a schema does with a JSON value goes by the schema that it is read as. Two spellings of one
schema are read as the same, or both rejected, and once a handle has stored one of them, any handle may store the
other and nothing changes (`Schema.respelled_same`).
-/

namespace DocStore

open DocStore.Json DocStore.Store DocStore.Client DocStore.Script DocStore.Layout

namespace Session

/-- After a handle has stored the first value as a schema, and until a handle replaces it that has given up on the
one before, any handle stores the second under the same revision, and changes nothing. -/
def StoresAgain (given again : Json) : Prop :=
  ∀ {ns : String} {session last : Session} {first second : Turn} {middle : List Turn} {revision : Nat},
    Turns ns session (first :: (middle ++ [second])) last → session.Unrehearsed →
    DigestsDiffer (session.Engaged (first :: (middle ++ [second]))) → (∀ turn ∈ middle, ¬turn.Replaces) →
    revision ≤ Decimal.maxWord64 → first.visit = .setSchema revision given → first.answer = .ok () →
    second.visit = .setSchema revision again →
    second.answer = .ok () ∧ second.after.store.memory.space = second.space

/-- A value that is read as the same schema is stored again. -/
theorem storesAgain_of_ofJson {given again : Json}
    (h : ∀ schema, Schema.ofJson given = .ok schema → Schema.ofJson again = .ok schema) :
    StoresAgain given again := by
  intro ns session last first second middle revision hrun hsession hdiffer hmiddle hrevision hfirst hok hsecond
  have hplain := hsession.plain (first :: (middle ++ [second]))
  have hprograms : ∀ turn ∈ first :: (middle ++ [second]), ∀ program, turn.Runs program →
      session.Engaged (first :: (middle ++ [second])) program :=
    fun turn hturn program hruns => .inr ⟨turn, hturn, hruns⟩
  generalize session.Engaged (first :: (middle ++ [second])) = programs at *
  obtain ⟨hbefore, hns, hafter⟩ := hrun.next
  rw [← hbefore] at hplain
  -- The first turn stores the schema.
  obtain ⟨hplain', hanswer, hspace⟩ := Turn.of_setSchema hplain hdiffer (hprograms first (by simp)) hfirst
  rw [hanswer] at hok
  obtain ⟨schema, hschema, hpositive, -, hstored⟩ := SchemaStored.of_setSchemaAs hok
  rw [← hspace, hns] at hstored
  have hwell := Schema.wellFormed_of_ofJson hschema
  -- It stays until the second turn.
  have hruns : ∀ turn ∈ middle, ∀ program, turn.Runs program → programs program :=
    fun turn hturn => hprograms turn (by simp [hturn])
  obtain ⟨between, hmiddles, hlast⟩ := hafter.split
  obtain ⟨hbetween, hns', -⟩ := hlast.next
  have hkept := hmiddles.keeps_schema hdiffer hruns hwell hrevision hplain' hstored hmiddle
  have hplain'' := hmiddles.plain_last hdiffer hruns hplain'
  rw [← hbetween] at hkept hplain''
  obtain ⟨-, hanswer', hspace'⟩ := Turn.of_setSchema hplain'' hdiffer (hprograms second (by simp)) hsecond
  rw [hanswer', hspace', hns']
  exact hkept.setSchemaAs_again hwell hpositive hrevision (h schema hschema) second.opened.schema

end Session

/-- Two spellings of a schema are read as the same schema or both rejected, and once one of them has been stored
the other can be stored, too, and nothing changes. -/
theorem Schema.respelled_same {a b : Json} (h : Schema.Respelled a b) :
    (∀ schema, Schema.ofJson a = .ok schema ↔ Schema.ofJson b = .ok schema) ∧ Session.StoresAgain a b ∧
      Session.StoresAgain b a := by
  have hsame := ofJson_sameResult h
  exact ⟨hsame, Session.storesAgain_of_ofJson fun schema => (hsame schema).1,
    Session.storesAgain_of_ofJson fun schema => (hsame schema).2⟩

namespace Session

/-- An empty store, and two handles. -/
def ofNothing : Session :=
  ((({} : Session).openHandle "a" "p" (some "a") true).2.openHandle "b" "p" (some "b") true).2

/-- The first handle stores a schema in its shortest spelling. -/
def storeShort : Turn :=
  ⟨ofNothing, "a", ⟨⟨"p", isValidName_p, true⟩, .unloaded, "shared a"⟩, .setSchema 1 Schema.shortJson⟩

/-- The second handle stores it in a longer spelling. -/
def storeLong : Turn :=
  ⟨storeShort.after, "b", ⟨⟨"p", isValidName_p, true⟩, .unloaded, "shared b"⟩, .setSchema 1 Schema.longJson⟩

theorem unrehearsed_ofNothing : ofNothing.Unrehearsed :=
  ⟨rfl, fun digest program h => by cases h⟩

theorem engaged_ofNothing {program : Program} (h : ofNothing.Engaged [storeShort, storeLong] program) :
    program = setSchemaProgram "p" := by
  rcases h with ⟨digest, hloaded⟩ | ⟨turn, hturn, hruns⟩
  · cases hloaded
  · simp only [List.mem_cons, List.not_mem_nil, or_false] at hturn
    rcases hturn with rfl | rfl <;> exact hruns.of_ops_nil rfl

theorem differ_ofNothing : DigestsDiffer (ofNothing.Engaged [storeShort, storeLong]) :=
  fun _ _ ha hb _ => (engaged_ofNothing ha).trans (engaged_ofNothing hb).symm

theorem turns_ofNothing : Turns "p" ofNothing [storeShort, storeLong] storeLong.after := by
  have hhandles : ofNothing.handles.find? "a" = some storeShort.opened ∧
      ofNothing.handles.find? "b" = some storeLong.opened := by
    simp [ofNothing, openHandle, Handle.open?, isValidName_p, cacheName, SortedMap.find?_insert, storeShort,
      storeLong]
  have hsecond : storeLong.before.handles.find? storeLong.name = some storeLong.opened := by
    change storeShort.after.handles.find? "b" = _
    rw [Turn.after, (act_eq _ _ _ _).2.2, SortedMap.find?_insert, if_neg (by decide)]
    exact hhandles.2
  exact .visited storeShort hhandles.1 rfl (.visited storeLong hsecond rfl (.done _))

theorem answer_storeShort : storeShort.answer = .ok () := by
  have hplain := unrehearsed_ofNothing.plain [storeShort, storeLong]
  have htext : storeShort.space.text? (schemaKey "p") = .ok none := by decide +kernel
  have hshort : Schema.ofJson Schema.shortJson = .ok Schema.short :=
    (Schema.ofJson_sameResult Schema.respelled_long _).2 Schema.longJson_ofJson
  rw [(Turn.of_setSchema hplain differ_ofNothing (fun program hruns => .inr ⟨storeShort, by simp, hruns⟩) rfl).2.1]
  change (storeShort.space.setSchemaAs "p" 1 Schema.shortJson .unloaded).1.1 = _
  simp [Keyspace.setSchemaAs, hshort, Keyspace.beforeSetting, Keyspace.lookSchema, htext,
    Handle.isUnusableSchema, Keyspace.acceptSchema, SchemaState.isBad, Keyspace.setSchema]

end Session

/-- A schema in its shortest spelling is stored, and then stored again in a longer one. -/
theorem Schema.respelled_same_long :
    Schema.ofJson Schema.shortJson = .ok Schema.short ∧ Session.storeLong.answer = .ok () ∧
      Session.storeLong.after.store.memory.space = Session.storeLong.space := by
  obtain ⟨hread, hagain, -⟩ := Schema.respelled_same Schema.respelled_long
  have hstored := @hagain "p" Session.ofNothing _ Session.storeShort Session.storeLong [] 1
    Session.turns_ofNothing Session.unrehearsed_ofNothing Session.differ_ofNothing
    (fun turn hturn => by cases hturn) (by decide) rfl Session.answer_storeShort rfl
  exact ⟨(hread _).2 Schema.longJson_ofJson, hstored⟩

end DocStore

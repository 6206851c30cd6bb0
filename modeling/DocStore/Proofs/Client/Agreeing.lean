import DocStore.Proofs.Client.Running
import DocStore.Proofs.Client.Visits

/-!
Handles on a namespace whose schema can always be read.

Where no schema was stored at first, and none but handles write, all that is ever stored is a schema that
reads back (`Keyspace.Settled`), and it stays. With every step a handle keeps it so, while it relies on the
others to do the same: this makes true what it knows of the schema, though it may have read it long ago.
-/

namespace DocStore

open DocStore.Store DocStore.Client DocStore.Session DocStore.Script DocStore.Layout

/-- This schema is stored, with its revision, and reads back. -/
structure Agreed (ns : String) (stored : StoredSchema) (space : Keyspace) : Prop where
  wellFormed : stored.schema.WellFormed
  revision : ∃ revision ≤ Decimal.maxWord64,
    stored.revision = some revision ∧ SchemaStored ns stored.schema revision space

/-- No schema is stored, or one that reads back. -/
def Keyspace.Settled (ns : String) (space : Keyspace) : Prop :=
  (∀ key, SchemaKey ns key → space.find? key = none) ∨ ∃ stored, Agreed ns stored space

/-- What the handle knows of the schema is so. -/
def Knows (ns : String) (space : Keyspace) (known : SchemaState) : Prop :=
  known = .unloaded ∨ ∃ stored, known = .loaded stored ∧ Agreed ns stored space

/-- The store answers by itself, and what it holds for a schema reads back. -/
structure Store.Rehearsed.Sound (programs : Program → Prop) (ns : String) (store : Rehearsed) : Prop where
  plain : store.Plain programs
  settled : store.memory.space.Settled ns

/-- The store stays sound, and a schema stays that can be read. -/
structure Store.Rehearsed.Onward (programs : Program → Prop) (ns : String) (before after : Rehearsed) : Prop where
  sound : after.Sound programs ns
  keeps : ∀ stored, Agreed ns stored before.memory.space → Agreed ns stored after.memory.space

/-- The step leaves the schema alone. -/
def Client.Taken.Spares (ns : String) (taken : Taken) : Prop :=
  ∀ key, SchemaKey ns key → taken.after.store.memory.space.find? key = taken.before.store.memory.space.find? key

section

variable {programs : Program → Prop} {ns : String} {space after : Keyspace} {stored other : StoredSchema}
  {known : SchemaState}

theorem Agreed.congr (h : Agreed ns stored space)
    (hkeep : ∀ key, SchemaKey ns key → after.find? key = space.find? key) : Agreed ns stored after := by
  obtain ⟨revision, hle, hrevision, hstored⟩ := h.revision
  exact ⟨h.wellFormed, revision, hle, hrevision, hstored.congr hkeep⟩

/-- What is stored for an agreed schema reads back. -/
theorem Agreed.read (h : Agreed ns stored space) :
    ∃ found, space.text? (revisionKey ns) = .ok found ∧
      StoredSchema.read stored.schema.text found = .ok stored := by
  obtain ⟨schema, number⟩ := stored
  obtain ⟨revision, hle, rfl, hstored⟩ := h.revision
  exact ⟨_, hstored.text?_revision, StoredSchema.read_stored h.wellFormed hle⟩

theorem Keyspace.Settled.congr (h : space.Settled ns)
    (hkeep : ∀ key, SchemaKey ns key → after.find? key = space.find? key) : after.Settled ns := by
  rcases h with hnone | ⟨stored, hstored⟩
  · exact .inl fun key hkey => (hkeep key hkey).trans (hnone key hkey)
  · exact .inr ⟨stored, hstored.congr hkeep⟩

theorem Knows.onward {before later : Rehearsed} (h : Knows ns before.memory.space known)
    (honward : before.Onward programs ns later) : Knows ns later.memory.space known := by
  rcases h with rfl | ⟨stored, rfl, hstored⟩
  · exact .inl rfl
  · exact .inr ⟨stored, rfl, honward.keeps stored hstored⟩

/-- A handle that knows what is so has not given up on the schema. -/
theorem Knows.isBad (h : Knows ns space known) : known.isBad = false := by
  rcases h with rfl | ⟨stored, rfl, -⟩ <;> rfl

theorem Store.Rehearsed.Sound.onward {before later : Rehearsed} (h : before.Sound programs ns)
    (hplain : later.Plain programs)
    (hkeep : ∀ key, SchemaKey ns key → later.memory.space.find? key = before.memory.space.find? key) :
    before.Onward programs ns later :=
  ⟨⟨hplain, h.settled.congr hkeep⟩, fun _ hstored => hstored.congr hkeep⟩

end

/-- The script that stores a schema stores it where none is, and otherwise only compares. -/
theorem Keyspace.Settled.setSchema {ns : String} {space : Keyspace} (h : space.Settled ns) {schema : Schema}
    (hschema : schema.WellFormed) {revision : Nat} (hrevision : revision ≤ Decimal.maxWord64) :
    ∃ accepted after, space.setSchema ns schema.text (Decimal.ofNat revision) false = (.ok accepted, after) ∧
      (∀ stored, Agreed ns stored space → Agreed ns stored after) ∧ after.Settled ns ∧
        if accepted then Agreed ns ⟨schema, some revision⟩ after else after = space := by
  rcases h with hnone | ⟨stored, hstored⟩
  · have hset : space.setSchema ns schema.text (Decimal.ofNat revision) false =
        (.ok true, space.withSchema ns schema.text (Decimal.ofNat revision)) := by
      rw [Keyspace.setSchema, @Keyspace.text?_of_find? _ _ none (hnone _ (.inl rfl))]
      rfl
    have hagreed : Agreed ns ⟨schema, some revision⟩ (space.withSchema ns schema.text (Decimal.ofNat revision)) :=
      ⟨hschema, revision, hrevision, rfl, .withSchema space ns schema revision⟩
    refine ⟨true, _, hset, fun stored hstored => ?_, .inr ⟨_, hagreed⟩, hagreed⟩
    obtain ⟨_, _, _, hfound⟩ := hstored.revision
    cases (hnone _ (.inl rfl)).symm.trans hfound.text
  · obtain ⟨number, hnumber, hsame, hfound⟩ := hstored.revision
    refine ⟨_, space, hfound.setSchema schema revision, fun _ => id, .inr ⟨stored, hstored⟩, ?_⟩
    by_cases heq : schema.text = stored.schema.text ∧ revision = number
    · rw [decide_eq_true heq, if_pos rfl]
      obtain ⟨htext, rfl⟩ := heq
      cases Schema.eq_of_text_eq hschema hstored.wellFormed htext
      exact ⟨hschema, revision, hnumber, rfl, hfound⟩
    · rw [decide_eq_false heq, if_neg Bool.false_ne_true]

namespace Client

variable {programs : Program → Prop} {ns : String} {handle : Handle} {known : SchemaState} {course : Course}

/-- What the others do, and each step of the client. -/
def Course.Aside (programs : Program → Prop) (ns : String) (course : Course) (station : Station) : Prop :=
  course.station.store.Onward programs ns station.store

def Taken.Onward (programs : Program → Prop) (ns : String) (taken : Taken) : Prop :=
  taken.before.store.Onward programs ns taken.after.store

/-- The store is sound, and the client has left the schema alone so far. -/
structure Course.Calm (programs : Program → Prop) (ns : String) (course : Course) : Prop where
  sound : course.station.store.Sound programs ns
  spares : ∀ taken ∈ course.taken, taken.Spares ns

theorem stable_calm : Stable (Course.Aside programs ns) (Course.Calm programs ns) :=
  fun _ _ honward h => ⟨honward.sound, h.spares⟩

theorem stable_sound :
    Stable (Course.Aside programs ns) fun course => course.station.store.Sound programs ns :=
  fun _ _ honward _ => honward.sound

theorem stable_knows (known : SchemaState) :
    Stable (Course.Aside programs ns) fun course => Knows ns course.station.store.memory.space known :=
  fun _ _ honward h => h.onward honward

/-- A step that leaves the keyspace alone. -/
theorem Taken.Idle.onward {taken : Taken} (h : taken.Idle programs) (hsound : taken.before.store.Sound programs ns) :
    taken.Onward programs ns :=
  hsound.onward h.plain fun _ _ => by rw [h.space]

theorem Taken.Idle.spares {taken : Taken} (h : taken.Idle programs) : taken.Spares ns :=
  fun _ _ => by rw [h.space]

theorem Course.Calm.idle {step : Step} (h : course.Calm programs ns)
    (hidle : Taken.Idle programs ⟨step, course.station⟩) :
    Taken.Onward programs ns ⟨step, course.station⟩ ∧ (course.answer step).2.Calm programs ns := by
  refine ⟨hidle.onward h.sound, (hidle.onward h.sound).sound, fun taken hmem => ?_⟩
  rcases List.mem_cons.1 hmem with rfl | hmem
  · exact hidle.spares
  · exact h.spares taken hmem

/-- What is found under the key of the schema. -/
def FindsText (ns : String) (answer : Except StoreError (Option String)) (course : Course) : Prop :=
  answer = .ok none ∨ ∃ stored, answer = .ok (some stored.schema.text) ∧
    Agreed ns stored course.station.store.memory.space

/-- What is found under the key of the revision, after the text of the schema. -/
def FindsRevision (ns text : String) (answer : Except StoreError (Option String)) (course : Course) : Prop :=
  ∃ stored found, answer = .ok found ∧ StoredSchema.read text found = .ok stored ∧
    Agreed ns stored course.station.store.memory.space

theorem ensures_text (ns : String) :
    (Call.get (schemaKey ns)).ask.Ensures (Course.Aside programs ns) (Taken.Onward programs ns)
      (Course.Calm programs ns) fun answer course => course.Calm programs ns ∧ FindsText ns answer course := by
  refine Talk.Ensures.ask (fun answer => stable_calm.and ?_) fun course hcourse => ?_
  · rintro course station honward (hnone | ⟨stored, hfound, hstored⟩)
    · exact .inl hnone
    · exact .inr ⟨stored, hfound, honward.keeps stored hstored⟩
  · obtain ⟨hidle, hanswer⟩ := Course.idle_get hcourse.sound.plain (schemaKey ns)
    obtain ⟨honward, hafter⟩ := hcourse.idle hidle
    refine ⟨honward, hafter, ?_⟩
    rw [hanswer]
    rcases hcourse.sound.settled with hnone | ⟨stored, hstored⟩
    · exact .inl (@Keyspace.text?_of_find? _ _ none (hnone _ (.inl rfl)))
    · obtain ⟨_, _, _, hfound⟩ := hstored.revision
      exact .inr ⟨stored, hfound.text?_schema, honward.keeps stored hstored⟩

theorem ensures_revision (ns text : String) :
    (Call.get (revisionKey ns)).ask.Ensures (Course.Aside programs ns) (Taken.Onward programs ns)
      (fun course => course.Calm programs ns ∧ FindsText ns (.ok (some text)) course)
      fun answer course => course.Calm programs ns ∧ FindsRevision ns text answer course := by
  refine Talk.Ensures.ask (fun answer => stable_calm.and ?_) fun course hcourse => ?_
  · rintro course station honward ⟨stored, found, hanswer, hread, hstored⟩
    exact ⟨stored, found, hanswer, hread, honward.keeps stored hstored⟩
  · obtain ⟨hcalm, hnone | ⟨stored, htext, hstored⟩⟩ := hcourse
    · cases hnone
    · cases htext
      obtain ⟨hidle, hanswer⟩ := Course.idle_get hcalm.sound.plain (revisionKey ns)
      obtain ⟨honward, hafter⟩ := hcalm.idle hidle
      obtain ⟨found, hfound, hread⟩ := hstored.read
      exact ⟨honward, hafter, stored, found, hanswer.trans hfound, hread, honward.keeps stored hstored⟩

/-- A handle that looks for the schema finds what is stored, if anything is. -/
theorem ensures_loadSchema (handle : Handle) (method : Method) (known : SchemaState) :
    (handle.loadSchema method).Ensures (Course.Aside programs handle.ns) (Taken.Onward programs handle.ns) known
      (fun course => course.Calm programs handle.ns ∧
        Knows handle.ns course.station.store.memory.space known)
      (fun result later course => course.Calm programs handle.ns ∧
        Knows handle.ns course.station.store.memory.space later ∧
          ∀ stored, result = .ok stored → later = .loaded stored) := by
  cases known with
  | loaded stored =>
    refine Act.Ensures.done rfl fun course hcourse => ⟨hcourse.1, hcourse.2, fun _ hsame => ?_⟩
    cases hsame
    rfl
  | bad reason =>
    refine Act.Ensures.done rfl fun course hcourse => ?_
    rcases hcourse.2 with hknown | ⟨_, hknown, -⟩ <;> cases hknown
  | unloaded =>
    have htext := (@ensures_text programs handle.ns).weaken (fun course (h : course.Calm programs handle.ns ∧
      Knows handle.ns course.station.store.memory.space .unloaded) => h.1) fun _ _ => id
    refine Act.Ensures.get (Act.Ensures.talk htext (fun found => ?_) ?_)
    · cases found with
      | none => exact Act.Ensures.done rfl fun course hcourse => ⟨hcourse.1, .inl rfl, nofun⟩
      | some text =>
        refine Act.Ensures.talk (ensures_revision handle.ns text) (fun revision => ?_) ?_
        · cases hread : StoredSchema.read text revision with
          | ok stored =>
            refine Act.Ensures.set (Act.Ensures.done rfl ?_)
            rintro course ⟨hcalm, found, _, hanswer, hfound, hstored⟩
            cases hanswer
            cases hread.symm.trans hfound
            exact ⟨hcalm, .inr ⟨stored, rfl, hstored⟩, fun _ hsame => by cases hsame; rfl⟩
          | error reason =>
            refine Act.Ensures.set (Act.Ensures.done rfl ?_)
            rintro course ⟨-, found, _, hanswer, hfound, -⟩
            cases hanswer
            cases hread.symm.trans hfound
        · rintro e course ⟨hcalm, _, _, hanswer, -⟩
          cases hanswer
    · rintro e course ⟨hcalm, hfinds⟩
      rcases hfinds with hanswer | ⟨_, hanswer, -⟩ <;> cases hanswer

/-- How a visit that stores a schema ends: the schema is stored, or the client has left the stored one alone. -/
def Visit.Settles (ns : String) (visit : Visit) (result : Except Failure Unit) (space : Keyspace)
    (taken : List Taken) : Prop :=
  ∀ revision value, visit = .setSchema revision value →
    (result = .ok () → ∃ schema, Schema.ofJson value = .ok schema ∧ Agreed ns ⟨schema, some revision⟩ space) ∧
    (result ≠ .ok () → ∀ step ∈ taken, step.Spares ns)

/-- What the answer to the script that stores a schema means. -/
def Course.Answered (programs : Program → Prop) (ns : String) (stored : StoredSchema)
    (result : Except StoreError Reply) (course : Course) : Prop :=
  course.station.store.Sound programs ns ∧ ∃ accepted, result = .ok (setSchemaReply accepted) ∧
    if accepted then Agreed ns stored course.station.store.memory.space
    else ∀ taken ∈ course.taken, taken.Spares ns

theorem carries_setSchema {schema : Schema} (hschema : schema.WellFormed) {revision : Nat}
    (hrevision : revision ≤ Decimal.maxWord64) :
    Carries (Course.Aside programs ns) (Taken.Onward programs ns) programs (setSchemaProgram ns)
      (setSchemaParams schema.text (Decimal.ofNat revision) false) (Course.Calm programs ns)
      (Course.Answered programs ns ⟨schema, some revision⟩) := by
  refine ⟨fun _ h => h.sound.plain, stable_calm, fun _ _ h => h.idle, fun course h hholds => ?_,
    fun _ _ h => h.1.plain, fun result => ?_, fun result course step h hidle => ?_⟩
  · obtain ⟨-, hplain, hspace⟩ := Course.Holds.run hholds h.sound.plain
      (setSchemaParams schema.text (Decimal.ofNat revision) false)
    obtain ⟨accepted, after, hset, hkeeps, hsettled, hafter⟩ := h.sound.settled.setSchema hschema hrevision
    rw [run_setSchemaProgram, hset] at hspace ⊢
    dsimp only at hspace
    subst hspace
    refine ⟨⟨⟨hplain, hsettled⟩, hkeeps⟩, ⟨hplain, hsettled⟩, accepted, rfl, ?_⟩
    cases accepted with
    | true => exact hafter
    | false =>
      intro taken hmem
      rcases List.mem_cons.1 hmem with rfl | hmem
      · exact fun key _ => congrArg (fun space => space.find? key) hafter
      · exact h.spares taken hmem
  · refine fun course station honward ⟨_, accepted, hresult, hafter⟩ => ⟨honward.sound, accepted, hresult, ?_⟩
    cases accepted with
    | true => exact honward.keeps _ hafter
    | false => exact hafter
  · obtain ⟨hsound, accepted, hresult, hafter⟩ := h
    have honward := hidle.onward hsound
    refine ⟨honward, honward.sound, accepted, hresult, ?_⟩
    cases accepted with
    | true => exact honward.keeps _ hafter
    | false =>
      intro taken hmem
      rcases List.mem_cons.1 hmem with rfl | hmem
      · exact hidle.spares
      · exact hafter taken hmem

/-- How it ends: the schema is stored, or the client has left the stored one alone. -/
structure Course.Submitted (programs : Program → Prop) (ns : String) (stored : StoredSchema)
    (result : Except Failure Unit) (known : SchemaState) (course : Course) : Prop where
  sound : course.station.store.Sound programs ns
  knows : Knows ns course.station.store.memory.space known
  accepted : result = .ok () → Agreed ns stored course.station.store.memory.space
  refused : result ≠ .ok () → ∀ taken ∈ course.taken, taken.Spares ns

theorem Course.Calm.submitted (h : course.Calm programs ns)
    (hknows : Knows ns course.station.store.memory.space known)
    (stored : StoredSchema) (e : Failure) : course.Submitted programs ns stored (.error e) known :=
  ⟨h.sound, hknows, nofun, fun _ => h.spares⟩

/-- A schema is sent that must not replace another. -/
theorem ensures_send (hdiffer : DigestsDiffer programs) (hprogram : programs (setSchemaProgram handle.ns))
    {schema : Schema} (hschema : schema.WellFormed) {revision : Nat} (hrevision : revision ≤ Decimal.maxWord64)
    (known : SchemaState) :
    (send handle schema revision false).Ensures (Course.Aside programs handle.ns)
      (Taken.Onward programs handle.ns) known
      (fun course => course.Calm programs handle.ns ∧
        Knows handle.ns course.station.store.memory.space known)
      (Course.Submitted programs handle.ns ⟨schema, some revision⟩) := by
  have hevaluate := Talk.Ensures.frame
    ((@carries_setSchema programs handle.ns schema hschema revision hrevision).evaluate hdiffer hprogram
      (@False.elim _) (@False.elim _) handle.preload)
    (fun station => Knows handle.ns station.store.memory.space known)
    (fun _ _ honward h => h.onward honward) fun _ honward h => h.onward honward
  refine Act.Ensures.talk hevaluate (fun reply => ?_) ?_
  · -- The answer says whether the schema has been accepted.
    have hanswered : ∀ course, (Ended False False (setSchemaProgram handle.ns)
        (Course.Calm programs handle.ns)
        (Course.Answered programs handle.ns ⟨schema, some revision⟩) (.ok reply) course) →
        Course.Answered programs handle.ns ⟨schema, some revision⟩ (.ok reply) course := by
      rintro course (⟨hmissing, -⟩ | ⟨hanswered, -⟩)
      · cases hmissing
      · exact hanswered
    cases hread : readAnswer schema reply with
    | ok outcome =>
      refine Act.Ensures.done rfl fun course hcourse => ?_
      obtain ⟨hsound, accepted, hreply, hafter⟩ := hanswered course hcourse.1
      cases hreply
      rw [readAnswer_setSchemaReply] at hread
      cases accepted with
      | true => exact ⟨hsound, .inr ⟨_, rfl, hafter⟩, fun _ => hafter, fun hne => absurd rfl hne⟩
      | false => cases hread
    | error failure =>
      refine Act.Ensures.done rfl fun course hcourse => ?_
      obtain ⟨hsound, accepted, hreply, hafter⟩ := hanswered course hcourse.1
      cases hreply
      rw [readAnswer_setSchemaReply] at hread
      cases accepted with
      | true => cases hread
      | false => exact ⟨hsound, hcourse.2, nofun, fun _ => hafter⟩
  · rintro e course ⟨⟨-, -, hcalm⟩ | ⟨⟨-, accepted, hreply, -⟩, -⟩, hknows⟩
    · exact hcalm.submitted hknows _ _
    · cases hreply

theorem ensures_submit (hdiffer : DigestsDiffer programs) (hprogram : programs (setSchemaProgram handle.ns))
    {schema : Schema} (hschema : schema.WellFormed) {revision : Nat} (hrevision : revision ≤ Decimal.maxWord64)
    (known : SchemaState) :
    (submit handle schema revision).Ensures (Course.Aside programs handle.ns)
      (Taken.Onward programs handle.ns) known
      (fun course => course.Calm programs handle.ns ∧
        Knows handle.ns course.station.store.memory.space known)
      (Course.Submitted programs handle.ns ⟨schema, some revision⟩) := by
  rw [submit_eq]
  refine Act.Ensures.get ?_
  cases known with
  | unloaded | loaded stored => exact ensures_send hdiffer hprogram hschema hrevision _
  | bad reason =>
    refine Dialog.Ensures.of_not (fun course hcourse => ?_) _
    cases hcourse.2.isBad

theorem ensures_lookForSchema (handle : Handle) :
    (handle.lookForSchema .setSchema).Ensures (Course.Aside programs handle.ns)
      (Taken.Onward programs handle.ns) .unloaded
      (fun course => course.Calm programs handle.ns ∧
        Knows handle.ns course.station.store.memory.space .unloaded)
      (fun _ later course => course.Calm programs handle.ns ∧
        Knows handle.ns course.station.store.memory.space later) := by
  have hload : (discard (handle.loadSchema .setSchema)).Ensures (Course.Aside programs handle.ns)
      (Taken.Onward programs handle.ns) .unloaded
      (fun course => course.Calm programs handle.ns ∧
        Knows handle.ns course.station.store.memory.space .unloaded)
      (fun _ later course => course.Calm programs handle.ns ∧
        Knows handle.ns course.station.store.memory.space later) :=
    Act.Ensures.discard ((ensures_loadSchema handle .setSchema .unloaded).weaken (fun _ => id)
      fun _ _ _ hcourse => ⟨hcourse.1, hcourse.2.1⟩)
  refine Act.Ensures.tryCatch hload (fun _ _ _ => id) fun failure later => ?_
  by_cases hunusable : Handle.isUnusableSchema failure = true
  · rw [if_pos hunusable]
    exact Act.Ensures.done rfl fun _ => id
  · rw [if_neg hunusable]
    exact Act.Ensures.done rfl fun _ => id

/-- A handle that knows nothing wrong stores a schema where none is stored, and otherwise nothing. -/
theorem ensures_setSchema (hdiffer : DigestsDiffer programs) (hprogram : programs (setSchemaProgram handle.ns))
    {revision : Nat} (hrevision : revision ≤ Decimal.maxWord64) (value : Json) (known : SchemaState) :
    (handle.setSchema revision value).Ensures (Course.Aside programs handle.ns)
      (Taken.Onward programs handle.ns) known
      (fun course => course.Calm programs handle.ns ∧
        Knows handle.ns course.station.store.memory.space known)
      (fun result later course => ∃ schema, Course.Submitted programs handle.ns ⟨schema, some revision⟩ result
        later course ∧ (result = .ok () → Schema.ofJson value = .ok schema)) := by
  by_cases hpositive : revision < 1
  · rw [Handle.setSchema, if_pos hpositive]
    refine Act.Ensures.done rfl fun course hcourse => ?_
    exact ⟨⟨∅⟩, hcourse.1.submitted hcourse.2 _ _, fun hok => by cases hok⟩
  · cases hschema : Schema.ofJson value with
    | error e =>
      rw [Handle.setSchema, if_neg hpositive, hschema]
      refine Act.Ensures.done rfl fun course hcourse => ?_
      exact ⟨⟨∅⟩, hcourse.1.submitted hcourse.2 _ _, fun hok => by cases hok⟩
    | ok schema =>
      have hsubmit := fun known => @ensures_submit programs handle hdiffer hprogram schema
        (Schema.wellFormed_of_ofJson hschema) revision hrevision known
      have hset : (handle.setSchema revision value).Ensures (Course.Aside programs handle.ns)
          (Taken.Onward programs handle.ns) known
          (fun course => course.Calm programs handle.ns ∧
            Knows handle.ns course.station.store.memory.space known)
          (Course.Submitted programs handle.ns ⟨schema, some revision⟩) := by
        rw [setSchema_of_ofJson hpositive hschema]
        refine Act.Ensures.get ?_
        by_cases hunloaded : known = .unloaded
        · rw [if_pos hunloaded, hunloaded]
          refine Act.Ensures.bind (ensures_lookForSchema handle) (fun _ later => hsubmit later) ?_
          exact fun e later course hcourse => hcourse.1.submitted hcourse.2 _ _
        · rw [if_neg hunloaded]
          exact hsubmit known
      exact hset.weaken (fun _ => id) fun _ _ _ hcourse => ⟨schema, hcourse, fun _ => rfl⟩

/-- A script of operations leaves the schema alone. -/
theorem carries_operations {program : Program} {params : List String} (hwithin : program.Within (DocumentKey ns)) :
    Carries (Course.Aside programs ns) (Taken.Onward programs ns) programs program params
      (fun course => course.station.store.Sound programs ns)
      (fun _ course => course.station.store.Sound programs ns) := by
  have hidle : ∀ (course : Course) (step : Step), course.station.store.Sound programs ns →
      Taken.Idle programs ⟨step, course.station⟩ →
      Taken.Onward programs ns ⟨step, course.station⟩ ∧
        (course.answer step).2.station.store.Sound programs ns := fun _ _ h hidle =>
    ⟨hidle.onward h, (hidle.onward h).sound⟩
  refine ⟨fun _ h => h.plain, stable_sound, hidle, fun course h hholds => ?_, fun _ _ h => h.plain,
    fun _ => stable_sound, fun _ => hidle⟩
  obtain ⟨-, hplain, hspace⟩ := Course.Holds.run hholds h.plain params
  have honward : course.station.store.Onward programs ns
      (course.answer (.call (.eval program.compiled.digest params))).2.station.store := by
    refine h.onward hplain fun key hkey => ?_
    rw [hspace, Program.find?_run (rooted_documentKey ns) params hwithin _ (not_documentKey hkey)]
  exact ⟨honward, honward.sound⟩

/-- A handle that knows the schema goes on with it. -/
theorem ensures_known {α : Type} {method : Method} {next : StoredSchema → Act α} {stored : StoredSchema}
    {rely : Course → Station → Prop} {guar : Taken → Prop} {pre : Course → Prop}
    {post : Except Failure α → SchemaState → Course → Prop}
    (h : (next stored).Ensures rely guar (.loaded stored) pre post) :
    (handle.loadSchema method >>= next).Ensures rely guar (.loaded stored) pre post := h

/-- Operations leave the schema alone, whatever comes of them. -/
theorem ensures_execute (hdiffer : DigestsDiffer programs) {stored : StoredSchema} (method : Method)
    {ops : List Operation}
    (hprograms : ∀ program params, (Build.ofList handle.ns stored.schema ops).finish =
      .ok (some (program, params)) → programs program) :
    (handle.execute method ops).Ensures (Course.Aside programs handle.ns) (Taken.Onward programs handle.ns)
      (.loaded stored) (fun course => course.station.store.Sound programs handle.ns)
      (fun _ _ course => course.station.store.Sound programs handle.ns) := by
  refine ensures_known ?_
  cases hfinish : (Build.ofList handle.ns stored.schema ops).finish with
  | error e => exact Act.Ensures.done rfl fun _ => id
  | ok script =>
    cases script with
    | none => exact Act.Ensures.done rfl fun _ => id
    | some script =>
      obtain ⟨program, params⟩ := script
      have hcarries := @carries_operations programs handle.ns program params (Build.within_finish hfinish)
      have hevaluate : (evaluate handle.preload program.compiled params).Ensures
          (Course.Aside programs handle.ns) (Taken.Onward programs handle.ns)
          (fun course => course.station.store.Sound programs handle.ns)
          (fun _ course => course.station.store.Sound programs handle.ns) := by
        refine (hcarries.evaluate hdiffer (hprograms program params hfinish) (@False.elim _) (@False.elim _)
          handle.preload).weaken (fun _ => id) ?_
        rintro result course (⟨-, -, h⟩ | ⟨h, -⟩) <;> exact h
      refine Act.Ensures.talk hevaluate (fun reply => ?_) fun _ _ => id
      cases readAnswer stored.schema reply <;> exact Act.Ensures.done rfl fun _ => id

theorem ensures_single (hdiffer : DigestsDiffer programs) {stored : StoredSchema} {op : Operation}
    (hprograms : ∀ program params, (Build.ofList handle.ns stored.schema [op]).finish =
      .ok (some (program, params)) → programs program) :
    (handle.single op).Ensures (Course.Aside programs handle.ns) (Taken.Onward programs handle.ns)
      (.loaded stored) (fun course => course.station.store.Sound programs handle.ns)
      (fun _ _ course => course.station.store.Sound programs handle.ns) := by
  have hexecute := @ensures_execute programs handle hdiffer stored op.method [op] hprograms
  have hone : ∀ {α : Type} (read : Outcome → Option α), (handle.executeOne op read).Ensures
      (Course.Aside programs handle.ns) (Taken.Onward programs handle.ns) (.loaded stored)
      (fun course => course.station.store.Sound programs handle.ns)
      (fun _ _ course => course.station.store.Sound programs handle.ns) := by
    intro α read
    refine Act.Ensures.bind hexecute (fun outcome later => ?_) fun _ _ _ => id
    cases read outcome <;> exact Act.Ensures.done rfl fun _ => id
  cases op with
  | create | update | delete | get | «exists» | list | size | find | findAll =>
    exact Act.Ensures.bind (hone _) (fun _ _ => Act.Ensures.done rfl fun _ => id) fun _ _ _ => id

/-- A visit of a handle that knows the schema, other than to store one, leaves the schema alone. -/
theorem ensures_visit (hdiffer : DigestsDiffer programs) {stored : StoredSchema} {visit : Visit}
    (hvisit : visit.setsSchema = false)
    (hprograms : ∀ program params, (Build.ofList handle.ns stored.schema visit.ops).finish =
      .ok (some (program, params)) → programs program) :
    (handle.visit visit).Ensures (Course.Aside programs handle.ns) (Taken.Onward programs handle.ns)
      (.loaded stored) (fun course => course.station.store.Sound programs handle.ns)
      (fun _ _ course => course.station.store.Sound programs handle.ns) := by
  cases visit with
  | setSchema revision value => cases hvisit
  | getSchema | schemaDigest => exact Act.Ensures.done rfl fun _ => id
  | currentId collection =>
    refine Act.Ensures.discard (ensures_known ?_)
    by_cases hmissing : (stored.schema.collection? collection).isNone = true
    · rw [if_pos hmissing]
      exact Act.Ensures.done rfl fun _ => id
    · rw [if_neg hmissing]
      have hget : (Call.get (nextIdKey handle.ns collection)).ask.Ensures (Course.Aside programs handle.ns)
          (Taken.Onward programs handle.ns) (fun course => course.station.store.Sound programs handle.ns)
          (fun _ course => course.station.store.Sound programs handle.ns) := by
        refine Talk.Ensures.ask (fun _ => stable_sound) fun course h => ?_
        have honward := (Course.idle_get h.plain (nextIdKey handle.ns collection)).1.onward h
        exact ⟨honward, honward.sound⟩
      refine Act.Ensures.talk hget (fun found => ?_) fun _ _ => id
      cases found with
      | none => exact Act.Ensures.done rfl fun _ => id
      | some text =>
        dsimp only
        cases Decimal.int64? text <;> exact Act.Ensures.done rfl fun _ => id
  | ask query =>
    cases query with
    | single op => exact Act.Ensures.discard (ensures_single hdiffer hprograms)
    | multi ops => exact Act.Ensures.discard (ensures_execute hdiffer .none hprograms)

end Client

end DocStore

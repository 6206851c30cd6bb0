import DocStore.Proofs.Client.Answers
import DocStore.Proofs.Client.Calls
import DocStore.Proofs.Operation.Footprint
import DocStore.Proofs.Schema.Setting

/-!
What the calls of a handle do to the schema, whatever the store holds and whatever the handle knows.

Storing a schema goes by what the handle knows, not by what is stored: a handle that once could not read
the schema replaces whatever is there (`Keyspace.acceptSchema`). Every other call leaves the schema alone.
-/

namespace DocStore

open DocStore.Store DocStore.Client DocStore.Session DocStore.Script DocStore.Layout

/-- The keys of the schema itself are no keys of documents. -/
theorem Layout.not_documentKey {ns key : String} (h : SchemaKey ns key) : ¬DocumentKey ns key := by
  rintro ⟨collection, rest, hkey⟩
  have hcolon : ∃ name : List Char, ':' ∉ name ∧ key.toList = (ns ++ ":").toList ++ name := by
    rcases h with rfl | rfl
    · exact ⟨"_schema".toList, by decide, by simp [schemaKey]⟩
    · exact ⟨"_schemaRevision".toList, by decide, by simp [revisionKey]⟩
  obtain ⟨name, hname, hlist⟩ := hcolon
  rw [hkey] at hlist
  simp only [recordStem, String.toList_append, List.append_assoc, List.append_cancel_left_eq] at hlist
  apply hname
  rw [← hlist]
  simp

/-- Whether the handle takes what is stored for unreadable. -/
def Client.SchemaState.isBad : SchemaState → Bool
  | .bad _ => true
  | _ => false

/-- What a handle knows when it goes on to store a schema; it does not go on if the store fails. -/
def Keyspace.beforeSetting (space : Keyspace) (ns : String) : SchemaState → Except Failure SchemaState
  | .unloaded =>
    match space.lookSchema ns .setSchema with
    | (.ok _, known) => .ok known
    | (.error failure, known) => if Handle.isUnusableSchema failure then .ok known else .error failure
  | known => .ok known

/-- Stores a schema as a handle does that knows this much. -/
def Keyspace.acceptSchema (space : Keyspace) (ns : String) (schema : Schema) (revision : Nat)
    (known : SchemaState) : (Except Failure Unit × SchemaState) × Keyspace :=
  match space.setSchema ns schema.text (Decimal.ofNat revision) known.isBad with
  | (.error e, after) => ((.error (.store e), known), after)
  | (.ok true, after) => ((.ok (), .loaded ⟨schema, some revision⟩), after)
  | (.ok false, after) =>
    ((.error (.operation ⟨.setSchema, .schemaExists, [], some .schemaExists⟩), known), after)

/-- Stores a JSON value as a schema, as a handle does that knows this much. -/
def Keyspace.setSchemaAs (space : Keyspace) (ns : String) (revision : Nat) (value : Json)
    (known : SchemaState) : (Except Failure Unit × SchemaState) × Keyspace :=
  if revision < 1 then ((.error (.invalidRevision revision), known), space)
  else
    match Schema.ofJson value with
    | .error e => ((.error (.operation ⟨.setSchema, .invalidSchema, [], some (.schema e)⟩), known), space)
    | .ok schema =>
      match space.beforeSetting ns known with
      | .error failure => ((.error failure, known), space)
      | .ok known => space.acceptSchema ns schema revision known

theorem readAnswer_setSchemaReply (schema : Schema) (stored : Bool) :
    readAnswer schema (setSchemaReply stored) =
      if stored then .ok .done else .error (.operation ⟨.setSchema, .schemaExists, [], none⟩) := by
  have hne : ErrorCode.schemaExists.name ≠ noError := by decide
  have hcode : ErrorCode.ofName? ErrorCode.schemaExists.name = some .schemaExists := by decide
  cases stored <;> simp [setSchemaReply, readAnswer, textOf, Reply.text?, Method.ofName?_name, hne, hcode,
    rejectionOf, outcomeOf, bind, Except.bind, Except.map]

/-- A handle learns nothing from a store that fails. -/
theorem Keyspace.lookSchema_snd_of_error {space : Keyspace} {ns : String} {method : Method}
    {failure : Failure} {known : SchemaState}
    (h : space.lookSchema ns method = (.error failure, known)) (hfailure : Handle.isUnusableSchema failure = false) :
    known = .unloaded := by
  unfold lookSchema at h
  split at h
  · cases h
    rfl
  · cases h
    rfl
  · split at h
    · cases h
      rfl
    · split at h
      · cases h
      · cases h
        cases hfailure

namespace Client

variable {programs : Program → Prop} {station : Station} {handle : Handle}

theorem Act.on_discard {α : Type} (action : Act α) (known : SchemaState) (station : Station) :
    (discard action).on known station =
      (((action.on known station).1.1.map fun _ => (), (action.on known station).1.2),
        (action.on known station).2) := by
  change (Dialog.bind (action.run.run known) _).run Station.answer station = _
  rw [Dialog.run_bind]
  change _ = (((((action.run.run known).run Station.answer station).1.1.map fun _ => ()),
    ((action.run.run known).run Station.answer station).1.2), ((action.run.run known).run Station.answer station).2)
  generalize (action.run.run known).run Station.answer station = result
  obtain ⟨⟨value | e, later⟩, after⟩ := result <;> rfl

/-- A handle that has not looked yet looks before it stores a schema. -/
theorem on_lookForSchema (hplain : station.store.Plain programs) :
    ∃ later, (handle.lookForSchema .setSchema).on .unloaded station =
        (match station.store.memory.space.beforeSetting handle.ns .unloaded with
          | .ok known => (.ok (), known)
          | .error failure => (.error failure, .unloaded), later) ∧
      later.store.Plain programs ∧ later.store.memory.space = station.store.memory.space := by
  obtain ⟨later, hload, hlater, hspace⟩ := on_loadSchema hplain .unloaded .setSchema
  have hdiscard := Act.on_discard (handle.loadSchema .setSchema) .unloaded station
  rw [hload] at hdiscard
  refine ⟨later, ?_, hlater, hspace⟩
  rw [Handle.lookForSchema, Act.on_tryCatch, hdiscard]
  simp only [Keyspace.knowSchema, Keyspace.beforeSetting]
  cases hlook : station.store.memory.space.lookSchema handle.ns .setSchema with
  | mk result known =>
    cases result with
    | ok stored => rfl
    | error failure =>
      dsimp only [Except.map]
      cases hfailure : Handle.isUnusableSchema failure with
      | true => rfl
      | false =>
        rw [Keyspace.lookSchema_snd_of_error hlook hfailure]
        rfl

/-- The last part of storing a schema: its script is run, and the answer read. -/
def submit (handle : Handle) (schema : Schema) (revision : Nat) : Act Unit := do
  let overwrite := match ← get with
    | .bad _ => "1"
    | _ => "0"
  let reply ← Act.talk (evaluate handle.preload (setSchemaProgram handle.ns).compiled
    [schema.text, Decimal.ofNat revision, overwrite])
  match readAnswer schema reply with
  | .error failure => throw (Handle.explainExisting failure)
  | .ok _ => set (SchemaState.loaded ⟨schema, some revision⟩)

theorem setSchema_of_ofJson {revision : Nat} {value : Json} {schema : Schema} (hrevision : ¬revision < 1)
    (hschema : Schema.ofJson value = .ok schema) :
    handle.setSchema revision value = (do
      let known ← get
      if known = .unloaded then handle.lookForSchema .setSchema
      submit handle schema revision) := by
  unfold Handle.setSchema
  rw [if_neg hrevision, hschema]
  rfl

/-- The script that stores a schema is run, and the answer read. -/
def send (handle : Handle) (schema : Schema) (revision : Nat) (overwrite : Bool) : Act Unit := do
  let reply ← Act.talk (evaluate handle.preload (setSchemaProgram handle.ns).compiled
    (setSchemaParams schema.text (Decimal.ofNat revision) overwrite))
  match readAnswer schema reply with
  | .error failure => throw (Handle.explainExisting failure)
  | .ok _ => set (SchemaState.loaded ⟨schema, some revision⟩)

/-- The script is told to replace the stored schema if the handle could not read it. -/
theorem submit_eq (schema : Schema) (revision : Nat) :
    submit handle schema revision = (do send handle schema revision (← get).isBad) := by
  rw [submit]
  congr
  funext known
  cases known <;> rfl

theorem on_submit (hplain : station.store.Plain programs) (hdiffer : DigestsDiffer programs)
    (hprogram : programs (setSchemaProgram handle.ns)) (schema : Schema) (revision : Nat)
    (known : SchemaState) :
    ∃ later, (submit handle schema revision).on known station =
        ((station.store.memory.space.acceptSchema handle.ns schema revision known).1, later) ∧
      later.store.Plain programs ∧ later.store.memory.space =
        (station.store.memory.space.acceptSchema handle.ns schema revision known).2 := by
  have hrun := run_setSchemaProgram handle.ns schema.text (Decimal.ofNat revision) known.isBad
    station.store.memory.space
  obtain ⟨later, heval, hlater, hspace⟩ := on_evaluate hplain hdiffer hprogram
    (by
      rw [hrun]
      exact (Keyspace.raises_setSchema _ _ _ _ _).map setSchemaReply) handle.preload
  rw [hrun] at heval hspace
  have htalk := Act.on_talk (evaluate handle.preload (setSchemaProgram handle.ns).compiled
    (setSchemaParams schema.text (Decimal.ofNat revision) known.isBad)) known station
  rw [heval] at htalk
  refine ⟨later, ?_, hlater, hspace.trans ?_⟩
  · rw [submit_eq, Act.on_bind_of_ok (Act.on_get known station), send]
    unfold Keyspace.acceptSchema
    generalize station.store.memory.space.setSchema handle.ns schema.text (Decimal.ofNat revision) known.isBad =
      result at htalk ⊢
    obtain ⟨stored, after⟩ := result
    cases stored with
    | error e => exact Act.on_bind_of_error htalk _
    | ok stored =>
      rw [Act.on_bind_of_ok htalk, readAnswer_setSchemaReply]
      cases stored <;> rfl
  · unfold Keyspace.acceptSchema
    generalize station.store.memory.space.setSchema handle.ns schema.text (Decimal.ofNat revision) known.isBad =
      result
    obtain ⟨stored, after⟩ := result
    cases stored with
    | error e => rfl
    | ok stored => cases stored <;> rfl

/-- A handle stores a schema as `Keyspace.setSchemaAs` does. -/
theorem on_setSchema (hplain : station.store.Plain programs) (hdiffer : DigestsDiffer programs)
    (hprogram : programs (setSchemaProgram handle.ns)) (revision : Nat) (value : Json) (known : SchemaState) :
    ∃ later, (handle.setSchema revision value).on known station =
        ((station.store.memory.space.setSchemaAs handle.ns revision value known).1, later) ∧
      later.store.Plain programs ∧ later.store.memory.space =
        (station.store.memory.space.setSchemaAs handle.ns revision value known).2 := by
  unfold Keyspace.setSchemaAs
  by_cases hrevision : revision < 1
  · rw [if_pos hrevision, Handle.setSchema, if_pos hrevision]
    exact ⟨station, rfl, hplain, rfl⟩
  · rw [if_neg hrevision]
    cases hschema : Schema.ofJson value with
    | error e =>
      rw [Handle.setSchema, if_neg hrevision, hschema]
      exact ⟨station, rfl, hplain, rfl⟩
    | ok schema =>
      rw [setSchema_of_ofJson hrevision hschema, Act.on_bind_of_ok (Act.on_get known station)]
      dsimp only
      cases known with
      | loaded stored | bad reason =>
        exact on_submit hplain hdiffer hprogram schema revision _
      | unloaded =>
        obtain ⟨between, hlook, hbetween, hspace⟩ := on_lookForSchema hplain
        rw [if_pos rfl]
        cases hbefore : station.store.memory.space.beforeSetting handle.ns .unloaded with
        | error failure =>
          rw [hbefore] at hlook
          exact ⟨between, Act.on_bind_of_error hlook _, hbetween, hspace⟩
        | ok known =>
          rw [hbefore] at hlook
          rw [Act.on_bind_of_ok hlook, ← hspace]
          exact on_submit hbetween hdiffer hprogram schema revision known

end Client

namespace SchemaStored

variable {ns : String} {schema : Schema} {revision : Nat} {space : Keyspace}

theorem schemaKey_ne_revisionKey (ns : String) : schemaKey ns ≠ revisionKey ns := by
  intro h
  have htails := congrArg String.toList h
  simp [schemaKey, revisionKey] at htails

/-- A schema is stored where it has been put. -/
theorem withSchema (space : Keyspace) (ns : String) (schema : Schema) (revision : Nat) :
    SchemaStored ns schema revision (space.withSchema ns schema.text (Decimal.ofNat revision)) := by
  constructor
  · rw [Keyspace.withSchema, Keyspace.find?_put, if_neg (schemaKey_ne_revisionKey ns), Keyspace.find?_put,
      if_pos rfl]
    rfl
  · rw [Keyspace.withSchema, Keyspace.find?_put, if_pos rfl]
    rfl

/-- What is found is stored. -/
theorem find?_of_text? {key text : String} (h : space.text? key = .ok (some text)) :
    space.find? key = some (.text text) := by
  unfold Keyspace.text? at h
  split at h <;> cases h
  assumption

/-- Where a schema is set, it is stored. -/
theorem of_setSchema {overwrite : Bool} {after : Keyspace}
    (h : space.setSchema ns schema.text (Decimal.ofNat revision) overwrite = (.ok true, after)) :
    SchemaStored ns schema revision after := by
  unfold Keyspace.setSchema at h
  split at h
  · cases h
  · rename_i found hfound
    split at h
    · unfold Keyspace.holdsSchema at h
      split at h
      · rename_i hsame
        subst hsame
        cases hrevision : space.text? (revisionKey ns) with
        | error e =>
          rw [hrevision] at h
          cases h
        | ok found =>
          rw [hrevision] at h
          simp only [Except.map, Prod.mk.injEq, Except.ok.injEq, decide_eq_true_eq] at h
          obtain ⟨rfl, rfl⟩ := h
          exact ⟨find?_of_text? hfound, find?_of_text? hrevision⟩
      · cases h
    · cases h
      exact .withSchema space ns schema revision

theorem acceptSchema_of_ok {known : SchemaState}
    (h : (space.acceptSchema ns schema revision known).1.1 = .ok ()) :
    (space.acceptSchema ns schema revision known).1.2 = .loaded ⟨schema, some revision⟩ ∧
      SchemaStored ns schema revision (space.acceptSchema ns schema revision known).2 := by
  unfold Keyspace.acceptSchema at h ⊢
  split at h
  · cases h
  · rename_i after heq
    exact ⟨rfl, of_setSchema heq⟩
  · cases h

/-- A handle that stores a schema knows it, and it is stored. -/
theorem of_setSchemaAs {value : Json} {known : SchemaState}
    (h : (space.setSchemaAs ns revision value known).1.1 = .ok ()) :
    ∃ schema, Schema.ofJson value = .ok schema ∧ 1 ≤ revision ∧
      (space.setSchemaAs ns revision value known).1.2 = .loaded ⟨schema, some revision⟩ ∧
        SchemaStored ns schema revision (space.setSchemaAs ns revision value known).2 := by
  unfold Keyspace.setSchemaAs at h ⊢
  split at h
  · cases h
  · rename_i hrevision
    rw [if_neg hrevision]
    split at h
    · cases h
    · rename_i schema hschema
      rw [hschema]
      split at h
      · cases h
      · exact ⟨schema, rfl, Nat.le_of_not_lt hrevision, acceptSchema_of_ok h⟩

/-- A schema that is not to be replaced is only compared with. -/
theorem setSchema (h : SchemaStored ns schema revision space) (other : Schema) (number : Nat) :
    space.setSchema ns other.text (Decimal.ofNat number) false =
      (.ok (decide (other.text = schema.text ∧ number = revision)), space) := by
  simp only [Keyspace.setSchema, h.text?_schema, Keyspace.holdsSchema, h.text?_revision,
    Option.isSome_some, Bool.not_false, Bool.and_true, if_true]
  by_cases htext : schema.text = other.text
  · have hnumber : Decimal.ofNat revision = Decimal.ofNat number ↔ number = revision :=
      ⟨fun h => (Decimal.ofNat_injective h).symm, fun h => by rw [h]⟩
    simp [htext, Except.map, hnumber]
  · simp [htext, Ne.symm htext]

/-- A handle that can read what is stored stores nothing else. -/
theorem acceptSchema_of_readable (h : SchemaStored ns schema revision space) (other : Schema) (number : Nat)
    {known : SchemaState} (hknown : known.isBad = false) :
    (space.acceptSchema ns other number known).2 = space ∧
      ((space.acceptSchema ns other number known).1.1 = .ok () ↔
        other.text = schema.text ∧ number = revision) := by
  unfold Keyspace.acceptSchema
  rw [hknown, h.setSchema other number]
  by_cases hsame : other.text = schema.text ∧ number = revision
  · rw [decide_eq_true hsame]
    exact ⟨rfl, fun _ => hsame, fun _ => rfl⟩
  · rw [decide_eq_false hsame]
    refine ⟨rfl, fun hok => ?_, fun hyes => absurd hyes hsame⟩
    cases hok

/-- A handle that can read the schema still can before it stores one. -/
theorem beforeSetting (h : SchemaStored ns schema revision space) (hschema : schema.WellFormed)
    (hrevision : revision ≤ Decimal.maxWord64) {known : SchemaState} (hknown : known.isBad = false) :
    ∃ later, space.beforeSetting ns known = .ok later ∧ later.isBad = false := by
  cases known with
  | loaded stored => exact ⟨_, rfl, rfl⟩
  | bad reason => cases hknown
  | unloaded =>
    refine ⟨.loaded ⟨schema, some revision⟩, ?_, rfl⟩
    rw [Keyspace.beforeSetting, h.lookSchema hschema hrevision]

/-- A handle that has not given up on the schema changes nothing by storing one, and is refused every
other. -/
theorem setSchemaAs_of_readable (h : SchemaStored ns schema revision space) (hschema : schema.WellFormed)
    (hrevision : revision ≤ Decimal.maxWord64) {known : SchemaState} (hknown : known.isBad = false)
    (number : Nat) (value : Json) :
    (space.setSchemaAs ns number value known).2 = space ∧
      ((space.setSchemaAs ns number value known).1.1 = .ok () ↔
        1 ≤ number ∧ Schema.ofJson value = .ok schema ∧ number = revision) := by
  unfold Keyspace.setSchemaAs
  split
  · rename_i hnumber
    refine ⟨rfl, fun hok => ?_, fun hsame => absurd hnumber (Nat.not_lt.2 hsame.1)⟩
    cases hok
  · rename_i hnumber
    cases hother : Schema.ofJson value with
    | error e =>
      refine ⟨rfl, fun hok => ?_, fun hsame => ?_⟩
      · cases hok
      · cases hsame.2.1
    | ok other =>
      obtain ⟨later, hlater, hreadable⟩ := h.beforeSetting hschema hrevision hknown
      obtain ⟨hspace, hsame⟩ := h.acceptSchema_of_readable other number hreadable
      have htext : other.text = schema.text ↔ (.ok other : Except SchemaError Schema) = .ok schema :=
        ⟨fun heq => congrArg Except.ok
            (Schema.eq_of_text_eq (Schema.wellFormed_of_ofJson hother) hschema heq),
          fun heq => congrArg Schema.text (Except.ok.inj heq)⟩
      dsimp only
      rw [hlater]
      refine ⟨hspace, hsame.trans ?_⟩
      rw [htext]
      exact ⟨fun heq => ⟨Nat.le_of_not_lt hnumber, heq⟩, And.right⟩

/-- A handle that has given up on the schema replaces it by any other. -/
theorem setSchemaAs_of_bad (h : SchemaStored ns schema revision space) (number : Nat) (value : Json)
    (reason : Reason) :
    ((space.setSchemaAs ns number value (.bad reason)).1.1 = .ok () ↔
        1 ≤ number ∧ ∃ other, Schema.ofJson value = .ok other) ∧
      ((space.setSchemaAs ns number value (.bad reason)).1.1 ≠ .ok () →
        (space.setSchemaAs ns number value (.bad reason)).2 = space) := by
  unfold Keyspace.setSchemaAs
  split
  · rename_i hnumber
    refine ⟨⟨fun hok => ?_, fun hsame => absurd hnumber (Nat.not_lt.2 hsame.1)⟩, fun _ => rfl⟩
    cases hok
  · rename_i hnumber
    cases hother : Schema.ofJson value with
    | error e =>
      refine ⟨⟨fun hok => ?_, fun ⟨_, other, hok⟩ => ?_⟩, fun _ => rfl⟩ <;> cases hok
    | ok other =>
      have hset : space.setSchema ns other.text (Decimal.ofNat number) true =
          (.ok true, space.withSchema ns other.text (Decimal.ofNat number)) := by
        simp [Keyspace.setSchema, h.text?_schema]
      simp only [Keyspace.beforeSetting, Keyspace.acceptSchema, SchemaState.isBad, hset]
      exact ⟨⟨fun _ => ⟨Nat.le_of_not_lt hnumber, other, rfl⟩, fun _ => trivial⟩, fun hne => absurd rfl hne⟩

/-- A stored schema that is put where it is stored changes nothing. -/
theorem withSchema_eq (h : SchemaStored ns schema revision space) :
    space.withSchema ns schema.text (Decimal.ofNat revision) = space := by
  apply Keyspace.ext
  intro key
  rw [Keyspace.withSchema, Keyspace.find?_put]
  split
  · rename_i hkey
    rw [hkey, h.revision]
    rfl
  · rw [Keyspace.find?_put]
    split
    · rename_i hkey
      rw [hkey, h.text]
      rfl
    · rfl

/-- Storing a schema again changes nothing, whatever the handle knows. -/
theorem setSchemaAs_again (h : SchemaStored ns schema revision space) (hschema : schema.WellFormed)
    (hpositive : 1 ≤ revision) (hrevision : revision ≤ Decimal.maxWord64) {value : Json}
    (hvalue : Schema.ofJson value = .ok schema) (known : SchemaState) :
    (space.setSchemaAs ns revision value known).1.1 = .ok () ∧
      (space.setSchemaAs ns revision value known).2 = space := by
  cases hknown : known with
  | unloaded | loaded stored =>
    have hreadable : known.isBad = false := by rw [hknown]; rfl
    obtain ⟨hspace, hiff⟩ := h.setSchemaAs_of_readable hschema hrevision hreadable revision value
    rw [hknown] at hspace hiff
    exact ⟨hiff.2 ⟨hpositive, hvalue, rfl⟩, hspace⟩
  | bad reason =>
    have hset : space.setSchema ns schema.text (Decimal.ofNat revision) true = (.ok true, space) := by
      simp [Keyspace.setSchema, h.text?_schema, h.withSchema_eq]
    simp only [Keyspace.setSchemaAs, if_neg (Nat.not_lt.2 hpositive), hvalue, Keyspace.beforeSetting,
      Keyspace.acceptSchema, SchemaState.isBad, hset]
    exact ⟨trivial, trivial⟩

end SchemaStored

end DocStore

import DocStore.Proofs.Operation.Reachable

/-!
Stored texts are encoded values.

What is written to a declared field was encoded by the type of the field before, in a creation as in an
update, and nothing else writes to records. So in every keyspace that operations reach, each stored text of
a declared field is one under which the field's type stores some value.
-/

namespace DocStore

/-- Every text that a declared field holds is that of a value. -/
def Row.Encoded (coll : Collection) (row : Row) : Prop :=
  ∀ name type text, coll.field? name = some type → row.find? name = some text →
    ∃ value, type.encode value = .ok text

/-- Every text that is given for a declared field is that of a value. -/
def EncodedFor (coll : Collection) (texts : List (String × String)) : Prop :=
  ∀ entry ∈ texts, ∀ type, coll.field? entry.1 = some type → ∃ value, type.encode value = .ok entry.2

/-- Every text of every record is that of a value. -/
def Documents.Encoded (coll : Collection) (docs : Documents) : Prop :=
  ∀ id row, docs.rows id = some row → row.Encoded coll

/-- What the work writes are texts of values. -/
def Work.Encoded (coll : Collection) : Work → Prop
  | .create row => EncodedFor coll row
  | .update _ changes => EncodedFor coll changes
  | _ => True

variable {coll : Collection} {docs : Documents} {row : Row} {texts : List (String × String)}

namespace Row

theorem Encoded.overlay (h : row.Encoded coll) (htexts : EncodedFor coll texts) :
    Row.Encoded coll (row.overlay texts) := by
  intro name type text htype htext
  rcases SortedMap.mem_of_find?_overlay row htext with hmem | hrow
  · exact htexts (name, text) hmem type htype
  · exact h name type text htype hrow

theorem encoded_ofList (htexts : EncodedFor coll texts) : Row.Encoded coll (SortedMap.ofList texts) := by
  intro name type text htype htext
  exact htexts (name, text) (SortedMap.mem_of_mem_ofList (SortedMap.find?_eq_some_iff.1 htext)) type htype

end Row

namespace Documents

theorem encoded_empty (coll : Collection) : Encoded coll {} := by
  intro id row hrow
  cases hrow

theorem Encoded.put (h : docs.Encoded coll) (hrow : row.Encoded coll) (id : Int) :
    (docs.put id row).Encoded coll := by
  intro other found hfound
  by_cases heq : other = id
  · rw [heq, rows_put_self] at hfound
    cases hfound
    exact hrow
  · rw [rows_put_of_ne heq] at hfound
    exact h other found hfound

theorem Encoded.remove (h : docs.Encoded coll) (id : Int) : (docs.remove id).Encoded coll := by
  intro other found hfound
  by_cases heq : other = id
  · rw [heq, rows_remove_self] at hfound
    cases hfound
  · rw [rows_remove_of_ne heq] at hfound
    exact h other found hfound

end Documents

/-- Work that writes encoded texts leaves encoded texts behind. -/
theorem Work.encoded_apply {work : Work} (collection : String) (h : docs.Encoded coll)
    (hwork : work.Encoded coll) : (work.apply collection coll docs).2.Encoded coll := by
  cases work with
  | create texts =>
    simp only [apply, applyCreate]
    split
    · exact Documents.Encoded.put h (Row.encoded_ofList hwork) _
    · exact h
  | update id changes =>
    simp only [apply, applyUpdate]
    split
    · exact h
    · rename_i row hrow
      split
      · exact h.put ((h id row hrow).overlay hwork) id
      · exact h
  | delete id =>
    simp only [apply]
    split
    · exact h.remove id
    · exact h
  | get id =>
    simp only [apply]
    split <;> exact h
  | «exists» | list | size | find => exact h

namespace Operation

variable {method : Method}

/-- What is encoded is the text of a value that was given. -/
theorem mem_encodeFields {attrs : List (String × FieldValue)}
    (h : encodeFields method coll attrs = .ok texts) :
    ∀ entry ∈ texts, ∃ type value, coll.field? entry.1 = some type ∧ (entry.1, value) ∈ attrs ∧
      type.encode value = .ok entry.2 := by
  induction attrs generalizing texts with
  | nil =>
    cases h
    exact fun entry hentry => absurd hentry List.not_mem_nil
  | cons attr rest ih =>
    obtain ⟨name, value⟩ := attr
    unfold encodeFields at h
    split at h
    · intro entry hentry
      obtain ⟨type, found, htype, hfound, htext⟩ := ih h entry hentry
      exact ⟨type, found, htype, List.mem_cons_of_mem _ hfound, htext⟩
    · rename_i type htype
      split at h
      · cases h
      · rename_i text htext
        obtain ⟨others, hrest, rfl⟩ := exists_of_map_eq_ok h
        intro entry hentry
        rcases List.mem_cons.1 hentry with rfl | hentry
        · exact ⟨type, value, htype, List.mem_cons_self, htext⟩
        · obtain ⟨type', found, htype', hfound, htext'⟩ := ih hrest entry hentry
          exact ⟨type', found, htype', List.mem_cons_of_mem _ hfound, htext'⟩

theorem encoded_encodeFields {attrs : List (String × FieldValue)}
    (h : encodeFields method coll attrs = .ok texts) : EncodedFor coll texts := by
  intro entry hentry type htype
  obtain ⟨type', value, htype', -, htext⟩ := mem_encodeFields h entry hentry
  rw [htype] at htype'
  cases htype'
  exact ⟨value, htext⟩

/-- The work of an allowed operation writes encoded texts. -/
theorem encoded_of_checkWork {op : Operation} {work : Work} (h : op.checkWork coll = .ok work) :
    work.Encoded coll := by
  cases op with
  | create collection attrs =>
    obtain ⟨row, hrow, -, rfl⟩ := row_of_checkCreate h
    exact encoded_encodeFields hrow
  | update collection id attrs =>
    obtain ⟨changes, hchanges, -, rfl⟩ := changes_of_checkUpdate h
    exact encoded_encodeFields hchanges
  | find collection attrs | findAll collection attrs =>
    obtain ⟨name, index, probe, -, -, rfl⟩ := probe_of_checkFind h
    trivial
  | delete | get | «exists» | list | size =>
    cases h
    trivial

end Operation

/-- A keyspace that operations reach lays out sound documents with encoded texts, and no counter has left
64 bits. -/
theorem Reachable.encoded {ns : String} {schema : Schema} {space : Keyspace}
    (h : Reachable ns schema space) (hschema : schema.WellFormed) :
    ∃ library : Library, library.Sound schema ∧ library.InRange schema ∧
      library.Every schema Documents.Encoded ∧ Canonical ns schema library space := by
  refine h.every hschema Documents.encoded_empty (fun op task hop docs hdocs => ?_)
    fun _ _ _ hdocs _ => hdocs
  obtain ⟨coll, work, -, hwork, rfl⟩ := Operation.work_of_check hop
  exact Work.encoded_apply _ hdocs (Operation.encoded_of_checkWork hwork)

end DocStore

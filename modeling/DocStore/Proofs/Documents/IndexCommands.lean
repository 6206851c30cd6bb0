import DocStore.Proofs.Documents.Files
import DocStore.Proofs.Script.Journal

/-!
The commands that index scripts carry out, and what they do to the content.

Which commands a script carries out depends on what the hash and the set of holders hold for the
composite value. They change nothing beyond these two keys, and enter or remove exactly one id.
-/

namespace DocStore.Index

open DocStore.Script DocStore.Layout

/-- The commands that enter a text in a unique index. -/
def addUnique (key composite text : String) (complete : Bool) : List (Command × List String) :=
  if complete then [(.hset, [key, composite, text])] else []

/-- The commands that enter a text in another index, by what the hash and the set hold. -/
def addShared (key composite text : String) (entry : Option String) (members : NameSet) :
    List (Command × List String) :=
  (.hget, [key, composite]) ::
    match entry with
    | some first =>
      [(.hdel, [key, composite]), (.sadd, [holdersKey key composite, first, text])]
    | none =>
      (.scard, [holdersKey key composite]) ::
        if 0 < members.size then [(.sadd, [holdersKey key composite, text])]
        else [(.hset, [key, composite, text])]

/-- The commands that remove a text from a unique index. -/
def removeUnique (key composite text : String) (entry : Option String) : List (Command × List String) :=
  (.hget, [key, composite]) :: if entry = some text then [(.hdel, [key, composite])] else []

/-- The commands that remove a text from another index, by what the hash and the set hold. -/
def removeShared (key composite text : String) (entry : Option String) (members : NameSet) :
    List (Command × List String) :=
  (.hget, [key, composite]) ::
    if entry = some text then [(.hdel, [key, composite])]
    else (.srem, [holdersKey key composite, text]) :: (.scard, [holdersKey key composite]) ::
      match (members.erase text).keys with
      | [last] =>
        [(.smembers, [holdersKey key composite]), (.del, [holdersKey key composite]),
          (.hset, [key, composite, last])]
      | _ => []

section Content

variable {space : Keyspace} {key composite text : String} {H : String → Int → Prop} {id : Int}

/-- The two keys of an index that matter for one composite value. -/
def EntryKey (key composite probe : String) : Prop :=
  probe = key ∨ probe = holdersKey key composite

theorem indexKey_of_entryKey {probe : String} (h : EntryKey key composite probe) : IndexKey key probe :=
  h.imp_right fun hholders => ⟨composite, hholders⟩

theorem confined_addUnique (key composite text : String) (complete : Bool) :
    Confined (EntryKey key composite) (addUnique key composite text complete) := by
  unfold addUnique
  split
  · exact .cons (by decide) (by simp [Command.changes, Machine.touched, EntryKey]) .nil
  · exact .nil

theorem confined_addShared (key composite text : String) (entry : Option String) (members : NameSet) :
    Confined (EntryKey key composite) (addShared key composite text entry members) := by
  have hread : ∀ command args, command.isWrite = false →
      ∀ probe ∈ Command.changes command args, EntryKey key composite probe := by
    intro command args hwrite probe hprobe
    simp [Command.changes, hwrite] at hprobe
  unfold addShared
  refine .cons (by decide) (hread _ _ rfl) ?_
  split
  · exact .cons (by decide) (by simp [Command.changes, Machine.touched, EntryKey])
      (.cons (by decide) (by simp [Command.changes, Machine.touched, EntryKey]) .nil)
  · refine .cons (by decide) (hread _ _ rfl) ?_
    split
    · exact .cons (by decide) (by simp [Command.changes, Machine.touched, EntryKey]) .nil
    · exact .cons (by decide) (by simp [Command.changes, Machine.touched, EntryKey]) .nil

theorem confined_removeUnique (key composite text : String) (entry : Option String) :
    Confined (EntryKey key composite) (removeUnique key composite text entry) := by
  unfold removeUnique
  refine .cons (by decide) (by simp [Command.changes, Command.isWrite]) ?_
  split
  · exact .cons (by decide) (by simp [Command.changes, Machine.touched, EntryKey]) .nil
  · exact .nil

theorem confined_removeShared (key composite text : String) (entry : Option String)
    (members : NameSet) :
    Confined (EntryKey key composite) (removeShared key composite text entry members) := by
  have hread : ∀ command args, command.isWrite = false →
      ∀ probe ∈ Command.changes command args, EntryKey key composite probe := by
    intro command args hwrite probe hprobe
    simp [Command.changes, hwrite] at hprobe
  unfold removeShared
  refine .cons (by decide) (hread _ _ rfl) ?_
  split
  · exact .cons (by decide) (by simp [Command.changes, Machine.touched, EntryKey]) .nil
  · refine .cons (by decide) (by simp [Command.changes, Machine.touched, EntryKey])
      (.cons (by decide) (hread _ _ rfl) ?_)
    split
    · exact .cons (by decide) (hread _ _ rfl)
        (.cons (by decide) (by simp [Command.changes, Machine.touched, EntryKey])
          (.cons (by decide) (by simp [Command.changes, Machine.touched, EntryKey]) .nil))
    · exact .nil

/-- Commands about one composite value leave the sets of all others alone. -/
theorem find?_holdersKey_of_confined {commands : List (Command × List String)}
    (h : Confined (EntryKey key composite) commands) (space : Keyspace) {other : String}
    (hother : other ≠ composite) :
    (space.executeAll commands).find? (holdersKey key other) = space.find? (holdersKey key other) := by
  refine h.find?_executeAll space ?_
  rintro (heq | heq)
  · exact holdersKey_ne key other heq
  · exact hother (holdersKey_injective heq)

theorem execute_hget_snd {fields : SortedMap String} (h : space.find? key = (Entry.hash fields).kept)
    (composite : String) : (space.execute .hget [key, composite]).2 = space := by
  rw [Keyspace.execute_hget h]

section Filed

variable {fields : SortedMap String} {members : NameSet}
  (hhash : space.find? key = (Entry.hash fields).kept)
  (hsets : ∀ other, ∃ members : NameSet,
    space.find? (holdersKey key other) = (Entry.set members).kept ∧
    Filed (H other) (fields.find? other) members)
  (hset : space.find? (holdersKey key composite) = (Entry.set members).kept)
  (hfiled : Filed (H composite) (fields.find? composite) members)

include hhash hsets hset hfiled

theorem files_addUnique (hnone : ∀ other, ¬H composite other) :
    Files (space.executeAll (addUnique key composite (Decimal.ofInt id) true)) key
      fun c other => H c other ∨ (c = composite ∧ other = id) := by
  obtain ⟨reply, henter⟩ := Keyspace.execute_hset_one hhash composite (Decimal.ofInt id)
  have hmembers : members = ∅ := (hfiled.unique (.empty hnone)).2
  subst hmembers
  refine (@Files.of_change _ _ _ _ _ _ _ (fields.insert composite (Decimal.ofInt id)) ∅) hsets
    ?_ ?_ (fun other hother => find?_holdersKey_of_confined (confined_addUnique _ _ _ _) space hother)
    (fun other hother => ?_) (fun other hother => by simp [hother]) ?_
  · simp only [addUnique, if_true, Keyspace.executeAll_cons, Keyspace.executeAll_nil, henter]
    rw [Keyspace.find?_put_kept, if_pos rfl]
  · simp only [addUnique, if_true, Keyspace.executeAll_cons, Keyspace.executeAll_nil, henter]
    rw [Keyspace.find?_put_kept, if_neg (holdersKey_ne key composite), hset]
  · rw [SortedMap.find?_insert, if_neg hother]
  · rw [SortedMap.find?_insert, if_pos rfl]
    exact .sole id fun other => by simp [hnone other]

theorem files_addShared (hnew : ¬H composite id) :
    Files (space.executeAll (addShared key composite (Decimal.ofInt id) (fields.find? composite)
      members)) key fun c other => H c other ∨ (c = composite ∧ other = id) := by
  have hframe := fun other (hother : other ≠ composite) => find?_holdersKey_of_confined
    (confined_addShared key composite (Decimal.ofInt id) (fields.find? composite) members) space hother
  have hsame : ∀ other, other ≠ composite →
      ∀ i, (H other i ∨ other = composite ∧ i = id) ↔ H other i := by
    intro other hother i
    simp [hother]
  have hhere : ∀ i, (H composite i ∨ composite = composite ∧ i = id) ↔ (H composite i ∨ i = id) := by
    simp
  generalize hentry : fields.find? composite = entry at hfiled hframe ⊢
  cases hfiled with
  | sole first hsole =>
    -- the hash gives up its entry
    obtain ⟨dropped, hdrop⟩ := Keyspace.execute_hdel hhash composite
    have hset' : (space.put key (.hash (fields.erase composite))).find? (holdersKey key composite) =
        (Entry.set (∅ : NameSet)).kept := by
      rw [Keyspace.find?_put_kept, if_neg (holdersKey_ne key composite), hset]
    obtain ⟨added, hadd⟩ := Keyspace.execute_sadd hset' (Decimal.ofInt first) [Decimal.ofInt id]
    refine (@Files.of_change _ _ _ _ _ _ _ (fields.erase composite)
      ((∅ : NameSet).overlay [(Decimal.ofInt first, ()), (Decimal.ofInt id, ())])) hsets
      ?_ ?_ hframe (fun other hother => ?_) hsame ?_
    · simp only [addShared, Keyspace.executeAll_cons, Keyspace.executeAll_nil,
        execute_hget_snd hhash, hdrop, hadd]
      rw [Keyspace.find?_put_kept, if_neg (holdersKey_ne key composite).symm, Keyspace.find?_put_kept,
        if_pos rfl]
    · simp only [addShared, Keyspace.executeAll_cons, Keyspace.executeAll_nil,
        execute_hget_snd hhash, hdrop, hadd]
      rw [Keyspace.find?_put_kept, if_pos rfl]
      rfl
    · rw [SortedMap.find?_erase, if_neg hother]
    · rw [SortedMap.find?_erase, if_pos rfl]
      exact (Filed.second hsole hnew).congr hhere
  | many hne ha hb hmany =>
    have hsize : 0 < members.size :=
      SortedMap.size_pos ((hmany _).2 ⟨_, ha, rfl⟩)
    obtain ⟨added, hadd⟩ := Keyspace.execute_sadd hset (Decimal.ofInt id) []
    refine (@Files.of_change _ _ _ _ _ _ _ _ (members.insert (Decimal.ofInt id) ())) hsets
      ?_ ?_ hframe (fun other _ => rfl) hsame ?_
    · simp only [addShared, if_pos hsize, Keyspace.executeAll_cons, Keyspace.executeAll_nil,
        execute_hget_snd hhash, Keyspace.execute_scard hset, hadd]
      rw [Keyspace.find?_put_kept, if_neg (holdersKey_ne key composite).symm, hhash]
    · simp only [addShared, if_pos hsize, Keyspace.executeAll_cons, Keyspace.executeAll_nil,
        execute_hget_snd hhash, Keyspace.execute_scard hset, hadd]
      rw [Keyspace.find?_put_kept, if_pos rfl]
      rfl
    · rw [hentry]
      exact (Filed.join hne ha hb hmany id).congr hhere
  | empty hnone =>
    obtain ⟨entered, henter⟩ := Keyspace.execute_hset_one hhash composite (Decimal.ofInt id)
    have hsize : ¬0 < (∅ : NameSet).size := by decide
    refine (@Files.of_change _ _ _ _ _ _ _ (fields.insert composite (Decimal.ofInt id)) ∅) hsets
      ?_ ?_ hframe (fun other hother => ?_) hsame ?_
    · simp only [addShared, if_neg hsize, Keyspace.executeAll_cons, Keyspace.executeAll_nil,
        execute_hget_snd hhash, Keyspace.execute_scard hset, henter]
      rw [Keyspace.find?_put_kept, if_pos rfl]
    · simp only [addShared, if_neg hsize, Keyspace.executeAll_cons, Keyspace.executeAll_nil,
        execute_hget_snd hhash, Keyspace.execute_scard hset, henter]
      rw [Keyspace.find?_put_kept, if_neg (holdersKey_ne key composite), hset]
    · rw [SortedMap.find?_insert, if_neg hother]
    · rw [SortedMap.find?_insert, if_pos rfl]
      exact .sole id fun other => by simp [hnone other]

omit hhash in
/-- The hash gives up the entry of the only holder. -/
theorem files_dropEntry (hheld : fields.find? composite = some (Decimal.ofInt id)) :
    Files (space.put key (.hash (fields.erase composite))) key
      fun c other => H c other ∧ ¬(c = composite ∧ other = id) := by
  have hsole : (∀ other, H composite other ↔ other = id) ∧ members = ∅ := by
    rw [hheld] at hfiled
    generalize hentry : some (Decimal.ofInt id) = entry at hfiled
    cases hfiled with
    | sole a hsole =>
      have ha : id = a := Decimal.ofInt_injective (Option.some.inj hentry)
      exact ⟨ha ▸ hsole, rfl⟩
    | empty => cases hentry
    | many => cases hentry
  obtain ⟨hsole, rfl⟩ := hsole
  refine (@Files.of_change _ _ _ composite _ _ _ (fields.erase composite) ∅) hsets ?_ ?_
    (fun other _ => ?_) (fun other hother => ?_) (fun other hother => ?_) ?_
  · rw [Keyspace.find?_put_kept, if_pos rfl]
  · rw [Keyspace.find?_put_kept, if_neg (holdersKey_ne key composite), hset]
  · rw [Keyspace.find?_put_kept, if_neg (holdersKey_ne key other)]
  · rw [SortedMap.find?_erase, if_neg hother]
  · simp [hother]
  · rw [SortedMap.find?_erase, if_pos rfl]
    exact .empty fun other hother => hother.2 ⟨rfl, (hsole other).1 hother.1⟩

omit hset hfiled in
/-- The set loses a member, and is not left with a single one. -/
theorem files_dropMember (hleft : Filed (fun other => H composite other ∧ other ≠ id)
    (fields.find? composite) (members.erase (Decimal.ofInt id))) :
    Files (space.put (holdersKey key composite) (.set (members.erase (Decimal.ofInt id)))) key
      fun c other => H c other ∧ ¬(c = composite ∧ other = id) := by
  refine Files.of_change hsets ?_ ?_ (fun other hother => ?_) (fun other _ => rfl)
    (fun other hother => ?_) (hleft.congr fun other => ?_)
  · rw [Keyspace.find?_put_kept, if_neg (holdersKey_ne key composite).symm, hhash]
  · rw [Keyspace.find?_put_kept, if_pos rfl]
  · rw [Keyspace.find?_put_kept, if_neg fun heq => hother (holdersKey_injective heq)]
  · simp [hother]
  · simp

omit hhash hset hfiled in
/-- The set is removed, and the holder left alone in it gets the entry of the hash. -/
theorem files_moveBack {after : Keyspace} {last : Int}
    (hlast : ∀ other, (H composite other ∧ other ≠ id) ↔ other = last)
    (hafter : ∀ probe, after.find? probe =
      if probe = key then (Entry.hash (fields.insert composite (Decimal.ofInt last))).kept
      else if probe = holdersKey key composite then none else space.find? probe) :
    Files after key fun c other => H c other ∧ ¬(c = composite ∧ other = id) := by
  refine (@Files.of_change _ _ _ composite _ _ _
    (fields.insert composite (Decimal.ofInt last)) ∅) hsets ?_ ?_
    (fun other hother => ?_) (fun other hother => ?_) (fun other hother => ?_) ?_
  · rw [hafter, if_pos rfl]
  · rw [hafter, if_neg (holdersKey_ne key composite), if_pos rfl]
    rfl
  · rw [hafter, if_neg (holdersKey_ne key other), if_neg fun heq => hother (holdersKey_injective heq)]
  · rw [SortedMap.find?_insert, if_neg hother]
  · simp [hother]
  · rw [SortedMap.find?_insert, if_pos rfl]
    refine .sole last fun other => ?_
    simpa using hlast other

theorem files_removeUnique (hone : ∀ a b, H composite a → H composite b → a = b) :
    Files (space.executeAll (removeUnique key composite (Decimal.ofInt id) (fields.find? composite))) key
      fun c other => H c other ∧ ¬(c = composite ∧ other = id) := by
  by_cases hheld : fields.find? composite = some (Decimal.ofInt id)
  · obtain ⟨dropped, hdrop⟩ := Keyspace.execute_hdel hhash composite
    simp only [removeUnique, if_pos hheld, Keyspace.executeAll_cons, Keyspace.executeAll_nil,
      execute_hget_snd hhash, hdrop]
    exact files_dropEntry hsets hset hfiled hheld
  · simp only [removeUnique, if_neg hheld, Keyspace.executeAll_cons, Keyspace.executeAll_nil,
      execute_hget_snd hhash]
    refine Files.congr ⟨fields, hhash, hsets⟩ fun c other => ⟨And.left, fun hother => ⟨hother, ?_⟩⟩
    rintro ⟨rfl, rfl⟩
    generalize hentry : fields.find? c = entry at hfiled hheld
    cases hfiled with
    | empty hnone => exact hnone _ hother
    | sole a hsole => exact hheld (congrArg (some ∘ Decimal.ofInt) ((hsole _).1 hother).symm)
    | many hne ha hb => exact hne (hone _ _ ha hb)

theorem files_removeShared :
    Files (space.executeAll (removeShared key composite (Decimal.ofInt id) (fields.find? composite)
      members)) key fun c other => H c other ∧ ¬(c = composite ∧ other = id) := by
  by_cases hheld : fields.find? composite = some (Decimal.ofInt id)
  · obtain ⟨dropped, hdrop⟩ := Keyspace.execute_hdel hhash composite
    simp only [removeShared, if_pos hheld, Keyspace.executeAll_cons, Keyspace.executeAll_nil,
      execute_hget_snd hhash, hdrop]
    exact files_dropEntry hsets hset hfiled hheld
  · obtain ⟨dropped, hdrop⟩ := Keyspace.execute_srem hset (Decimal.ofInt id)
    have hset' : (space.put (holdersKey key composite)
        (.set (members.erase (Decimal.ofInt id)))).find? (holdersKey key composite) =
        (Entry.set (members.erase (Decimal.ofInt id))).kept := by
      rw [Keyspace.find?_put_kept, if_pos rfl]
    have hhash' : (space.put (holdersKey key composite)
        (.set (members.erase (Decimal.ofInt id)))).find? key = (Entry.hash fields).kept := by
      rw [Keyspace.find?_put_kept, if_neg (holdersKey_ne key composite).symm, hhash]
    have hdropped := (@files_dropMember _ _ composite _ id _ members) hhash hsets
    simp only [removeShared, if_neg hheld, Keyspace.executeAll_cons, execute_hget_snd hhash, hdrop,
      Keyspace.execute_scard hset']
    generalize hentry : fields.find? composite = entry at hfiled hheld hdropped
    cases hfiled with
    | empty hnone => exact hdropped (.empty fun other hother => hnone other hother.1)
    | sole a hsole =>
      have ha : a ≠ id := fun heq => hheld (congrArg (some ∘ Decimal.ofInt) heq)
      refine hdropped (.sole a fun other => ?_)
      rw [hsole]
      exact ⟨And.left, fun heq => ⟨heq, heq ▸ ha⟩⟩
    | many hne ha hb hmany =>
      have hnames := Filed.contains_drop hmany id
      rcases Filed.drop_cases hne ha hb id with ⟨last, hlast⟩ | ⟨c, d, hcd, hc, hd⟩
      · -- one holder is left
        have hkeys : (members.erase (Decimal.ofInt id)).keys = [Decimal.ofInt last] := by
          refine SortedMap.keys_eq_singleton fun name => (hnames name).trans ?_
          simp [hlast]
        rw [hkeys]
        have hlist := Keyspace.execute_smembers hset'
        obtain ⟨removed, hremove⟩ := Keyspace.execute_del (space.put (holdersKey key composite)
          (.set (members.erase (Decimal.ofInt id)))) (holdersKey key composite)
        have hhash'' : ((space.put (holdersKey key composite)
            (.set (members.erase (Decimal.ofInt id)))).restore (holdersKey key composite) none).find?
            key = (Entry.hash fields).kept := by
          rw [Keyspace.find?_restore, if_neg (holdersKey_ne key composite).symm, hhash']
        obtain ⟨entered, henter⟩ := Keyspace.execute_hset_one hhash'' composite (Decimal.ofInt last)
        simp only [Keyspace.executeAll_cons, Keyspace.executeAll_nil, hlist, hremove, henter]
        refine files_moveBack hsets hlast fun probe => ?_
        rw [Keyspace.find?_put_kept, Keyspace.find?_restore, Keyspace.find?_put_kept]
        split
        · rfl
        · split <;> rfl
      · have hmore : ∀ name, (members.erase (Decimal.ofInt id)).keys ≠ [name] := by
          intro name hkeys
          refine SortedMap.size_ne_one (fun heq => hcd (Decimal.ofInt_injective heq))
            ((hnames _).2 ⟨c, hc, rfl⟩) ((hnames _).2 ⟨d, hd, rfl⟩) ?_
          rw [SortedMap.size_eq_length_keys, hkeys]
          rfl
        have hrest : Filed (fun other => H composite other ∧ other ≠ id) none
            (members.erase (Decimal.ofInt id)) := .many hcd hc hd hnames
        split
        · rename_i name hkeys
          exact absurd hkeys (hmore name)
        · exact hdropped hrest

end Filed

end Content

end DocStore.Index

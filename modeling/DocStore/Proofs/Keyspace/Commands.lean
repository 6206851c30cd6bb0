import DocStore.Keyspace.Perform
import DocStore.Proofs.Text.Decimal

/-!
What the commands of scripts do, entry by entry. A key whose hash, set or scored set would be empty
holds nothing (`Entry.kept`), so every lemma below covers the missing key as well: the command sees
an empty map there, and a map that has become empty takes its key away.
-/

namespace DocStore

namespace SortedMap

variable {β : Type}

/-- The map after the pairs are put in, one after another. -/
def overlay (map : SortedMap β) (pairs : List (String × β)) : SortedMap β :=
  pairs.foldl (fun done pair => done.insert pair.1 pair.2) map

@[simp] theorem overlay_nil (map : SortedMap β) : map.overlay [] = map := rfl

@[simp] theorem overlay_cons (map : SortedMap β) (pair : String × β) (rest : List (String × β)) :
    map.overlay (pair :: rest) = (map.insert pair.1 pair.2).overlay rest := rfl

theorem insertAll_fst (map : SortedMap β) (pairs : List (String × β)) :
    (map.insertAll pairs).1 = map.overlay pairs := by
  induction pairs generalizing map with
  | nil => rfl
  | cons pair rest ih =>
    obtain ⟨name, value⟩ := pair
    simp [insertAll, ih]

theorem find?_overlay_of_notMem (map : SortedMap β) {pairs : List (String × β)} {name : String}
    (h : name ∉ pairs.map Prod.fst) : (map.overlay pairs).find? name = map.find? name := by
  induction pairs generalizing map with
  | nil => rfl
  | cons pair rest ih =>
    obtain ⟨other, value⟩ := pair
    simp only [List.map_cons, List.mem_cons, not_or] at h
    rw [overlay_cons, ih _ h.2, find?_insert, if_neg h.1]

theorem find?_overlay_of_mem (map : SortedMap β) {pairs : List (String × β)}
    (hnodup : (pairs.map Prod.fst).Nodup) {name : String} {value : β} (h : (name, value) ∈ pairs) :
    (map.overlay pairs).find? name = some value := by
  induction pairs generalizing map with
  | nil => cases h
  | cons pair rest ih =>
    obtain ⟨hhead, hrest⟩ := List.nodup_cons.1 (List.map_cons ▸ hnodup)
    rcases List.mem_cons.1 h with rfl | h
    · rw [overlay_cons, find?_overlay_of_notMem _ hhead, find?_insert, if_pos rfl]
    · exact ih _ hrest h

theorem contains_iff {map : SortedMap β} {name : String} :
    map.contains name = true ↔ ∃ value, map.find? name = some value := by
  simp [contains, Option.isSome_iff_exists]

theorem mem_keys_iff {map : SortedMap β} {name : String} :
    name ∈ map.keys ↔ map.contains name = true := by
  rw [contains_iff]
  simp [keys, find?_eq_some_iff]

theorem keys_nodup (map : SortedMap β) : map.keys.Nodup := by
  refine (List.pairwise_map.2 map.ascending).imp fun {a b} h => ?_
  rintro rfl
  exact String.lt_irrefl _ h

theorem eq_empty_of_isEmpty {map : SortedMap β} (h : map.isEmpty = true) : map = ∅ :=
  ext fun key => (isEmpty_iff.1 h key).trans (find?_empty key).symm

/-- Pairs that all agree with `f` make the map answer like `f` on their names. -/
theorem find?_overlay_of_agree {f : String → Option β} (map : SortedMap β)
    {pairs : List (String × β)} (h : ∀ pair ∈ pairs, f pair.1 = some pair.2) (name : String) :
    (map.overlay pairs).find? name =
      if name ∈ pairs.map Prod.fst then f name else map.find? name := by
  induction pairs generalizing map with
  | nil => rfl
  | cons pair rest ih =>
    rw [overlay_cons, ih _ fun p hp => h p (List.mem_cons_of_mem _ hp), find?_insert]
    by_cases hrest : name ∈ rest.map Prod.fst
    · simp [hrest]
    · by_cases hname : name = pair.1
      · subst hname
        simp [h pair List.mem_cons_self]
      · simp [hrest, hname]

theorem ofList_eq_overlay (pairs : List (String × β)) :
    ofList pairs = (∅ : SortedMap β).overlay pairs := by
  have hentries : ∀ (list : List (String × β)) (map : SortedMap β),
      (map.overlay list).entries =
        list.foldl (fun done pair => Assoc.insert pair.1 pair.2 done) map.entries := by
    intro list
    induction list with
    | nil => exact fun _ => rfl
    | cons pair rest ih => exact fun map => ih _
  refine ext fun key => ?_
  rw [find?, find?, hentries]
  rfl

/-- Pairs in ascending order stay as they are. -/
theorem ofPairs_of_ascending {pairs : List (String × β)} (h : Assoc.Ascending pairs) :
    Assoc.ofPairs pairs = pairs := by
  have hnodup : (pairs.map Prod.fst).Nodup :=
    keys_nodup { entries := pairs, ascending := h }
  refine Assoc.eq_of_find?_eq (.ofPairs pairs) h fun key => ?_
  change (ofList pairs).find? key = _
  rw [ofList_eq_overlay]
  cases hfound : Assoc.find? key pairs with
  | some value => exact find?_overlay_of_mem ∅ hnodup (Assoc.mem_of_find? hfound)
  | none =>
    refine find?_overlay_of_notMem ∅ fun hmem => ?_
    obtain ⟨pair, hpair, rfl⟩ := List.mem_map.1 hmem
    rw [Assoc.find?_of_mem h hpair] at hfound
    cases hfound

theorem ofList_entries (map : SortedMap β) : ofList map.entries = map := by
  refine ext fun key => ?_
  simp only [find?, ofList, ofPairs_of_ascending map.ascending]

/-- What a map holds after pairs were put in was one of them, or was there before. -/
theorem mem_of_find?_overlay (map : SortedMap β) {pairs : List (String × β)} {name : String} {value : β}
    (h : (map.overlay pairs).find? name = some value) :
    (name, value) ∈ pairs ∨ map.find? name = some value := by
  induction pairs generalizing map with
  | nil => exact .inr h
  | cons pair rest ih =>
    rcases ih _ h with hrest | hhead
    · exact .inl (List.mem_cons_of_mem _ hrest)
    · rw [find?_insert] at hhead
      split at hhead
      · rename_i hname
        cases hhead
        exact .inl (hname ▸ List.mem_cons_self)
      · exact .inr hhead

theorem mem_of_mem_ofList {pairs : List (String × β)} {entry : String × β}
    (h : entry ∈ (ofList pairs).entries) : entry ∈ pairs := by
  have hfind := find?_eq_some_iff.2 h
  rw [ofList_eq_overlay] at hfind
  rcases mem_of_find?_overlay ∅ hfind with hmem | hempty
  · exact hmem
  · cases hempty

theorem contains_overlay {map : SortedMap β} {pairs : List (String × β)} {name : String} :
    (map.overlay pairs).contains name = true ↔ name ∈ pairs.map Prod.fst ∨ map.contains name = true := by
  induction pairs generalizing map with
  | nil => simp
  | cons pair rest ih =>
    rw [overlay_cons, ih]
    simp only [contains, find?_insert, List.map_cons, List.mem_cons]
    split
    · rename_i heq
      simp [heq]
    · rename_i hne
      simp [hne]

theorem contains_ofList {pairs : List (String × β)} (name : String) :
    (ofList pairs).contains name = true ↔ name ∈ pairs.map Prod.fst := by
  rw [ofList_eq_overlay, contains_overlay]
  simp [contains]

theorem isEmpty_overlay (map : SortedMap β) {pairs : List (String × β)} (h : pairs ≠ []) :
    (map.overlay pairs).isEmpty = false := by
  obtain ⟨pair, rest, rfl⟩ := List.exists_cons_of_ne_nil h
  cases hempty : (map.overlay (pair :: rest)).isEmpty with
  | false => rfl
  | true =>
    have hnone := isEmpty_iff.1 hempty pair.1
    have hmem : pair.1 ∈ (pair :: rest).map Prod.fst ∨ map.contains pair.1 = true := .inl List.mem_cons_self
    obtain ⟨value, hvalue⟩ := contains_iff.1 (contains_overlay.2 hmem)
    rw [hnone] at hvalue
    cases hvalue

theorem isEmpty_ofList {pairs : List (String × β)} (h : pairs ≠ []) : (ofList pairs).isEmpty = false := by
  rw [ofList_eq_overlay]
  exact isEmpty_overlay ∅ h

end SortedMap

/-- A set made of a list of names holds exactly these names. -/
theorem NameSet.contains_ofList (names : List String) (name : String) :
    (NameSet.ofList names).contains name = true ↔ name ∈ names := by
  have hfind := (@SortedMap.find?_overlay_of_agree _ (fun _ => some ()) ∅
    (names.map fun name => (name, ()))) (by simp) name
  rw [NameSet.ofList, SortedMap.ofList_eq_overlay, SortedMap.contains, hfind]
  by_cases h : name ∈ names <;> simp [h]

/-- What a key holds after the entry has been put there: an empty one is not kept. -/
def Entry.kept (entry : Entry) : Option Entry :=
  if entry.isEmpty then none else some entry

namespace Keyspace

variable {space : Keyspace} {key : String}

theorem find?_put_kept (space : Keyspace) (key probe : String) (entry : Entry) :
    (space.put key entry).find? probe = if probe = key then entry.kept else space.find? probe :=
  find?_put space key probe entry

theorem hash_of_kept {fields : SortedMap String} (h : space.find? key = (Entry.hash fields).kept) :
    space.hash key = .ok fields := by
  unfold Entry.kept at h
  unfold hash
  split at h
  · rename_i hempty
    rw [h, SortedMap.eq_empty_of_isEmpty hempty]
  · rw [h]

theorem set_of_kept {members : NameSet} (h : space.find? key = (Entry.set members).kept) :
    space.set key = .ok members := by
  unfold Entry.kept at h
  unfold set
  split at h
  · rename_i hempty
    rw [h, SortedMap.eq_empty_of_isEmpty hempty]
  · rw [h]

theorem scored_of_kept {members : SortedMap Binary64}
    (h : space.find? key = (Entry.scored members).kept) : space.scored key = .ok members := by
  unfold Entry.kept at h
  unfold scored
  split at h
  · rename_i hempty
    rw [h, SortedMap.eq_empty_of_isEmpty hempty]
  · rw [h]

/-- A command answers as the request that its arguments are read as. -/
theorem execute_of_read {command : Command} {args : List String} {request : Request} {reply : Reply}
    {done : Keyspace} (hread : Request.read command args = .ok request)
    (hperform : space.perform request = .ok (reply, done)) :
    space.execute command args = (.ok reply, done) := by
  simp only [execute, hread, hperform]

/-- A command fails as its request does, and leaves the keyspace as it is. -/
theorem execute_of_error {command : Command} {args : List String} {request : Request} {e : StoreError}
    (hread : Request.read command args = .ok request) (hperform : space.perform request = .error e) :
    space.execute command args = (.error e, space) := by
  simp only [execute, hread, hperform]

/-! ### Hashes -/

section Hash

variable {fields : SortedMap String} (h : space.find? key = (Entry.hash fields).kept)
include h

theorem execute_hget (field : String) :
    space.execute .hget [key, field] =
      (.ok (match fields.find? field with | none => .nil | some value => .bulk value), space) := by
  refine execute_of_read rfl ?_
  cases hfield : fields.find? field <;>
    simp [perform, hash_of_kept h, hfield, bind, Except.bind]

theorem execute_hset (first : String × String) (rest : List (String × String)) :
    ∃ reply, space.execute .hset (key :: (first :: rest).flatMap fun pair => [pair.1, pair.2]) =
      (.ok reply, space.put key (.hash (fields.overlay (first :: rest)))) := by
  have hpairs : ∀ list : List (String × String),
      Request.pairs? (list.flatMap fun pair => [pair.1, pair.2]) = some list := by
    intro list
    induction list with
    | nil => rfl
    | cons pair more ih => simp [Request.pairs?, ih]
  have hread : Request.read .hset (key :: (first :: rest).flatMap fun pair => [pair.1, pair.2]) =
      .ok (.hset key (first :: rest)) := by
    simp only [List.flatMap_cons, List.cons_append, List.nil_append, Request.read, hpairs]
  refine ⟨countReply (fields.insertAll (first :: rest)).2, execute_of_read hread ?_⟩
  simp only [perform, hash_of_kept h, ← SortedMap.insertAll_fst]
  rfl

theorem execute_hset_one (field value : String) :
    ∃ reply, space.execute .hset [key, field, value] =
      (.ok reply, space.put key (.hash (fields.insert field value))) :=
  execute_hset h (field, value) []

theorem execute_hdel (field : String) :
    ∃ reply, space.execute .hdel [key, field] =
      (.ok reply, space.put key (.hash (fields.erase field))) := by
  refine ⟨countReply (fields.eraseAll [field]).2, execute_of_read rfl ?_⟩
  simp only [perform, hash_of_kept h]
  rfl

theorem execute_hgetall :
    space.execute .hgetall [key] =
      (.ok (listReply (fields.entries.flatMap fun field => [field.1, field.2])), space) := by
  refine execute_of_read rfl ?_
  simp only [perform, hash_of_kept h]
  rfl

end Hash

/-! ### Sets -/

section Set

variable {members : NameSet} (h : space.find? key = (Entry.set members).kept)
include h

theorem execute_sadd (first : String) (rest : List String) :
    ∃ reply, space.execute .sadd (key :: first :: rest) =
      (.ok reply, space.put key (.set (members.overlay ((first :: rest).map fun name => (name, ()))))) := by
  refine ⟨countReply (members.insertAll ((first :: rest).map fun name => (name, ()))).2, execute_of_read rfl ?_⟩
  simp only [perform, set_of_kept h, ← SortedMap.insertAll_fst]
  rfl

theorem execute_srem (member : String) :
    ∃ reply, space.execute .srem [key, member] =
      (.ok reply, space.put key (.set (members.erase member))) := by
  refine ⟨countReply (members.eraseAll [member]).2, execute_of_read rfl ?_⟩
  simp only [perform, set_of_kept h]
  rfl

theorem execute_smembers :
    space.execute .smembers [key] = (.ok (listReply members.keys), space) := by
  refine execute_of_read rfl ?_
  simp only [perform, set_of_kept h]
  rfl

theorem execute_scard :
    space.execute .scard [key] = (.ok (.int members.size), space) := by
  refine execute_of_read rfl ?_
  simp only [perform, set_of_kept h]
  rfl

end Set

/-! ### Scored sets -/

section Scored

variable {members : SortedMap Binary64} (h : space.find? key = (Entry.scored members).kept)
include h

theorem execute_zadd {text : String} {score : Binary64} (hscore : Binary64.ofText? text = some score)
    (member : String) :
    ∃ reply, space.execute .zadd [key, text, member] =
      (.ok reply, space.put key (.scored (members.insert member score))) := by
  have hread : Request.read .zadd [key, text, member] = .ok (.zadd key [(score, member)]) := by
    simp only [Request.read, Request.pairs?, Request.scored?, hscore]
  refine ⟨countReply (members.insertAll [(member, score)]).2, execute_of_read hread ?_⟩
  simp only [perform, scored_of_kept h]
  rfl

theorem execute_zrem (member : String) :
    ∃ reply, space.execute .zrem [key, member] =
      (.ok reply, space.put key (.scored (members.erase member))) := by
  refine ⟨countReply (members.eraseAll [member]).2, execute_of_read rfl ?_⟩
  simp only [perform, scored_of_kept h]
  rfl

theorem execute_zcard :
    space.execute .zcard [key] = (.ok (.int members.size), space) := by
  refine execute_of_read rfl ?_
  simp only [perform, scored_of_kept h]
  rfl

theorem execute_zrange {first last : String} {start stop : Int}
    (hfirst : Decimal.int64? first = some start) (hlast : Decimal.int64? last = some stop) :
    space.execute .zrange [key, first, last] =
      (.ok (listReply (range (byScore members) start stop)), space) := by
  have hread : Request.read .zrange [key, first, last] = .ok (.zrange key start stop) := by
    simp only [Request.read, hfirst, hlast]
  refine execute_of_read hread ?_
  simp only [perform, scored_of_kept h]
  rfl

end Scored

/-! ### Texts and whole keys -/

theorem execute_exists (space : Keyspace) (key : String) :
    space.execute .exists [key] = (.ok (.int (if space.contains key then 1 else 0)), space) := by
  refine execute_of_read rfl ?_
  cases h : space.contains key <;> simp [perform, countReply, h]

theorem execute_del (space : Keyspace) (key : String) :
    ∃ reply, space.execute .del [key] = (.ok reply, space.restore key none) := by
  refine ⟨countReply (space.removeAll [key]).2, execute_of_read rfl ?_⟩
  simp only [perform]
  rfl

theorem execute_set (space : Keyspace) (key value : String) :
    space.execute .set [key, value] = (.ok (.status "OK"), space.put key (.text value)) := rfl

theorem text?_of_find? {text : Option String} (h : space.find? key = text.map Entry.text) :
    space.text? key = .ok text := by
  unfold text?
  rw [h]
  cases text <;> rfl

theorem execute_get {found : Option String} (h : space.text? key = .ok found) :
    space.execute .get [key] = (.ok (match found with | none => .nil | some text => .bulk text), space) := by
  refine execute_of_read rfl ?_
  cases found <;> simp [perform, h, bind, Except.bind]

theorem execute_get_of_error {e : StoreError} (h : space.text? key = .error e) :
    space.execute .get [key] = (.error e, space) := by
  refine execute_of_error rfl ?_
  simp only [perform, h, bind, Except.bind]

/-- A counter that stands at `drawn`, missing at zero, moves on by one if it is not at its limit. -/
theorem execute_incr {drawn : Nat} (hrange : Decimal.InInt64 (drawn + 1))
    (h : space.find? key = if drawn = 0 then none else some (.text (Decimal.ofInt drawn))) :
    space.execute .incr [key] =
      (.ok (.int (drawn + 1)), space.put key (.text (Decimal.ofInt (drawn + 1)))) := by
  have hnext : space.nextCount key = .ok (drawn + 1) := by
    unfold nextCount text?
    rw [h]
    by_cases hzero : drawn = 0
    · simp [hzero]
    · have hstands : Decimal.InInt64 drawn := ⟨by omega, Int.le_trans (by omega) hrange.2⟩
      simp [hzero, Decimal.int64?_ofInt hstands, Decimal.wrapped_of_inInt64 hrange]
  refine execute_of_read rfl ?_
  simp only [perform, hnext]
  rfl

end Keyspace

end DocStore

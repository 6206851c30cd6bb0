import DocStore.Proofs.Keyspace.Commands
import DocStore.Proofs.Script.Journal

/-!
Commands in place.

`Keyspace.perform` works out a whole map and puts it under its key. Where maps are kept in place, the same is done
in steps on the keyspace itself: an empty container is put under a key that has none and then filled entry by
entry, or entries are taken out one by one and the container goes when it has become empty. A step that fails
leaves behind what the steps before it have done. All in all they do what `Keyspace.execute` does, failures
included (`Keyspace.executeInPlace_eq`).
-/

namespace DocStore

/-- Steps on a keyspace. What they have done stays if they fail. -/
abbrev Steps (α : Type) := ExceptT StoreError (StateM Keyspace) α

namespace Steps

variable {α β : Type} (space : Keyspace)

@[simp] theorem pure_apply (value : α) : (pure value : Steps α) space = (.ok value, space) := rfl

@[simp] theorem throw_apply (e : StoreError) : (throw e : Steps α) space = (.error e, space) := rfl

@[simp] theorem get_apply : (get : Steps Keyspace) space = (.ok space, space) := rfl

@[simp] theorem modify_apply (change : Keyspace → Keyspace) :
    (modify change : Steps Unit) space = (.ok (), change space) := rfl

theorem bind_apply (steps : Steps α) (next : α → Steps β) :
    (steps >>= next) space =
      match steps space with
      | (.ok value, after) => next value after
      | (.error e, after) => (.error e, after) := by
  change (match steps space with | (result, after) => ExceptT.bindCont next result after) = _
  rcases steps space with ⟨_ | _, _⟩ <;> rfl

theorem map_apply (f : α → β) (steps : Steps α) :
    (f <$> steps) space =
      match steps space with
      | (.ok value, after) => (.ok (f value), after)
      | (.error e, after) => (.error e, after) := by
  rw [map_eq_pure_bind, bind_apply]
  rcases steps space with ⟨_ | _, _⟩ <;> rfl

end Steps

/-- A kind of entry that holds a map. -/
structure Container (β : Type) where
  wrap : SortedMap β → Entry
  unwrap? : Entry → Option (SortedMap β)
  unwrap?_wrap : ∀ map, unwrap? (wrap map) = some map
  eq_wrap : ∀ entry map, unwrap? entry = some map → entry = wrap map
  isEmpty_wrap : ∀ map, (wrap map).isEmpty = map.isEmpty

namespace Container

/-- Hashes. -/
def hash : Container String where
  wrap := .hash
  unwrap?
    | .hash fields => some fields
    | _ => none
  unwrap?_wrap _ := rfl
  eq_wrap entry map h := by cases entry <;> simp_all
  isEmpty_wrap _ := rfl

/-- Sets. -/
def set : Container Unit where
  wrap := .set
  unwrap?
    | .set members => some members
    | _ => none
  unwrap?_wrap _ := rfl
  eq_wrap entry map h := by cases entry <;> simp_all
  isEmpty_wrap _ := rfl

/-- Scored sets. -/
def scored : Container Binary64 where
  wrap := .scored
  unwrap?
    | .scored members => some members
    | _ => none
  unwrap?_wrap _ := rfl
  eq_wrap entry map h := by cases entry <;> simp_all
  isEmpty_wrap _ := rfl

variable {β : Type} (container : Container β) (key : String)

/-- The map under the key; a missing one is empty. -/
def look (space : Keyspace) : Except StoreError (SortedMap β) :=
  match space.find? key with
  | none => .ok ∅
  | some entry =>
    match container.unwrap? entry with
    | some map => .ok map
    | none => .error (.wrongType key)

/-- The map under the key, put there empty if there is none. -/
def opened : Steps (SortedMap β) := do
  match (← get).find? key with
  | none =>
    modify fun space => space.restore key (some (container.wrap ∅))
    return ∅
  | some entry =>
    match container.unwrap? entry with
    | some map => return map
    | none => throw (.wrongType key)

/-- Puts pairs into the map under the key, one after another, and counts the names that were not there before. -/
def insertEach (map : SortedMap β) : List (String × β) → Steps Nat
  | [] => return 0
  | (name, value) :: rest => do
    modify fun space => space.restore key (some (container.wrap (map.insert name value)))
    let added ← insertEach (map.insert name value) rest
    return if map.contains name then added else added + 1

/-- Takes names out of the map under the key, one after another, and counts those that were there. -/
def eraseEach (map : SortedMap β) : List String → Steps Nat
  | [] => return 0
  | name :: rest => do
    modify fun space => space.restore key (some (container.wrap (map.erase name)))
    let removed ← eraseEach (map.erase name) rest
    return if map.contains name then removed + 1 else removed

/-- Opens the map under the key and puts pairs into it. -/
def fill (pairs : List (String × β)) : Steps Reply := do
  let map ← container.opened key
  return Keyspace.countReply (← container.insertEach key map pairs)

end Container

namespace Steps

/-- Removes the key if its entry has become empty. -/
def dropIfEmpty (key : String) : Steps Unit :=
  modify fun space =>
    match space.find? key with
    | some entry => if entry.isEmpty then space.restore key none else space
    | none => space

/-- Removes keys one after another, and counts those that were there. -/
def removeEach : List String → Steps Nat
  | [] => return 0
  | key :: rest => do
    let there := (← get).contains key
    modify fun space => space.restore key none
    let removed ← removeEach rest
    return if there then removed + 1 else removed

/-- Answers without a change. -/
def answer (request : Request) : Steps Reply := do
  match (← get).perform request with
  | .ok (reply, _) => return reply
  | .error e => throw e

end Steps

/-- Takes names out of the map under the key, if there is one, and removes the key if none are left. -/
def Container.drain {β : Type} (container : Container β) (key : String) (names : List String) : Steps Reply := do
  let removed ← match (← get).find? key with
    | none => pure 0
    | some entry =>
      match container.unwrap? entry with
      | some map => container.eraseEach key map names
      | none => throw (.wrongType key)
  Steps.dropIfEmpty key
  return Keyspace.countReply removed

namespace Keyspace

/-- Answers a request step by step. -/
def performInPlace : Request → Steps Reply
  | .set key value => do
    modify fun space => space.restore key (some (.text value))
    return .status "OK"
  | .del keys => do return countReply (← Steps.removeEach keys)
  | .incr key => do
    match (← get).nextCount key with
    | .error e => throw e
    | .ok next =>
      modify fun space => space.restore key (some (.text (Decimal.ofInt next)))
      return .int next
  | .hset key fields => Container.hash.fill key fields
  | .hdel key fields => Container.hash.drain key fields
  | .sadd key members => Container.set.fill key (members.map fun member => (member, ()))
  | .srem key members => Container.set.drain key members
  | .zadd key members => Container.scored.fill key (members.map fun member => (member.2, member.1))
  | .zrem key members => Container.scored.drain key members
  | request => Steps.answer request

/-- Runs a command on its arguments step by step: the answer, and the keyspace after it. -/
def executeInPlace (space : Keyspace) (command : Command) (args : List String) :
    Except StoreError Reply × Keyspace :=
  match Request.read command args with
  | .error fault => (.error (.script fault), space)
  | .ok request => performInPlace request space

end Keyspace

namespace Container

variable {β : Type} (container : Container β) {key : String} {space : Keyspace}

theorem look_hash (space : Keyspace) : hash.look key space = space.hash key := by
  unfold look Keyspace.hash
  cases space.find? key with
  | none => rfl
  | some entry => cases entry <;> rfl

theorem look_set (space : Keyspace) : set.look key space = space.set key := by
  unfold look Keyspace.set
  cases space.find? key with
  | none => rfl
  | some entry => cases entry <;> rfl

theorem look_scored (space : Keyspace) : scored.look key space = space.scored key := by
  unfold look Keyspace.scored
  cases space.find? key with
  | none => rfl
  | some entry => cases entry <;> rfl

end Container

theorem SortedMap.eraseAll_empty {β : Type} (names : List String) : (∅ : SortedMap β).eraseAll names = (∅, 0) := by
  induction names with
  | nil => rfl
  | cons name rest ih =>
    have herase : (∅ : SortedMap β).erase name = ∅ := rfl
    simp [eraseAll, herase, ih, contains]

namespace Keyspace

variable {space : Keyspace} {key : String}

theorem restore_restore (space : Keyspace) (key : String) (first second : Option Entry) :
    (space.restore key first).restore key second = space.restore key second := by
  refine ext fun probe => ?_
  rw [find?_restore, find?_restore, find?_restore]
  split <;> rfl

theorem restore_find? {entry : Option Entry} (h : space.find? key = entry) : space.restore key entry = space := by
  refine ext fun probe => ?_
  rw [find?_restore]
  split
  · rename_i hprobe
    rw [hprobe, h]
  · rfl

theorem put_of_nonempty {entry : Entry} (h : entry.isEmpty = false) :
    space.put key entry = space.restore key (some entry) := by
  rw [put, h]
  rfl

end Keyspace

namespace Container

variable {β : Type} (container : Container β) {key : String} {space : Keyspace}

theorem insertEach_apply (map : SortedMap β) (pairs : List (String × β))
    (h : space.find? key = some (container.wrap map)) :
    container.insertEach key map pairs space =
      (.ok (map.insertAll pairs).2, space.restore key (some (container.wrap (map.insertAll pairs).1))) := by
  induction pairs generalizing map space with
  | nil => simp [insertEach, SortedMap.insertAll, Keyspace.restore_find? h]
  | cons pair rest ih =>
    obtain ⟨name, value⟩ := pair
    have hnext : (space.restore key (some (container.wrap (map.insert name value)))).find? key =
        some (container.wrap (map.insert name value)) := by simp [Keyspace.find?_restore]
    simp [insertEach, Steps.bind_apply, Steps.map_apply, ih _ hnext, Keyspace.restore_restore, SortedMap.insertAll]

theorem eraseEach_apply (map : SortedMap β) (names : List String)
    (h : space.find? key = some (container.wrap map)) :
    container.eraseEach key map names space =
      (.ok (map.eraseAll names).2, space.restore key (some (container.wrap (map.eraseAll names).1))) := by
  induction names generalizing map space with
  | nil => simp [eraseEach, SortedMap.eraseAll, Keyspace.restore_find? h]
  | cons name rest ih =>
    have hnext : (space.restore key (some (container.wrap (map.erase name)))).find? key =
        some (container.wrap (map.erase name)) := by simp [Keyspace.find?_restore]
    simp [eraseEach, Steps.bind_apply, Steps.map_apply, ih _ hnext, Keyspace.restore_restore, SortedMap.eraseAll]

/-- Opening a container fails as looking does, without a trace. What is there afterwards is the map that has been
looked at. -/
theorem opened_apply :
    (∃ e, container.look key space = .error e ∧ container.opened key space = (.error e, space)) ∨
      ∃ map, container.look key space = .ok map ∧
        container.opened key space = (.ok map, space.restore key (some (container.wrap map))) := by
  unfold look opened
  cases hfound : space.find? key with
  | none => simp [Steps.bind_apply, Steps.map_apply, hfound]
  | some entry =>
    cases hmap : container.unwrap? entry with
    | none => simp [Steps.bind_apply, hfound, hmap]
    | some map =>
      have hkept := Keyspace.restore_find? (hfound.trans (congrArg some (container.eq_wrap entry map hmap)))
      simp [Steps.bind_apply, hfound, hmap, hkept]

/-- Filling the container at a key, entry by entry, is putting all pairs into its map at once. -/
theorem fill_apply {pairs : List (String × β)} (h : pairs ≠ []) :
    container.fill key pairs space =
      match container.look key space with
      | .error e => (.error e, space)
      | .ok map =>
        (.ok (Keyspace.countReply (map.insertAll pairs).2),
          space.put key (container.wrap (map.insertAll pairs).1)) := by
  rcases @opened_apply _ container key space with ⟨e, hlook, hopened⟩ | ⟨map, hlook, hopened⟩
  · simp [fill, Steps.bind_apply, hlook, hopened]
  · have hfull : (container.wrap (map.insertAll pairs).1).isEmpty = false := by
      rw [container.isEmpty_wrap, SortedMap.insertAll_fst]
      exact map.isEmpty_overlay h
    have hthere : (space.restore key (some (container.wrap map))).find? key = some (container.wrap map) := by
      simp [Keyspace.find?_restore]
    simp [fill, Steps.bind_apply, Steps.map_apply, hlook, hopened, container.insertEach_apply map pairs hthere,
      Keyspace.restore_restore, Keyspace.put_of_nonempty hfull]

theorem dropIfEmpty_apply {map : SortedMap β} :
    Steps.dropIfEmpty key (space.restore key (some (container.wrap map))) =
      (.ok (), space.put key (container.wrap map)) := by
  have hthere : (space.restore key (some (container.wrap map))).find? key = some (container.wrap map) := by
    simp [Keyspace.find?_restore]
  simp only [Steps.dropIfEmpty, Steps.modify_apply, hthere, Keyspace.put, Keyspace.restore_restore]
  split <;> rfl

/-- Draining the container at a key, entry by entry, is taking all names out of its map at once. -/
theorem drain_apply (names : List String) :
    container.drain key names space =
      match container.look key space with
      | .error e => (.error e, space)
      | .ok map =>
        (.ok (Keyspace.countReply (map.eraseAll names).2),
          space.put key (container.wrap (map.eraseAll names).1)) := by
  unfold look drain
  cases hfound : space.find? key with
  | none =>
    have hgone : space.put key (container.wrap ∅) = space := by
      rw [Keyspace.put, container.isEmpty_wrap]
      exact Keyspace.restore_find? hfound
    have hdrop : Steps.dropIfEmpty key space = (.ok (), space) := by simp [Steps.dropIfEmpty, hfound]
    simp [Steps.bind_apply, Steps.map_apply, hfound, hdrop, SortedMap.eraseAll_empty, hgone]
  | some entry =>
    cases hmap : container.unwrap? entry with
    | none => simp [Steps.bind_apply, hfound, hmap]
    | some map =>
      have hthere := hfound.trans (congrArg some (container.eq_wrap entry map hmap))
      simp [Steps.bind_apply, Steps.map_apply, hfound, hmap, container.eraseEach_apply map names hthere,
        dropIfEmpty_apply]

end Container

theorem Steps.removeEach_apply (keys : List String) (space : Keyspace) :
    removeEach keys space = (.ok (space.removeAll keys).2, (space.removeAll keys).1) := by
  induction keys generalizing space with
  | nil => rfl
  | cons key rest ih => simp [removeEach, bind_apply, map_apply, ih, Keyspace.removeAll]

/-- A request that only asks changes nothing. -/
theorem Steps.answer_apply {request : Request} (h : request.changes = []) (space : Keyspace) :
    answer request space =
      match space.perform request with
      | .error e => (.error e, space)
      | .ok (reply, after) => (.ok reply, after) := by
  rw [answer, bind_apply, get_apply]
  cases hperform : space.perform request with
  | error e => simp only [hperform, throw_apply]
  | ok done =>
    obtain ⟨reply, after⟩ := done
    have hafter : after = space := Keyspace.ext fun probe => Keyspace.find?_perform hperform (by simp [h])
    simp only [hperform, pure_apply, hafter]

/-- A request to put something in says what. -/
def Request.Full : Request → Prop
  | .hset _ fields => fields ≠ []
  | .sadd _ members => members ≠ []
  | .zadd _ members => members ≠ []
  | _ => True

theorem Request.ne_nil_of_scored? {pairs : List (String × String)} {members : List (Binary64 × String)}
    (h : scored? pairs = some members) (hpairs : pairs ≠ []) : members ≠ [] := by
  rintro rfl
  unfold scored? at h
  split at h
  · exact hpairs rfl
  · split at h <;> cases h

theorem Request.full_of_read {command : Command} {args : List String} {request : Request}
    (h : Request.read command args = .ok request) : request.Full := by
  unfold Request.read at h
  split at h
  case h_6 =>
    split at h
    · cases h
      exact List.cons_ne_nil _ _
    · cases h
  case h_10 =>
    cases h
    exact List.cons_ne_nil _ _
  case h_14 =>
    split at h
    · split at h
      · rename_i members hmembers
        cases h
        exact ne_nil_of_scored? hmembers (List.cons_ne_nil _ _)
      · cases h
    · cases h
  case h_16 =>
    split at h
    · cases h
      trivial
    · cases h
  all_goals cases h
  all_goals trivial

namespace Keyspace

/-- Answering a request step by step is answering it at once. -/
theorem performInPlace_apply {request : Request} (h : request.Full) (space : Keyspace) :
    performInPlace request space =
      match space.perform request with
      | .error e => (.error e, space)
      | .ok (reply, after) => (.ok reply, after) := by
  cases request with
  | set key value => rfl
  | del keys => simp [performInPlace, perform, Steps.map_apply, Steps.removeEach_apply]
  | incr key =>
    rw [performInPlace, Steps.bind_apply, Steps.get_apply, perform]
    cases hnext : space.nextCount key <;> simp only [hnext] <;> rfl
  | hset key fields =>
    rw [performInPlace, Container.fill_apply _ h, Container.look_hash, perform]
    cases space.hash key <;> rfl
  | hdel key fields =>
    rw [performInPlace, Container.drain_apply, Container.look_hash, perform]
    cases space.hash key <;> rfl
  | sadd key members =>
    have hpairs : members.map (fun member => (member, ())) ≠ [] := fun hnil => h (List.map_eq_nil_iff.1 hnil)
    rw [performInPlace, Container.fill_apply _ hpairs, Container.look_set, perform]
    cases space.set key <;> rfl
  | srem key members =>
    rw [performInPlace, Container.drain_apply, Container.look_set, perform]
    cases space.set key <;> rfl
  | zadd key members =>
    have hpairs : members.map (fun member => (member.2, member.1)) ≠ [] := fun hnil =>
      h (List.map_eq_nil_iff.1 hnil)
    rw [performInPlace, Container.fill_apply _ hpairs, Container.look_scored, perform]
    cases space.scored key <;> rfl
  | zrem key members =>
    rw [performInPlace, Container.drain_apply, Container.look_scored, perform]
    cases space.scored key <;> rfl
  | get | «exists» | hget | hgetall | smembers | scard | zrange | zcard =>
    rw [performInPlace, Steps.answer_apply rfl]
    all_goals simp

/-- A command does step by step what it does at once: it answers the same and leaves the same keyspace, also if it
fails. -/
theorem executeInPlace_eq (space : Keyspace) (command : Command) (args : List String) :
    space.executeInPlace command args = space.execute command args := by
  unfold executeInPlace execute
  cases hread : Request.read command args with
  | error fault => rfl
  | ok request => exact performInPlace_apply (Request.full_of_read hread) space

end Keyspace

end DocStore

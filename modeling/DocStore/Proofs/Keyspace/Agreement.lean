import DocStore.Proofs.Script.Journal
import Mathlib.Data.List.Forall2

/-!
What commands depend on: nothing but the keys that they name.

On keyspaces that agree on these keys a command has the same result, and it makes no difference between
them that was not there before.
-/

namespace DocStore

/-- The arguments of a command that stand for keys. -/
@[simp] def Command.names {α : Type} (command : Command) (args : List α) : List α :=
  match command with
  | .del | .exists => args
  | _ => args.take 1

/-- The keys that a request reads or changes. -/
def Request.names : Request → List String
  | .get key | .set key _ | .incr key | .hset key _ | .hget key _ | .hdel key _ | .hgetall key
  | .sadd key _ | .srem key _ | .smembers key | .scard key | .zadd key _ | .zrem key _
  | .zrange key _ _ | .zcard key => [key]
  | .del keys | .exists keys => keys

theorem Request.names_of_read {command : Command} {args : List String} {request : Request}
    (h : Request.read command args = .ok request) : request.names = command.names args := by
  unfold Request.read at h
  split at h
  all_goals first
    | (cases h; rfl)
    | skip
  all_goals
    repeat' split at h
  all_goals cases h
  all_goals rfl

theorem Command.touched_subset_names (command : Command) (args : List String) :
    Script.Machine.touched command args ⊆ command.names args := by
  unfold Script.Machine.touched names
  cases command <;> simp [List.take_subset]

theorem Command.changes_subset_names (command : Command) (args : List String) :
    command.changes args ⊆ command.names args := by
  unfold changes
  split
  · exact command.touched_subset_names args
  · exact List.nil_subset _

/-- Arguments that are related one by one have related keys. -/
theorem Command.forall₂_names {α β : Type} {R : α → β → Prop} (command : Command) {as : List α}
    {bs : List β} (h : List.Forall₂ R as bs) : List.Forall₂ R (command.names as) (command.names bs) := by
  unfold names
  cases command <;> first
    | exact h
    | exact List.forall₂_take 1 h

/-- A key among the arguments comes from one that is related to it. -/
theorem Command.exists_of_mem_names {α β : Type} {R : α → β → Prop} {command : Command} {as : List α}
    {bs : List β} (h : List.Forall₂ R as bs) {key : β} (hkey : key ∈ command.names bs) :
    ∃ a ∈ command.names as, R a key := by
  have hnames := command.forall₂_names h
  generalize command.names as = sources at hnames ⊢
  generalize command.names bs = keys at hnames hkey
  induction hnames with
  | nil => exact absurd hkey List.not_mem_nil
  | @cons a b _ _ hhead _ ih =>
    rcases List.mem_cons.1 hkey with rfl | hkey
    · exact ⟨a, List.mem_cons_self, hhead⟩
    · obtain ⟨source, hsource, hrelated⟩ := ih hkey
      exact ⟨source, List.mem_cons_of_mem _ hsource, hrelated⟩

/-- A command names its first argument only, if that is all of them or if it is for one key. -/
theorem Command.eq_of_mem_names {α : Type} {command : Command} {first name : α} {rest : List α}
    (hrest : command = .del ∨ command = .exists → rest = []) (hname : name ∈ command.names (first :: rest)) :
    name = first := by
  have hnames : command.names (first :: rest) = [first] := by
    cases command with
    | del => rw [hrest (.inl rfl), names]
    | «exists» => rw [hrest (.inr rfl), names]
    | _ => rfl
  rw [hnames] at hname
  exact List.mem_singleton.1 hname

/-- The error is one that a running script comes to. -/
def StoreError.Raised : StoreError → Prop
  | .wrongType _ | .script _ => True
  | _ => False

/-- The result fails, if it does, as a running script does. -/
def Raises {α : Type} (result : Except StoreError α) : Prop :=
  ∀ e, result = .error e → e.Raised

theorem Raises.ok {α : Type} (value : α) : Raises (.ok value) := by
  intro e h
  cases h

theorem Raises.bind {α β : Type} {result : Except StoreError α} (h : Raises result)
    {next : α → Except StoreError β} (hnext : ∀ value, Raises (next value)) : Raises (result >>= next) := by
  cases result with
  | error e =>
    intro found hfound
    cases hfound
    exact h e rfl
  | ok value => exact hnext value

theorem Raises.map {α β : Type} {result : Except StoreError α} (h : Raises result) (f : α → β) :
    Raises (result.map f) := by
  cases result with
  | error e =>
    intro found hfound
    cases hfound
    exact h e rfl
  | ok value => exact .ok _

namespace Keyspace

/-- The keyspaces hold the same under every key of which `P` holds. -/
def Agree (P : String → Prop) (left right : Keyspace) : Prop :=
  ∀ key, P key → left.find? key = right.find? key

namespace Agree

variable {P : String → Prop} {left right : Keyspace}

theorem restore (h : Agree P left right) (key : String) (entry : Option Entry) :
    Agree P (left.restore key entry) (right.restore key entry) := by
  intro probe hprobe
  rw [find?_restore, find?_restore, h probe hprobe]

theorem put (h : Agree P left right) (key : String) (entry : Entry) :
    Agree P (left.put key entry) (right.put key entry) :=
  h.restore key _

theorem removeAll (h : Agree P left right) {keys : List String} (hkeys : ∀ key ∈ keys, P key) :
    Agree P (left.removeAll keys).1 (right.removeAll keys).1 ∧
      (left.removeAll keys).2 = (right.removeAll keys).2 := by
  induction keys generalizing left right with
  | nil => exact ⟨h, rfl⟩
  | cons key rest ih =>
    obtain ⟨hdone, hcount⟩ := ih (h.restore key none) fun other hother =>
      hkeys other (List.mem_cons_of_mem _ hother)
    have hhere : left.contains key = right.contains key := by
      simp only [contains, h key (hkeys key List.mem_cons_self)]
    simp only [Keyspace.removeAll]
    exact ⟨hdone, by rw [hcount, hhere]⟩

theorem countP (h : Agree P left right) {keys : List String} (hkeys : ∀ key ∈ keys, P key) :
    keys.countP left.contains = keys.countP right.contains :=
  List.countP_congr fun key hkey => by simp only [contains, h key (hkeys key hkey)]

end Agree

/-- Two results of a request are the same up to what `P` leaves open. -/
inductive SameResult (P : String → Prop) :
    Except StoreError (Reply × Keyspace) → Except StoreError (Reply × Keyspace) → Prop
  | error (e : StoreError) : SameResult P (.error e) (.error e)
  | ok (reply : Reply) {left right : Keyspace} : Agree P left right →
      SameResult P (.ok (reply, left)) (.ok (reply, right))

theorem SameResult.bind {P : String → Prop} {α : Type} (read : Except StoreError α)
    {first second : α → Except StoreError (Reply × Keyspace)}
    (h : ∀ found, SameResult P (first found) (second found)) :
    SameResult P (read >>= first) (read >>= second) := by
  cases read with
  | error e => exact .error e
  | ok found => exact h found

/-- A request has the same result on keyspaces that agree on its keys. -/
theorem Agree.perform {P : String → Prop} {left right : Keyspace} (h : Agree P left right)
    {request : Request} (hnames : ∀ key ∈ request.names, P key) :
    SameResult P (left.perform request) (right.perform request) := by
  cases request with
  | del keys =>
    obtain ⟨hdone, hcount⟩ := (@removeAll _ _ _ h keys) hnames
    simp only [Keyspace.perform, hcount]
    exact .ok _ hdone
  | «exists» keys =>
    simp only [Keyspace.perform, (@countP _ _ _ h keys) hnames]
    exact .ok _ h
  | set key value => exact .ok _ (h.put key _)
  | get key =>
    simp only [Keyspace.perform, text?, h key (hnames key List.mem_cons_self)]
    refine .bind _ fun found => ?_
    cases found <;> exact .ok _ h
  | incr key =>
    simp only [Keyspace.perform, nextCount, text?, h key (hnames key List.mem_cons_self)]
    exact .bind _ fun next => .ok _ (h.put key _)
  | hget key field =>
    simp only [Keyspace.perform, hash, h key (hnames key List.mem_cons_self)]
    refine .bind _ fun fields => ?_
    cases fields.find? field <;> exact .ok _ h
  | hset key fields | hdel key fields =>
    simp only [Keyspace.perform, hash, h key (hnames key List.mem_cons_self)]
    exact .bind _ fun found => .ok _ (h.put key _)
  | hgetall key =>
    simp only [Keyspace.perform, hash, h key (hnames key List.mem_cons_self)]
    exact .bind _ fun found => .ok _ h
  | sadd key members | srem key members =>
    simp only [Keyspace.perform, set, h key (hnames key List.mem_cons_self)]
    exact .bind _ fun found => .ok _ (h.put key _)
  | smembers key | scard key =>
    simp only [Keyspace.perform, set, h key (hnames key List.mem_cons_self)]
    exact .bind _ fun found => .ok _ h
  | zadd key members | zrem key members =>
    simp only [Keyspace.perform, scored, h key (hnames key List.mem_cons_self)]
    exact .bind _ fun found => .ok _ (h.put key _)
  | zrange key start stop =>
    simp only [Keyspace.perform, scored, h key (hnames key List.mem_cons_self)]
    exact .bind _ fun found => .ok _ h
  | zcard key =>
    simp only [Keyspace.perform, scored, h key (hnames key List.mem_cons_self)]
    exact .bind _ fun found => .ok _ h

/-- A command has the same result on keyspaces that agree on its keys. -/
theorem Agree.execute {P : String → Prop} {left right : Keyspace} (h : Agree P left right)
    {command : Command} {args : List String} (hnames : ∀ key ∈ command.names args, P key) :
    (left.execute command args).1 = (right.execute command args).1 ∧
      Agree P (left.execute command args).2 (right.execute command args).2 := by
  unfold Keyspace.execute
  cases hread : Request.read command args with
  | error fault => exact ⟨rfl, h⟩
  | ok request =>
    dsimp only
    rw [← Request.names_of_read hread] at hnames
    have hsame := h.perform hnames
    generalize left.perform request = first at hsame ⊢
    generalize right.perform request = second at hsame ⊢
    cases hsame with
    | error e => exact ⟨rfl, h⟩
    | ok reply hagree => exact ⟨rfl, hagree⟩

section Raised

variable (space : Keyspace) (key : String)

theorem raises_text? : Raises (space.text? key) := by
  unfold text?
  split <;> simp [Raises, StoreError.Raised]

theorem raises_hash : Raises (space.hash key) := by
  unfold hash
  split <;> simp [Raises, StoreError.Raised]

theorem raises_set : Raises (space.set key) := by
  unfold set
  split <;> simp [Raises, StoreError.Raised]

theorem raises_scored : Raises (space.scored key) := by
  unfold scored
  split <;> simp [Raises, StoreError.Raised]

theorem raises_nextCount : Raises (space.nextCount key) := by
  unfold nextCount
  have hread := raises_text? space key
  split
  · rename_i e heq
    simpa [Raises] using hread e heq
  · exact Raises.ok _
  · split <;> simp [Raises, StoreError.Raised]

theorem raises_perform (request : Request) : Raises (space.perform request) := by
  cases request with
  | del keys | «exists» keys => exact .ok _
  | set key value => exact .ok _
  | get key =>
    refine (raises_text? space key).bind fun found => ?_
    cases found <;> exact .ok _
  | incr key => exact (raises_nextCount space key).bind fun next => .ok _
  | hget key field =>
    refine (raises_hash space key).bind fun fields => ?_
    split <;> exact .ok _
  | hset key fields | hdel key fields | hgetall key =>
    exact (raises_hash space key).bind fun found => .ok _
  | sadd key members | srem key members | smembers key | scard key =>
    exact (raises_set space key).bind fun found => .ok _
  | zadd key members | zrem key members | zrange key start stop | zcard key =>
    exact (raises_scored space key).bind fun found => .ok _

/-- A command fails only with an error of its own. -/
theorem raises_execute (command : Command) (args : List String) :
    Raises (space.execute command args).1 := by
  unfold Keyspace.execute
  split
  · simp [Raises, StoreError.Raised]
  · rename_i request _
    have hperform := raises_perform space request
    split
    · rename_i e heq
      simpa [Raises] using hperform e heq
    · exact .ok _

end Raised

end Keyspace

end DocStore

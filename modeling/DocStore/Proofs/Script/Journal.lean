import DocStore.Proofs.Script.Steps

/-!
What commands change, and what the journal undoes.

A command changes nothing but the keys that it names. `Machine.Restores` is the invariant of a
journaled run: putting back what is recorded gives every key what it held at the start, except for
counters, which are never recorded and keep what they hold.
-/

namespace DocStore

open DocStore.Script

/-- The keys that a command may change. -/
def Command.changes (command : Command) (args : List String) : List String :=
  if command.isWrite then Machine.touched command args else []

/-- The keys that a request may change. -/
def Request.changes : Request → List String
  | .set key _ | .incr key | .hset key _ | .hdel key _ | .sadd key _ | .srem key _ | .zadd key _
  | .zrem key _ => [key]
  | .del keys => keys
  | _ => []

theorem Request.changes_of_read {command : Command} {args : List String} {request : Request}
    (h : Request.read command args = .ok request) :
    request.changes = command.changes args := by
  unfold Request.read at h
  split at h
  all_goals first
    | (cases h; rfl)
    | skip
  all_goals
    repeat' split at h
  all_goals cases h
  all_goals rfl

namespace Keyspace

theorem find?_put_of_ne {space : Keyspace} {key probe : String} (entry : Entry)
    (h : probe ∉ [key]) : (space.put key entry).find? probe = space.find? probe := by
  rw [find?_put, if_neg (by simpa using h)]

theorem find?_removeAll {keys : List String} {probe : String} (h : probe ∉ keys) (space : Keyspace) :
    (space.removeAll keys).1.find? probe = space.find? probe := by
  induction keys generalizing space with
  | nil => rfl
  | cons key rest ih =>
    simp only [List.mem_cons, not_or] at h
    simp only [removeAll]
    rw [ih h.2, find?_restore, if_neg h.1]

theorem find?_perform {space after : Keyspace} {request : Request} {reply : Reply} {probe : String}
    (h : space.perform request = .ok (reply, after)) (hprobe : probe ∉ request.changes) :
    after.find? probe = space.find? probe := by
  cases request <;> simp only [perform, bind, Except.bind] at h
  case del keys =>
    cases h
    exact find?_removeAll hprobe space
  case set key value =>
    cases h
    exact find?_put_of_ne _ hprobe
  all_goals
    repeat' split at h
  all_goals cases h
  all_goals first
    | rfl
    | exact find?_put_of_ne _ hprobe

/-- A command leaves alone every key that it does not name. -/
theorem find?_execute (space : Keyspace) {command : Command} {args : List String} {probe : String}
    (h : probe ∉ command.changes args) :
    (space.execute command args).2.find? probe = space.find? probe := by
  unfold execute
  split
  · rfl
  · rename_i request hread
    rw [← Request.changes_of_read hread] at h
    split
    · rfl
    · rename_i reply after hperform
      exact find?_perform hperform h

/-- A command that only reads changes nothing. -/
theorem execute_of_reads (space : Keyspace) {command : Command} (h : command.isWrite = false) (args : List String) :
    (space.execute command args).2 = space :=
  ext fun key => find?_execute space (by simp [Command.changes, h])

end Keyspace

namespace Script

/-- The commands count nothing up, and change only keys of which `P` holds. -/
def Confined (P : String → Prop) (commands : List (Command × List String)) : Prop :=
  ∀ entry ∈ commands, entry.1 ≠ .incr ∧ ∀ key ∈ entry.1.changes entry.2, P key

namespace Confined

variable {P Q : String → Prop} {commands others : List (Command × List String)}

theorem nil : Confined P [] := by
  intro entry h
  cases h

theorem cons {command : Command} {args : List String} (hcommand : command ≠ .incr)
    (hkeys : ∀ key ∈ command.changes args, P key) (h : Confined P commands) :
    Confined P ((command, args) :: commands) := by
  intro entry hentry
  rcases List.mem_cons.1 hentry with rfl | hentry
  · exact ⟨hcommand, hkeys⟩
  · exact h entry hentry

theorem append (h : Confined P commands) (h' : Confined P others) : Confined P (commands ++ others) := by
  intro entry hentry
  rcases List.mem_append.1 hentry with hentry | hentry
  · exact h entry hentry
  · exact h' entry hentry

theorem mono (h : Confined P commands) (hsub : ∀ key, P key → Q key) : Confined Q commands :=
  fun entry hentry => ⟨(h entry hentry).1, fun key hkey => hsub key ((h entry hentry).2 key hkey)⟩

/-- What the commands do not reach stays. -/
theorem find?_executeAll (h : Confined P commands) (space : Keyspace) {probe : String}
    (hprobe : ¬P probe) : (space.executeAll commands).find? probe = space.find? probe := by
  induction commands generalizing space with
  | nil => rfl
  | cons entry rest ih =>
    have hrest : Confined P rest := fun other hother => h other (List.mem_cons_of_mem _ hother)
    have hentry : probe ∉ entry.1.changes entry.2 :=
      fun hmem => hprobe ((h entry List.mem_cons_self).2 probe hmem)
    calc (space.executeAll (entry :: rest)).find? probe
        = ((space.execute entry.1 entry.2).2.executeAll rest).find? probe := rfl
      _ = (space.execute entry.1 entry.2).2.find? probe := ih hrest _
      _ = space.find? probe := Keyspace.find?_execute space hentry

/-- Commands that only read leave everything as it was. -/
theorem executeAll_eq (h : Confined (fun _ => False) commands) (space : Keyspace) :
    space.executeAll commands = space :=
  Keyspace.ext fun _ => h.find?_executeAll space id

end Confined

/-- The commands count up counters only, and change no other keys than those of which `P` holds, none of
them counters. -/
def Tame (counter P : String → Prop) (commands : List (Command × List String)) : Prop :=
  ∀ entry ∈ commands,
    (entry.1 = .incr ∧ ∀ key ∈ entry.1.changes entry.2, counter key) ∨
      (entry.1 ≠ .incr ∧ ∀ key ∈ entry.1.changes entry.2, P key ∧ ¬counter key)

namespace Tame

variable {counter P Q : String → Prop} {commands others : List (Command × List String)}

theorem nil : Tame counter P [] := by
  intro entry h
  cases h

theorem ofConfined (h : Confined P commands) (hP : ∀ key, P key → Q key ∧ ¬counter key) :
    Tame counter Q commands :=
  fun entry hentry => .inr ⟨(h entry hentry).1, fun key hkey => hP key ((h entry hentry).2 key hkey)⟩

theorem append (h : Tame counter P commands) (h' : Tame counter P others) :
    Tame counter P (commands ++ others) := by
  intro entry hentry
  rcases List.mem_append.1 hentry with hentry | hentry
  · exact h entry hentry
  · exact h' entry hentry

theorem mono {counter' : String → Prop} (h : Tame counter P commands)
    (hcounter : ∀ key, counter key → counter' key)
    (hP : ∀ key, P key → ¬counter key → Q key ∧ ¬counter' key) : Tame counter' Q commands := by
  intro entry hentry
  refine (h entry hentry).imp ?_ ?_
  · rintro ⟨hincr, hkeys⟩
    exact ⟨hincr, fun key hkey => hcounter key (hkeys key hkey)⟩
  · rintro ⟨hincr, hkeys⟩
    exact ⟨hincr, fun key hkey => hP key (hkeys key hkey).1 (hkeys key hkey).2⟩

/-- What the commands do not reach stays. -/
theorem find?_executeAll (h : Tame counter P commands) (space : Keyspace) {probe : String}
    (hcounter : ¬counter probe) (hprobe : ¬P probe) :
    (space.executeAll commands).find? probe = space.find? probe := by
  induction commands generalizing space with
  | nil => rfl
  | cons entry rest ih =>
    have hrest : Tame counter P rest := fun other hother => h other (List.mem_cons_of_mem _ hother)
    have hentry : probe ∉ entry.1.changes entry.2 := by
      intro hmem
      rcases h entry List.mem_cons_self with ⟨-, hkeys⟩ | ⟨-, hkeys⟩
      · exact hcounter (hkeys probe hmem)
      · exact hprobe (hkeys probe hmem).1
    exact (ih hrest _).trans (Keyspace.find?_execute space hentry)

end Tame

namespace Machine

theorem find?_replay_congr {first second : Keyspace} {probe : String}
    (h : first.find? probe = second.find? probe) (records : List Record) :
    (replay first records).find? probe = (replay second records).find? probe := by
  induction records generalizing first second with
  | nil => exact h
  | cons record rest ih =>
    refine ih ?_
    rw [Keyspace.find?_restore, Keyspace.find?_restore, h]

/-- Records that all agree with one keyspace put back what that keyspace holds. -/
theorem find?_replay_of_agree {then_ : Keyspace} {records : List Record}
    (h : ∀ record ∈ records, record.entry = then_.find? record.key) (space : Keyspace) (probe : String) :
    (replay space records).find? probe =
      if probe ∈ records.map Record.key then then_.find? probe else space.find? probe := by
  induction records generalizing space with
  | nil => rfl
  | cons record rest ih =>
    have hrest := ih (fun other hother => h other (List.mem_cons_of_mem _ hother))
      (space.restore record.key record.entry)
    have hhead := h record List.mem_cons_self
    change (replay (space.restore record.key record.entry) rest).find? probe = _
    rw [hrest, Keyspace.find?_restore]
    by_cases hprobe : probe = record.key
    · subst hprobe
      simp [hhead]
    · simp [hprobe]

/-- Putting back records of other keys leaves a key alone. -/
theorem find?_replay {records : List Record} {key : String} (h : ∀ record ∈ records, record.key ≠ key)
    (space : Keyspace) : (replay space records).find? key = space.find? key := by
  induction records generalizing space with
  | nil => rfl
  | cons record rest ih =>
    refine (ih (fun other hother => h other (List.mem_cons_of_mem _ hother)) _).trans ?_
    rw [Keyspace.find?_restore, if_neg (h record List.mem_cons_self).symm]

/-- What the machine records before it carries out a command, newest first. -/
def recorded (machine : Machine) (command : Command) (args : List String) : List Record :=
  if command.isJournaled then
    ((touched command args).map fun key => ⟨key, machine.space.find? key⟩).reverse
  else []

theorem journal_perform {machine : Machine} {journal : List Record} (h : machine.journal = some journal)
    (command : Command) (args : List String) :
    (machine.perform command args).journal = some (machine.recorded command args ++ journal) := by
  unfold recorded
  split
  · rename_i hjournaled
    simp [perform, Run.command, record, h, hjournaled]
  · rename_i hjournaled
    simp [perform, Run.command, record, h, hjournaled]

theorem mem_recorded (machine : Machine) {command : Command} {args : List String} {record : Record}
    (h : record ∈ machine.recorded command args) :
    command.isJournaled = true ∧ record.key ∈ command.changes args := by
  unfold recorded at h
  split at h
  · rename_i hjournaled
    obtain ⟨key, hkey, rfl⟩ := List.mem_map.1 (List.mem_reverse.1 h)
    have hwrite : command.isWrite = true := (Bool.and_eq_true_iff.1 hjournaled).1
    rw [Command.changes, if_pos hwrite]
    exact ⟨hjournaled, hkey⟩
  · cases h

/-- A record says what its key holds. -/
theorem entry_of_recorded (machine : Machine) {command : Command} {args : List String} {record : Record}
    (h : record ∈ machine.recorded command args) : record.entry = machine.space.find? record.key := by
  unfold recorded at h
  split at h
  · obtain ⟨key, -, rfl⟩ := List.mem_map.1 (List.mem_reverse.1 h)
    rfl
  · cases h

/-- What is recorded before a command undoes it, on every key that it does not count up. -/
theorem find?_replay_recorded (machine : Machine) {command : Command} {args : List String} {key : String}
    (h : command = .incr → key ∉ command.changes args) :
    (replay (machine.space.execute command args).2 (machine.recorded command args)).find? key =
      machine.space.find? key := by
  rw [find?_replay_of_agree fun record hrecord => machine.entry_of_recorded hrecord]
  split
  · rfl
  · rename_i hnot
    apply Keyspace.find?_execute
    intro hchanged
    cases hjournaled : command.isJournaled with
    | true =>
      apply hnot
      have hwrite : command.isWrite = true := (Bool.and_eq_true_iff.1 hjournaled).1
      rw [Command.changes, if_pos hwrite] at hchanged
      simpa [recorded, hjournaled] using hchanged
    | false =>
      by_cases hincr : command = .incr
      · exact h hincr hchanged
      · have hwrite : command.isWrite = false := by simpa [Command.isJournaled, hincr] using hjournaled
        simp [Command.changes, hwrite] at hchanged

theorem find?_replay_perform (machine : Machine) (journal : List Record) {command : Command}
    {args : List String} {key : String} (h : command = .incr → key ∉ command.changes args) :
    (replay (machine.perform command args).space (machine.recorded command args ++ journal)).find? key =
      (replay machine.space journal).find? key := by
  rw [perform_space, replay, List.foldl_append]
  exact find?_replay_congr (machine.find?_replay_recorded h) journal

/-- Putting back what is recorded gives every key what it held in `start`; the keys of counters are
not recorded. -/
def Restores (counter : String → Prop) (start : Keyspace) (machine : Machine) : Prop :=
  ∃ journal, machine.journal = some journal ∧ (∀ record ∈ journal, ¬counter record.key) ∧
    ∀ key, ¬counter key → (replay machine.space journal).find? key = start.find? key

namespace Restores

variable {counter : String → Prop} {start : Keyspace} {machine : Machine}

theorem atStart (counter : String → Prop) {program : Program} (h : program.journal = true)
    (space : Keyspace) : Restores counter space (Machine.start program space) := by
  refine ⟨[], by simp [Machine.start, h], ?_, fun key _ => rfl⟩
  intro record hrecord
  cases hrecord

theorem congr {other : Machine} (h : Restores counter start machine) (hspace : other.space = machine.space)
    (hjournal : other.journal = machine.journal) : Restores counter start other := by
  obtain ⟨journal, hj, hrecords, hreplay⟩ := h
  exact ⟨journal, hjournal.trans hj, hrecords, fun key hkey => hspace ▸ hreplay key hkey⟩

/-- A command counts up counters, or changes other keys. -/
theorem perform (h : Restores counter start machine) {command : Command} {args : List String}
    (htame : (command = .incr ∧ ∀ key ∈ command.changes args, counter key) ∨
      (command ≠ .incr ∧ ∀ key ∈ command.changes args, ¬counter key)) :
    Restores counter start (machine.perform command args) := by
  obtain ⟨journal, hj, hrecords, hreplay⟩ := h
  refine ⟨_, journal_perform hj command args, fun record hrecord => ?_, fun key hkey => ?_⟩
  · rcases List.mem_append.1 hrecord with hmem | hmem
    · obtain ⟨hjournaled, hchanged⟩ := machine.mem_recorded hmem
      rcases htame with ⟨rfl, -⟩ | ⟨-, hkeys⟩
      · cases hjournaled
      · exact hkeys record.key hchanged
    · exact hrecords record hmem
  · rw [find?_replay_perform machine journal fun hincr hmem => ?_]
    · exact hreplay key hkey
    · rcases htame with ⟨-, hkeys⟩ | ⟨hne, -⟩
      · exact hkey (hkeys key hmem)
      · exact hne hincr

theorem performAll {P : String → Prop} (h : Restores counter start machine)
    {commands : List (Command × List String)} (hcommands : Tame counter P commands) :
    Restores counter start (machine.performAll commands) := by
  induction commands generalizing machine with
  | nil => exact h
  | cons entry rest ih =>
    obtain ⟨command, args⟩ := entry
    have hrest : Tame counter P rest :=
      fun other hother => hcommands other (List.mem_cons_of_mem _ hother)
    rw [performAll_cons]
    refine ih (h.perform ?_) hrest
    refine (hcommands (command, args) List.mem_cons_self).imp_right ?_
    rintro ⟨hne, hkeys⟩
    exact ⟨hne, fun key hkey => (hkeys key hkey).2⟩

/-- After a rollback a key that is no counter holds what it held at the start. -/
theorem find?_rollback (h : Restores counter start machine) {key : String} (hkey : ¬counter key) :
    machine.rollback.space.find? key = start.find? key := by
  obtain ⟨journal, hj, -, hreplay⟩ := h
  simpa [rollback, hj] using hreplay key hkey

/-- A rollback leaves counters alone. -/
theorem find?_rollback_counter (h : Restores counter start machine) {key : String} (hkey : counter key) :
    machine.rollback.space.find? key = machine.space.find? key := by
  obtain ⟨journal, hj, hrecords, -⟩ := h
  have hkept := find?_replay (fun record hrecord hsame => hrecords record hrecord (hsame ▸ hkey)) machine.space
  simpa [rollback, hj] using hkept

end Restores

end Machine

end Script

end DocStore

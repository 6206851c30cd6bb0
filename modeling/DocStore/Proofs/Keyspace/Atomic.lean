import DocStore.Proofs.Keyspace.InPlace

/-!
Commands are atomic and local.

A command that fails leaves no trace, and one that does not leaves no empty hash, set or scored set behind. It
changes keys that its arguments name and no others: these are what a journal records beforehand, unless the
command counts something up (`Keyspace.execute_atomic`).
-/

namespace DocStore

open DocStore.Script

namespace Keyspace

variable {space : Keyspace}

theorem Tidy.restore_none (h : space.Tidy) (key : String) : (space.restore key none).Tidy := by
  intro probe entry hentry
  rw [find?_restore] at hentry
  split at hentry
  · cases hentry
  · exact h probe entry hentry

theorem Tidy.removeAll (h : space.Tidy) (keys : List String) : (space.removeAll keys).1.Tidy := by
  induction keys generalizing space with
  | nil => exact h
  | cons key rest ih => exact ih (h.restore_none key)

theorem Tidy.perform (h : space.Tidy) {request : Request} {reply : Reply} {after : Keyspace}
    (hperform : space.perform request = .ok (reply, after)) : after.Tidy := by
  cases request <;> simp only [Keyspace.perform, bind, Except.bind] at hperform
  case del keys =>
    cases hperform
    exact h.removeAll keys
  case set key value =>
    cases hperform
    exact h.put key _
  all_goals
    repeat' split at hperform
  all_goals cases hperform
  all_goals first
    | exact h
    | exact h.put _ _

/-- No command leaves an empty hash, set or scored set behind. -/
theorem Tidy.execute (h : space.Tidy) (command : Command) (args : List String) :
    (space.execute command args).2.Tidy := by
  unfold Keyspace.execute
  split
  · exact h
  · split
    · exact h
    · rename_i reply after hperform
      exact h.perform hperform

/-- A command that fails leaves the keyspace as it was. -/
theorem execute_snd_of_error {command : Command} {args : List String} {e : StoreError}
    (h : (space.execute command args).1 = .error e) : (space.execute command args).2 = space := by
  unfold execute at h ⊢
  split at h
  · simp_all
  · split at h
    · simp_all
    · cases h

end Keyspace

namespace Script.Machine

/-- What is recorded before a command are the keys that it may change, unless it counts something up. -/
theorem keys_recorded (machine : Machine) (command : Command) (args : List String) :
    (machine.recorded command args).map Record.key =
      (if command = .incr then [] else command.changes args).reverse := by
  have hkeys : ∀ keys : List String,
      (keys.map fun key => (⟨key, machine.space.find? key⟩ : Record)).reverse.map Record.key = keys.reverse := by
    intro keys
    rw [List.map_reverse, List.map_map]
    simp [Function.comp_def]
  unfold recorded Command.changes
  by_cases hincr : command = .incr
  · simp [hincr, Command.isJournaled]
  · cases hwrite : command.isWrite <;> simp [hincr, hwrite, Command.isJournaled, hkeys]

end Script.Machine

/-- Commands are atomic and local, whatever their arguments. What they do in place is what they do at once: no
empty hash, set or scored set is left behind, after an error the keyspace is what it was, and a command that
only reads leaves it as it is. Other keys than those that the command may change stay, which are its first argument
if it writes, or all its arguments if it deletes. A journal records these and what they held, unless the command
counts something up, of which it records nothing. -/
theorem Keyspace.execute_atomic {space : Keyspace} (h : space.Tidy) (command : Command) (args : List String) :
    space.executeInPlace command args = space.execute command args ∧
      (space.execute command args).2.Tidy ∧
      (∀ e, (space.execute command args).1 = .error e → (space.execute command args).2 = space) ∧
      (command.isWrite = false → (space.execute command args).2 = space) ∧
      (∀ key, key ∉ command.changes args → (space.execute command args).2.find? key = space.find? key) ∧
      ∀ (machine : Machine) (journal : List Record), machine.space = space → machine.journal = some journal →
        ∃ records, (machine.perform command args).journal = some (records ++ journal) ∧
          records.map Record.key = (if command = .incr then [] else command.changes args).reverse ∧
          ∀ record ∈ records, record.entry = space.find? record.key := by
  refine ⟨space.executeInPlace_eq command args, h.execute command args, fun e => execute_snd_of_error,
    fun hreads => space.execute_of_reads hreads args, fun key => space.find?_execute, ?_⟩
  rintro machine journal rfl hjournal
  exact ⟨machine.recorded command args, Machine.journal_perform hjournal command args,
    machine.keys_recorded command args, fun record hrecord => machine.entry_of_recorded hrecord⟩

/-- A hash and a text. -/
def hashAndText : Keyspace :=
  ((∅ : Keyspace).put "h" (.hash (.ofList [("a", "1")]))).put "t" (.text "x")

/-- Taking the last field out of a hash removes its key, and taking a member out of a text fails. -/
theorem execute_atomic_drained : hashAndText.Tidy ∧
    (hashAndText.execute .hdel ["h", "b", "a"]).2.Tidy ∧
    (hashAndText.execute .hdel ["h", "b", "a"]).2.find? "h" = none ∧
    (hashAndText.execute .srem ["t", "x"]).2 = hashAndText := by
  have htidy : hashAndText.Tidy := (Keyspace.tidy_empty.put _ _).put _ _
  have hdrained := Keyspace.execute_atomic htidy .hdel ["h", "b", "a"]
  have hfailed := Keyspace.execute_atomic htidy .srem ["t", "x"]
  exact ⟨htidy, hdrained.2.1, rfl, hfailed.2.2.1 (.wrongType "t") rfl⟩

/-- A counter is changed without a record of what it was, so that it is not put back. -/
theorem incr_unrecorded :
    (Command.incr.isWrite = true ∧ Command.incr.changes ["n"] = ["n"]) ∧
      ((∅ : Keyspace).execute .incr ["n"]).2.find? "n" ≠ (∅ : Keyspace).find? "n" ∧
      ((Machine.start ⟨[], true⟩ ∅).perform .incr ["n"]).journal = some [] ∧
      (Program.run ⟨[.call .incr [.str "n"], .abort .nil], true⟩ [] ∅).2.find? "n" = some (.text "1") := by
  refine ⟨by decide, by decide, by decide, ?_⟩
  with_unfolding_all rfl

end DocStore

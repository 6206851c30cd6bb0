import DocStore.Session.Basic

/-!
Talks and actions held with a store that answers by itself. Each construct of their monads gets one
equation, so that a talk is followed by rewriting, one step after another.
-/

namespace DocStore

open DocStore.Store DocStore.Client DocStore.Session

namespace Store.Talk

/-- The result of a talk, and where it leaves the store and the client's memory. -/
def on {α : Type} (talk : Talk α) (station : Station) : Except StoreError α × Station :=
  talk.run.run Station.answer station

variable {α β : Type} {station after : Station}

theorem on_bind (talk : Talk α) (next : α → Talk β) (station : Station) :
    (talk >>= next).on station =
      match talk.on station with
      | (.ok value, after) => (next value).on after
      | (.error e, after) => (.error e, after) := by
  change (Dialog.bind talk.run _).run Station.answer station = _
  rw [Dialog.run_bind, on]
  generalize talk.run.run Station.answer station = result
  obtain ⟨value | e, after⟩ := result <;> rfl

theorem on_bind_of_ok {talk : Talk α} {value : α} (h : talk.on station = (.ok value, after))
    (next : α → Talk β) : (talk >>= next).on station = (next value).on after := by
  rw [on_bind, h]

theorem on_step (step : Step) (station : Station) :
    Talk.on (liftM (Dialog.step step)) station =
      (.ok (Station.answer step station).1, (Station.answer step station).2) := rfl

theorem on_ask (call : Call) (station : Station) : call.ask.on station = Station.answer (.call call) station := rfl

theorem on_result (talk : Talk α) (station : Station) :
    talk.result.on station = (.ok (talk.on station).1, (talk.on station).2) := by
  change (Dialog.bind talk.run _).run Station.answer station = _
  rw [Dialog.run_bind]
  rfl

end Store.Talk

namespace Client.Act

/-- The result of an action, what the handle knows then, and where it leaves the store. -/
def on {α : Type} (action : Act α) (known : SchemaState) (station : Station) :
    (Except Failure α × SchemaState) × Station :=
  (action.run.run known).run Station.answer station

variable {α β : Type} {known later : SchemaState} {station after : Station}

theorem on_bind (action : Act α) (next : α → Act β) (known : SchemaState) (station : Station) :
    (action >>= next).on known station =
      match action.on known station with
      | ((.ok value, later), after) => (next value).on later after
      | ((.error e, later), after) => ((.error e, later), after) := by
  change (Dialog.bind (action.run.run known) _).run Station.answer station = _
  rw [Dialog.run_bind, on]
  generalize (action.run.run known).run Station.answer station = result
  obtain ⟨⟨value | e, later⟩, after⟩ := result <;> rfl

theorem on_bind_of_ok {action : Act α} {value : α}
    (h : action.on known station = ((.ok value, later), after)) (next : α → Act β) :
    (action >>= next).on known station = (next value).on later after := by
  rw [on_bind, h]

theorem on_bind_of_error {action : Act α} {e : Failure}
    (h : action.on known station = ((.error e, later), after)) (next : α → Act β) :
    (action >>= next).on known station = ((.error e, later), after) := by
  rw [on_bind, h]

theorem on_get (known : SchemaState) (station : Station) :
    (get : Act SchemaState).on known station = ((.ok known, known), station) := rfl

theorem on_tryCatch (action : Act α) (handler : Failure → Act α) (known : SchemaState) (station : Station) :
    (tryCatch action handler).on known station =
      match action.on known station with
      | ((.ok value, later), after) => ((.ok value, later), after)
      | ((.error e, later), after) => (handler e).on later after := by
  change (Dialog.bind (action.run.run known) _).run Station.answer station = _
  rw [Dialog.run_bind, on]
  generalize (action.run.run known).run Station.answer station = result
  obtain ⟨⟨value | e, later⟩, after⟩ := result <;> rfl

theorem on_talk (talk : Talk α) (known : SchemaState) (station : Station) :
    (Act.talk talk).on known station =
      (((talk.on station).1.mapError Failure.store, known), (talk.on station).2) := by
  change (Dialog.bind talk.run _).run Station.answer station = _
  rw [Dialog.run_bind]
  rfl

end Client.Act

end DocStore

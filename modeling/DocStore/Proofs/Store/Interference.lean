import DocStore.Proofs.Client.Talks

/-!
Talks that others interfere with.

Between the steps of a client others may act, and change the station as `rely` allows. `Dialog.Ensures` says
that with every step of its own the client keeps to what `guar` asks of it, and that its result is as
promised, whenever the others act: what holds after a step is such that nobody else can undo it. The rules
go along the constructs of the clients' monads, and `Dialog.Ensures.run` makes them true of a run in which
others act before every step.
-/

namespace DocStore

open DocStore.Store DocStore.Client DocStore.Session

instance : LawfulMonad Dialog :=
  LawfulMonad.mk' Dialog
    (fun dialog => by
      induction dialog with
      | done result => rfl
      | ask step next ih => exact congrArg (Dialog.ask step) (funext ih))
    (fun _ _ => rfl)
    (fun dialog _ _ => by
      induction dialog with
      | done result => rfl
      | ask step next ih => exact congrArg (Dialog.ask step) (funext ih))

namespace Client

/-- A step that a client has taken, and the station that it came to. -/
structure Taken where
  step : Step
  before : Station

/-- The station that the step has left. -/
def Taken.after (taken : Taken) : Station :=
  (Station.answer taken.step taken.before).2

/-- A client in the midst of a talk: the station, and the steps of its own so far, newest first. -/
structure Course where
  station : Station
  taken : List Taken

/-- The client takes a step. -/
def Course.answer (course : Course) (step : Step) : step.Answer × Course :=
  ((Station.answer step course.station).1,
    ⟨(Station.answer step course.station).2, ⟨step, course.station⟩ :: course.taken⟩)

/-- Others take steps. -/
def Course.elsewhere (course : Course) (station : Station) : Course :=
  { course with station := station }

/-- The client takes a step, and others act before, as they see fit. -/
def Course.amid (others : Course → Station) (step : Step) (course : Course) : step.Answer × Course :=
  (course.elsewhere (others course)).answer step

/-- What others do does not make the assertion wrong. -/
def Stable (rely : Course → Station → Prop) (assertion : Course → Prop) : Prop :=
  ∀ course station, rely course station → assertion course → assertion (course.elsewhere station)

namespace Stable

variable {rely : Course → Station → Prop} {assertion other : Course → Prop}

theorem and (h : Stable rely assertion) (hother : Stable rely other) :
    Stable rely fun course => assertion course ∧ other course :=
  fun course station hrely hboth => ⟨h course station hrely hboth.1, hother course station hrely hboth.2⟩

theorem or (h : Stable rely assertion) (hother : Stable rely other) :
    Stable rely fun course => assertion course ∨ other course :=
  fun course station hrely => Or.imp (h course station hrely) (hother course station hrely)

/-- What only matters on a condition needs to be stable only then. -/
theorem imp {condition : Prop} (h : condition → Stable rely assertion) :
    Stable rely fun course => condition → assertion course :=
  fun course station hrely himp hcondition => h hcondition course station hrely (himp hcondition)

theorem all {ι : Sort u} {assertion : ι → Course → Prop} (h : ∀ i, Stable rely (assertion i)) :
    Stable rely fun course => ∀ i, assertion i course :=
  fun course station hrely hall i => h i course station hrely (hall i)

theorem const (condition : Prop) : Stable rely fun _ => condition :=
  fun _ _ _ => id

end Stable

end Client

/-- From any course with `pre` on, the client keeps to `guar`, and ends with `post`, whatever others do that
`rely` allows. -/
def Store.Dialog.Ensures {α : Type} (rely : Course → Station → Prop) (guar : Taken → Prop)
    (post : α → Course → Prop) : Dialog α → (Course → Prop) → Prop
  | .done result, pre => ∀ course, pre course → post result course
  | .ask step next, pre =>
    ∃ held : step.Answer → Course → Prop, (∀ answer, Stable rely (held answer)) ∧
      (∀ course, pre course →
        guar ⟨step, course.station⟩ ∧ held (course.answer step).1 (course.answer step).2) ∧
      ∀ answer, (next answer).Ensures rely guar post (held answer)

variable {α β : Type} {rely : Course → Station → Prop} {guar : Taken → Prop}

namespace Store.Dialog.Ensures

theorem weaken {dialog : Dialog α} {pre stronger : Course → Prop} {post weaker : α → Course → Prop}
    (h : dialog.Ensures rely guar post pre) (hpre : ∀ course, stronger course → pre course)
    (hpost : ∀ result course, post result course → weaker result course) :
    dialog.Ensures rely guar weaker stronger := by
  induction dialog generalizing pre stronger with
  | done result => exact fun course hcourse => hpost result course (h course (hpre course hcourse))
  | ask step next ih =>
    obtain ⟨held, hstable, hstep, hnext⟩ := h
    exact ⟨held, hstable, fun course hcourse => hstep course (hpre course hcourse),
      fun answer => ih answer (hnext answer) fun _ => id⟩

theorem bind {first : Dialog α} {next : α → Dialog β} {pre : Course → Prop} {between : α → Course → Prop}
    {post : β → Course → Prop} (h : first.Ensures rely guar between pre)
    (hnext : ∀ result, (next result).Ensures rely guar post (between result)) :
    (first.bind next).Ensures rely guar post pre := by
  induction first generalizing pre with
  | done result => exact (hnext result).weaken h fun _ _ => id
  | ask step more ih =>
    obtain ⟨held, hstable, hstep, hmore⟩ := h
    exact ⟨held, hstable, hstep, fun answer => ih answer (hmore answer)⟩

/-- Nothing is promised where nobody comes. -/
theorem of_not {pre : Course → Prop} {post : α → Course → Prop} (h : ∀ course, ¬pre course)
    (dialog : Dialog α) : dialog.Ensures rely guar post pre := by
  induction dialog generalizing pre with
  | done result => exact fun course hcourse => absurd hcourse (h course)
  | ask step next ih =>
    exact ⟨fun _ _ => False, fun _ => Stable.const False, fun course hcourse => absurd hcourse (h course),
      fun answer => ih answer fun _ => id⟩

/-- What neither the others nor the client's own steps make wrong stays. -/
theorem frame {dialog : Dialog α} {pre : Course → Prop} {post : α → Course → Prop}
    (h : dialog.Ensures rely guar post pre) (fact : Station → Prop)
    (hrely : ∀ course station, rely course station → fact course.station → fact station)
    (hguar : ∀ taken : Taken, guar taken → fact taken.before → fact taken.after) :
    dialog.Ensures rely guar (fun result course => post result course ∧ fact course.station)
      (fun course => pre course ∧ fact course.station) := by
  induction dialog generalizing pre with
  | done result => exact fun course hcourse => ⟨h course hcourse.1, hcourse.2⟩
  | ask step next ih =>
    obtain ⟨held, hstable, hstep, hnext⟩ := h
    refine ⟨fun answer course => held answer course ∧ fact course.station,
      fun answer => (hstable answer).and fun course station => hrely course station, fun course hcourse => ?_,
      fun answer => ih answer (hnext answer)⟩
    obtain ⟨htaken, hafter⟩ := hstep course hcourse.1
    exact ⟨htaken, hafter, hguar _ htaken hcourse.2⟩

/-- A run keeps its promises if the others keep to `rely`. -/
theorem run {dialog : Dialog α} {pre : Course → Prop} {post : α → Course → Prop} {others : Course → Station}
    (h : dialog.Ensures rely guar post pre) (hothers : ∀ course, rely course (others course))
    (hstable : Stable rely pre) {course : Course} (hpre : pre course)
    (hguar : ∀ taken ∈ course.taken, guar taken) :
    post (dialog.run (Course.amid others) course).1 (dialog.run (Course.amid others) course).2 ∧
      ∀ taken ∈ (dialog.run (Course.amid others) course).2.taken, guar taken := by
  induction dialog generalizing pre course with
  | done result => exact ⟨h course hpre, hguar⟩
  | ask step next ih =>
    obtain ⟨held, hheld, hstep, hnext⟩ := h
    obtain ⟨htaken, hafter⟩ := hstep _ (hstable course _ (hothers course) hpre)
    exact ih _ (hnext _) (hheld _) hafter fun taken hmem => by
      rcases List.mem_cons.1 hmem with rfl | hmem
      · exact htaken
      · exact hguar taken hmem

end Store.Dialog.Ensures

namespace Store.Talk

/-- The talk keeps to `guar`, and ends with `post`, as its dialog does. -/
def Ensures (rely : Course → Station → Prop) (guar : Taken → Prop) (talk : Talk α) (pre : Course → Prop)
    (post : Except StoreError α → Course → Prop) : Prop :=
  talk.run.Ensures rely guar post pre

namespace Ensures

variable {pre : Course → Prop}

theorem bind {talk : Talk α} {next : α → Talk β} {between : Except StoreError α → Course → Prop}
    {post : Except StoreError β → Course → Prop} (h : talk.Ensures rely guar pre between)
    (hnext : ∀ value, (next value).Ensures rely guar (between (.ok value)) post)
    (herror : ∀ e course, between (.error e) course → post (.error e) course) :
    (talk >>= next).Ensures rely guar pre post := by
  refine Dialog.Ensures.bind h fun result => ?_
  cases result with
  | ok value => exact hnext value
  | error e => exact herror e

theorem frame {talk : Talk α} {post : Except StoreError α → Course → Prop}
    (h : talk.Ensures rely guar pre post) (fact : Station → Prop)
    (hrely : ∀ course station, rely course station → fact course.station → fact station)
    (hguar : ∀ taken : Taken, guar taken → fact taken.before → fact taken.after) :
    talk.Ensures rely guar (fun course => pre course ∧ fact course.station)
      (fun result course => post result course ∧ fact course.station) :=
  Dialog.Ensures.frame h fact hrely hguar

/-- A talk ends here. -/
theorem done {talk : Talk α} {result : Except StoreError α} {post : Except StoreError α → Course → Prop}
    (htalk : talk.run = .done result) (h : ∀ course, pre course → post result course) :
    talk.Ensures rely guar pre post := by
  rw [Ensures, htalk]
  exact h

/-- A talk that begins with a step. -/
theorem step {step : Step} {next : step.Answer → Talk β} {post : Except StoreError β → Course → Prop}
    (between : step.Answer → Course → Prop) (hstable : ∀ answer, Stable rely (between answer))
    (hstep : ∀ course, pre course →
      guar ⟨step, course.station⟩ ∧ between (course.answer step).1 (course.answer step).2)
    (hnext : ∀ answer, (next answer).Ensures rely guar (between answer) post) :
    Talk.Ensures rely guar (liftM (Dialog.step step) >>= next) pre post :=
  ⟨between, hstable, hstep, hnext⟩

/-- A talk that is a call. -/
theorem ask {call : Call} {post : Except StoreError call.Result → Course → Prop}
    (hstable : ∀ answer, Stable rely (post answer))
    (hstep : ∀ course, pre course →
      guar ⟨.call call, course.station⟩ ∧ post (course.answer (.call call)).1 (course.answer (.call call)).2) :
    call.ask.Ensures rely guar pre post :=
  ⟨post, hstable, hstep, fun _ _ => id⟩

/-- The one who goes on either way is given the result. -/
theorem result {talk : Talk α} {next : Except StoreError α → Talk β}
    {between : Except StoreError α → Course → Prop} {post : Except StoreError β → Course → Prop}
    (h : talk.Ensures rely guar pre between)
    (hnext : ∀ found, (next found).Ensures rely guar (between found) post) :
    (talk.result >>= next).Ensures rely guar pre post := by
  have hresult : talk.result.Ensures rely guar pre fun result course =>
      ∃ found, result = .ok found ∧ between found course :=
    Dialog.Ensures.bind h fun found _ hcourse => ⟨found, rfl, hcourse⟩
  refine bind hresult (fun found => (hnext found).weaken ?_ fun _ _ => id) ?_
  · rintro course ⟨_, hfound, hcourse⟩
    cases hfound
    exact hcourse
  · rintro e course ⟨_, hfound, -⟩
    cases hfound

end Ensures

end Store.Talk

namespace Client.Act

/-- The action of a handle that knows `known` keeps to `guar`, and ends with `post`, as its dialog does. -/
def Ensures (rely : Course → Station → Prop) (guar : Taken → Prop) (action : Act α) (known : SchemaState)
    (pre : Course → Prop) (post : Except Failure α → SchemaState → Course → Prop) : Prop :=
  (action.run.run known).Ensures rely guar (fun ended => post ended.1 ended.2) pre

namespace Ensures

variable {known : SchemaState} {pre : Course → Prop}

theorem weaken {action : Act α} {stronger : Course → Prop}
    {post weaker : Except Failure α → SchemaState → Course → Prop}
    (h : action.Ensures rely guar known pre post) (hpre : ∀ course, stronger course → pre course)
    (hpost : ∀ result later course, post result later course → weaker result later course) :
    action.Ensures rely guar known stronger weaker :=
  Dialog.Ensures.weaken h hpre fun ended => hpost ended.1 ended.2

theorem bind {action : Act α} {next : α → Act β} {between : Except Failure α → SchemaState → Course → Prop}
    {post : Except Failure β → SchemaState → Course → Prop} (h : action.Ensures rely guar known pre between)
    (hnext : ∀ value later, (next value).Ensures rely guar later (between (.ok value) later) post)
    (herror : ∀ e later course, between (.error e) later course → post (.error e) later course) :
    (action >>= next).Ensures rely guar known pre post := by
  refine Dialog.Ensures.bind h fun ended => ?_
  obtain ⟨result, later⟩ := ended
  cases result with
  | ok value => exact hnext value later
  | error e => exact herror e later

/-- An action ends here. -/
theorem done {action : Act α} {result : Except Failure α} {later : SchemaState}
    {post : Except Failure α → SchemaState → Course → Prop} (haction : action.run.run known = .done (result, later))
    (h : ∀ course, pre course → post result later course) : action.Ensures rely guar known pre post := by
  rw [Ensures, haction]
  exact h

theorem get {next : SchemaState → Act β} {post : Except Failure β → SchemaState → Course → Prop}
    (h : (next known).Ensures rely guar known pre post) :
    (MonadState.get >>= next : Act β).Ensures rely guar known pre post := h

theorem set {later : SchemaState} {next : PUnit → Act β}
    {post : Except Failure β → SchemaState → Course → Prop}
    (h : (next ⟨⟩).Ensures rely guar later pre post) :
    (MonadStateOf.set later >>= next : Act β).Ensures rely guar known pre post := h

theorem talk {talk : Talk α} {next : α → Act β} {between : Except StoreError α → Course → Prop}
    {post : Except Failure β → SchemaState → Course → Prop} (h : talk.Ensures rely guar pre between)
    (hnext : ∀ value, (next value).Ensures rely guar known (between (.ok value)) post)
    (herror : ∀ e course, between (.error e) course → post (.error (.store e)) known course) :
    (Act.talk talk >>= next).Ensures rely guar known pre post := by
  have hrun : (Act.talk talk >>= next).run.run known = talk.run >>= fun found =>
      match found with
      | .ok value => (next value).run.run known
      | .error e => pure (.error (.store e), known) := by
    refine (bind_assoc talk.run _ _).trans (congrArg _ (funext fun found => ?_))
    cases found <;> rfl
  rw [Ensures, hrun]
  refine Dialog.Ensures.bind h fun found => ?_
  cases found with
  | ok value => exact hnext value
  | error e => exact herror e

theorem discard {action : Act α} {post : Except Failure PUnit → SchemaState → Course → Prop}
    (h : action.Ensures rely guar known pre fun result later => post (result.map fun _ => ⟨⟩) later) :
    (Functor.discard action).Ensures rely guar known pre post := by
  refine Dialog.Ensures.bind h fun ended => ?_
  obtain ⟨value | e, later⟩ := ended <;> exact fun _ => id

theorem tryCatch {action : Act α} {handler : Failure → Act α}
    {between post : Except Failure α → SchemaState → Course → Prop}
    (h : action.Ensures rely guar known pre between)
    (hok : ∀ value later course, between (.ok value) later course → post (.ok value) later course)
    (hhandler : ∀ e later, (handler e).Ensures rely guar later (between (.error e) later) post) :
    (MonadExcept.tryCatch action handler).Ensures rely guar known pre post := by
  refine Dialog.Ensures.bind h fun ended => ?_
  obtain ⟨result, later⟩ := ended
  cases result with
  | ok value => exact hok value later
  | error e => exact hhandler e later

end Ensures

end Client.Act

end DocStore

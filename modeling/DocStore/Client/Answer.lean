import DocStore.Client.Failure

/-!
Reading the answers of scripts: a method tag, an error tag, and what goes with them.
-/

namespace DocStore.Client

/-- The text of a part. -/
def textOf (part : Part) (reply : Reply) : Except AnswerFault String :=
  match reply.text? with
  | some text => .ok text
  | none => .error (.expected part reply)

/-- The integer of a part that may be missing. -/
def intOf (part : Part) (reply : Option Reply) : Except AnswerFault Int :=
  match reply.bind Reply.int? with
  | some i => .ok i
  | none => .error (.expectedInteger part reply)

/-- The texts of the items of a list. -/
def textsOfItems (part : Part) : List Reply → Except AnswerFault (List String)
  | [] => .ok []
  | item :: rest => do
    let text ← textOf part item
    let texts ← textsOfItems part rest
    .ok (text :: texts)

/-- The texts of a part that is a list. -/
def textsOf (part : Part) : Option Reply → Except AnswerFault (List String)
  | none => .error (.missing part)
  | some (.array items) => textsOfItems part items
  | some other => .error (.reply (.notArray other))

/-- The ids that texts stand for. -/
def idsOfTexts : List String → Except AnswerFault (List Int)
  | [] => .ok []
  | text :: rest =>
    match Decimal.int64? text with
    | none => .error (.notId text)
    | some id => (idsOfTexts rest).map (id :: ·)

/-- The outcome that a successful answer reports. -/
def outcomeOf (schema : Schema) (method : Method) (payload more : Option Reply) :
    Except AnswerFault Outcome := do
  match method with
  | .none | .setSchema => .ok .done
  | .create => .ok (.created (← intOf .id payload))
  | .update => .ok .updated
  | .delete => .ok .deleted
  | .get =>
    let flat ← textsOf .fieldList payload
    let name ← textOf .collectionName (more.getD .nil)
    match schema.collection? name with
    | none => .error (.unknownCollection name)
    | some collection =>
      match collection.decodeRecord flat with
      | .ok values => .ok (.record values)
      | .error e => .error (.stored e)
  | .exists => .ok (.exists ((← intOf .flag payload) = 1))
  | .list | .find | .findAll => .ok (.ids (← idsOfTexts (← textsOf .idList payload)))
  | .size =>
    let size ← intOf .size payload
    if 0 ≤ size then .ok (.size size.toNat) else .error .negativeSize
  | other => .error (.notScriptMethod other)

/-- The operation error that a failed answer reports. -/
def rejectionOf (method : Method) (tag : String) (payload : Option Reply) :
    Except AnswerFault OperationError := do
  match ErrorCode.ofName? tag with
  | none => .error (.unknownError tag)
  | some .notUnique => .ok ⟨method, .notUnique, ← textsOf .indexList payload, none⟩
  | some code => .ok ⟨method, code, [], none⟩

/-- Reads the answer of a script over the collections of a schema. -/
def readAnswer (schema : Schema) (reply : Reply) : Except Failure Outcome :=
  match reply with
  | .array items =>
    let read : Except AnswerFault (Except OperationError Outcome) := do
      let methodTag ← textOf .methodTag (items[0]?.getD .nil)
      let errorTag ← textOf .errorTag (items[1]?.getD .nil)
      match Method.ofName? methodTag with
      | none => .error (.unknownMethod methodTag)
      | some method =>
        if errorTag = noError then
          (outcomeOf schema method items[2]? items[3]?).map .ok
        else (rejectionOf method errorTag items[2]?).map .error
    match read with
    | .error fault => .error (.protocol fault)
    | .ok (.error e) => .error (.operation e)
    | .ok (.ok outcome) => .ok outcome
  | other => .error (.protocol (.reply (.notArray other)))

end DocStore.Client

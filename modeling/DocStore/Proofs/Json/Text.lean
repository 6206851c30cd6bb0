import DocStore.Proofs.Json.Scan
import Mathlib.Data.List.Forall2

/-!
What is printed can be read again.

The texts of values are followed through the scanner (`Token.Scans`) and through the stack machine
(`Token.Reads`). `Json.ReadsBack` puts the two together: it says as what a text is read, and goes from the
parts of a value to the whole. A value without doubles that is not nested too deeply is read as itself with
its members in order (`Json.Plain.ofText?_text`).
-/

namespace DocStore.Json

namespace Token

variable {tokens : List Token}

/-- Where a value must come, the tokens are those of the tree. -/
def Reads (tokens : List Token) (tree : Written) : Prop :=
  ∃ first rest, tokens = first :: rest ∧ first ≠ .closeArray ∧
    ∀ stack, (Written.startValue? stack first).bind (rest.foldlM Written.step?) =
      some (.complete stack tree)

namespace Reads

variable {tree : Written}

theorem one {token : Token} (htoken : token ≠ .closeArray)
    (h : ∀ stack, Written.startValue? stack token = some (.complete stack tree)) : Reads [token] tree :=
  ⟨token, [], rfl, htoken, fun stack => by rw [h]; rfl⟩

theorem value (h : Reads tokens tree) (stack : List Written.Open) :
    tokens.foldlM Written.step? (.value stack) = some (.complete stack tree) := by
  obtain ⟨first, rest, rfl, -, hrun⟩ := h
  exact hrun stack

theorem firstItem (h : Reads tokens tree) (stack : List Written.Open) :
    tokens.foldlM Written.step? (.firstItem stack) = some (.complete (.array [] :: stack) tree) := by
  obtain ⟨first, rest, rfl, hfirst, hrun⟩ := h
  rw [List.foldlM_cons, Written.step?]
  · exact hrun (.array [] :: stack)
  · exact hfirst

end Reads

end Token

open Token

/-- The text of the first value is read as the second, with no more than so many arrays and objects inside
each other. -/
def ReadsBack (depth : Nat) (value found : Json) : Prop :=
  ∃ tokens tree, Scans Stops value.text.toList tokens ∧ Reads tokens tree ∧ tree.toJson? = some found ∧
    tree.depth ≤ depth

namespace ReadsBack

variable {depth : Nat}

theorem ofText? {value found : Json} (h : ReadsBack depth value found) (hdepth : depth ≤ 127) :
    ofText? value.text = some found := by
  obtain ⟨tokens, tree, hscan, hreads, hvalue, htree⟩ := h
  have htokens : Written.ofTokens? tokens = some tree := by
    rw [Written.ofTokens?, hreads.value []]
  simp [Json.ofText?, Written.ofText?, hscan.scan? stops_nil, htokens, Written.value?,
    Nat.le_trans htree hdepth, hvalue]

theorem mono {value found : Json} (h : ReadsBack depth value found) {more : Nat} (hdepth : depth ≤ more) :
    ReadsBack more value found := by
  obtain ⟨tokens, tree, hscan, hreads, hvalue, htree⟩ := h
  exact ⟨tokens, tree, hscan, hreads, hvalue, Nat.le_trans htree hdepth⟩

theorem str (text : String) : ReadsBack depth (.str text) (.str text) := by
  refine ⟨[.str (some text)], .str (some text), ?_, .one (by simp) fun _ => rfl, rfl, Nat.zero_le _⟩
  rw [Json.text]
  exact scans_strText Stops text

theorem bool (b : Bool) : ReadsBack depth (.bool b) (.bool b) := by
  refine ⟨[.bool b], .bool b, ?_, .one (by simp) fun _ => rfl, rfl, Nat.zero_le _⟩
  cases b with
  | true => exact .token (by decide) fun _ _ => rfl
  | false => exact .token (by decide) fun _ _ => rfl

theorem null : ReadsBack depth .null .null :=
  ⟨[.null], .null, .token (by decide) fun _ _ => rfl, .one (by simp) fun _ => rfl, rfl, Nat.zero_le _⟩

theorem int {i : Int} (h : InWord i) : ReadsBack depth (.int i) (.int i) := by
  refine ⟨[.number (numberOf i)], .number (numberOf i), ?_, .one (by simp) fun _ => rfl, ?_, Nat.zero_le _⟩
  · rw [Json.text]
    exact scans_ofInt i
  · rw [Written.toJson?, NumberText.value?_numberOf h]

/-- Behind a value comes a comma, or nothing. -/
theorem stops_commas (texts : List String) : Stops (texts.flatMap fun text => ',' :: text.toList) := by
  cases texts with
  | nil => exact stops_nil
  | cons text rest => exact stops_cons (by decide) (by decide) (by decide)

theorem toList_joined (first : String) (rest : List String) :
    (Text.joined "," (first :: rest)).toList =
      first.toList ++ rest.flatMap fun text => ',' :: text.toList := by
  induction rest generalizing first with
  | nil => simp [Text.joined]
  | cons next rest ih =>
    rw [Text.joined, String.toList_append, String.toList_append, ih, List.flatMap_cons, List.append_assoc]
    rfl

/-- The items after the first, each behind its comma, and the end of the array. -/
theorem items {values found : List Json} (h : List.Forall₂ (ReadsBack depth) values found) :
    ∃ tokens trees, Scans Stops ((itemTexts values).flatMap fun text => ',' :: text.toList) tokens ∧
      (∀ stack done last, (tokens ++ [Token.closeArray]).foldlM Written.step?
        (.complete (.array done :: stack) last) =
          some (.complete stack (.arr ((last :: done).reverse ++ trees)))) ∧
      Written.itemsToJson? trees = some found ∧ Written.depthItems trees ≤ depth := by
  induction h with
  | nil => exact ⟨[], [], .nil, fun stack done last => by simp [Written.step?, Written.afterValue?], rfl,
      Nat.zero_le _⟩
  | @cons value first values found hfirst _ ih =>
    obtain ⟨tokens, tree, hscan, hreads, hvalue, htree⟩ := hfirst
    obtain ⟨others, trees, hscans, hrun, hvalues, htrees⟩ := ih
    refine ⟨.comma :: tokens ++ others, tree :: trees, ?_, fun stack done last => ?_, ?_, ?_⟩
    · exact ((Scans.char (by decide) fun _ => rfl).followed hscan).append hscans
        fun _ => (stops_commas _).append
    · change (tokens ++ others ++ [Token.closeArray]).foldlM Written.step?
        (.value (.array (last :: done) :: stack)) = _
      rw [List.append_assoc, List.foldlM_append, hreads.value]
      exact (hrun stack (last :: done) tree).trans (by simp)
    · simp [Written.itemsToJson?, hvalue, hvalues]
    · rw [Written.depthItems]
      exact Nat.max_le.2 ⟨htree, htrees⟩

theorem arr {values found : List Json} (h : List.Forall₂ (ReadsBack depth) values found) :
    ReadsBack (depth + 1) (.arr values) (.arr found) := by
  cases h with
  | nil =>
    refine ⟨[.openArray, .closeArray], .arr [], ?_, ⟨.openArray, [.closeArray], rfl, by simp, fun _ => rfl⟩,
      rfl, Nat.le_add_left _ _⟩
    rw [Json.text]
    exact (Scans.char (c := '[') (by decide) fun _ => rfl).followed (Scans.char (by decide) fun _ => rfl)
  | @cons value first values found hfirst hrest =>
    obtain ⟨tokens, tree, hscan, hreads, hvalue, htree⟩ := hfirst
    obtain ⟨others, trees, hscans, hrun, hvalues, htrees⟩ := items hrest
    refine ⟨.openArray :: (tokens ++ others ++ [.closeArray]), .arr (tree :: trees), ?_, ?_, ?_, ?_⟩
    · have htext : (Json.arr (value :: values)).text.toList = '[' :: (value.text.toList ++
          ((itemTexts values).flatMap fun text => ',' :: text.toList) ++ [']']) := by
        rw [Json.text, itemTexts, String.toList_append, String.toList_append, toList_joined]
        rfl
      rw [htext]
      have hclose : ∀ rest, Stops ([']'] ++ rest) := fun _ => stops_cons (by decide) (by decide) (by decide)
      exact (Scans.char (by decide) fun _ => rfl).followed
        ((hscan.append hscans fun _ => (stops_commas _).append).append
          (Scans.char (by decide) fun _ => rfl) fun rest _ => hclose rest)
    · refine ⟨.openArray, _, rfl, by simp, fun stack => ?_⟩
      change (tokens ++ others ++ [Token.closeArray]).foldlM Written.step? (.firstItem stack) = _
      rw [List.append_assoc, List.foldlM_append, hreads.firstItem]
      exact hrun stack [] tree
    · simp [Written.toJson?, Written.itemsToJson?, hvalue, hvalues]
    · rw [Written.depth, Written.depthItems]
      exact Nat.succ_le_succ (Nat.max_le.2 ⟨htree, htrees⟩)

/-- A member of an object: the same name, and a value that is read back. -/
def Member (depth : Nat) (member found : String × Json) : Prop :=
  found.1 = member.1 ∧ ReadsBack depth member.2 found.2

/-- The members after the first, each behind its comma, and the end of the object. -/
theorem members {listed found : List (String × Json)} (h : List.Forall₂ (Member depth) listed found) :
    ∃ tokens trees, Scans Stops ((memberTexts listed).flatMap fun text => ',' :: text.toList) tokens ∧
      (∀ stack done name last, (tokens ++ [Token.closeObject]).foldlM Written.step?
        (.complete (.object done name :: stack) last) =
          some (.complete stack (.obj (((name, last) :: done).reverse ++ trees)))) ∧
      Written.membersToJson? trees = some found ∧ Written.depthMembers trees ≤ depth := by
  induction h with
  | nil => exact ⟨[], [], .nil, fun stack done name last => by simp [Written.step?, Written.afterValue?],
      rfl, Nat.zero_le _⟩
  | @cons member first listed found hfirst _ ih =>
    obtain ⟨_, value⟩ := member
    obtain ⟨name, value'⟩ := first
    obtain ⟨rfl, tokens, tree, hscan, hreads, hvalue, htree⟩ := hfirst
    obtain ⟨others, trees, hscans, hrun, hvalues, htrees⟩ := ih
    refine ⟨.comma :: .str (some name) :: .colon :: tokens ++ others, (some name, tree) :: trees, ?_,
      fun stack done previous last => ?_, ?_, ?_⟩
    · have htext : (',' :: (strText name ++ ":" ++ value.text).toList) =
          [','] ++ ((strText name).toList ++ ([':'] ++ value.text.toList)) := by simp
      rw [memberTexts, List.flatMap_cons, htext]
      exact ((Scans.char (by decide) fun _ => rfl).followed ((scans_strText _ name).followed
        ((Scans.char (by decide) fun _ => rfl).followed hscan))).append hscans
          fun _ => (stops_commas _).append
    · change (tokens ++ others ++ [Token.closeObject]).foldlM Written.step?
        (.value (.object ((previous, last) :: done) (some name) :: stack)) = _
      rw [List.append_assoc, List.foldlM_append, hreads.value]
      exact (hrun stack ((previous, last) :: done) (some name) tree).trans (by simp)
    · simp [Written.membersToJson?, hvalue, hvalues]
    · rw [Written.depthMembers]
      exact Nat.max_le.2 ⟨htree, htrees⟩

theorem obj {listed found : List (String × Json)} (h : List.Forall₂ (Member depth) listed found) :
    ReadsBack (depth + 1) (.obj listed) (.obj (Assoc.ofPairs found)) := by
  cases h with
  | nil =>
    refine ⟨[.openObject, .closeObject], .obj [], ?_,
      ⟨.openObject, [.closeObject], rfl, by simp, fun _ => rfl⟩, rfl, Nat.le_add_left _ _⟩
    rw [Json.text]
    exact (Scans.char (c := '\x7b') (by decide) fun _ => rfl).followed (Scans.char (by decide) fun _ => rfl)
  | @cons member first listed found hfirst hrest =>
    obtain ⟨_, value⟩ := member
    obtain ⟨name, value'⟩ := first
    obtain ⟨rfl, tokens, tree, hscan, hreads, hvalue, htree⟩ := hfirst
    obtain ⟨others, trees, hscans, hrun, hvalues, htrees⟩ := members hrest
    refine ⟨.openObject :: .str (some name) :: .colon :: (tokens ++ others ++ [.closeObject]),
      .obj ((some name, tree) :: trees), ?_, ?_, ?_, ?_⟩
    · have htext : (Json.obj ((name, value) :: listed)).text.toList =
          ['\x7b'] ++ ((strText name).toList ++ ([':'] ++ (value.text.toList ++
            ((memberTexts listed).flatMap fun text => ',' :: text.toList) ++ ['\x7d']))) := by
        rw [Json.text, memberTexts, String.toList_append, String.toList_append, toList_joined]
        simp
      rw [htext]
      have hclose : ∀ rest, Stops (['\x7d'] ++ rest) := fun _ => stops_cons (by decide) (by decide) (by decide)
      exact (Scans.char (by decide) fun _ => rfl).followed ((scans_strText _ name).followed
        ((Scans.char (by decide) fun _ => rfl).followed
          ((hscan.append hscans fun _ => (stops_commas _).append).append
            (Scans.char (by decide) fun _ => rfl) fun rest _ => hclose rest)))
    · refine ⟨.openObject, _, rfl, by simp, fun stack => ?_⟩
      change (tokens ++ others ++ [Token.closeObject]).foldlM Written.step?
        (.value (.object [] (some name) :: stack)) = _
      rw [List.append_assoc, List.foldlM_append, hreads.value]
      exact hrun stack [] (some name) tree
    · simp [Written.toJson?, Written.membersToJson?, hvalue, hvalues]
    · rw [Written.depth, Written.depthMembers]
      exact Nat.succ_le_succ (Nat.max_le.2 ⟨htree, htrees⟩)

end ReadsBack

theorem normalisedItems_eq_map (items : List Json) : normalisedItems items = items.map normalised := by
  induction items with
  | nil => rfl
  | cons item rest ih => rw [normalisedItems, ih, List.map_cons]

theorem normalisedMembers_eq_map (members : List (String × Json)) :
    normalisedMembers members = members.map fun member => (member.1, member.2.normalised) := by
  induction members with
  | nil => rfl
  | cons member rest ih => rw [normalisedMembers, ih, List.map_cons]

/-- A value without doubles, its integers of 64 bits, with no more than so many arrays and objects inside
each other. -/
inductive Plain : Nat → Json → Prop where
  | null {depth : Nat} : Plain depth .null
  | bool {depth : Nat} (b : Bool) : Plain depth (.bool b)
  | int {depth : Nat} {i : Int} (h : InWord i) : Plain depth (.int i)
  | str {depth : Nat} (text : String) : Plain depth (.str text)
  | arr {depth : Nat} {items : List Json} (h : ∀ item ∈ items, Plain depth item) :
    Plain (depth + 1) (.arr items)
  | obj {depth : Nat} {members : List (String × Json)} (h : ∀ member ∈ members, Plain depth member.2) :
    Plain (depth + 1) (.obj members)

namespace Plain

variable {depth : Nat} {value : Json}

theorem readsBack (h : Plain depth value) : ReadsBack depth value value.normalised := by
  induction h with
  | null => exact ReadsBack.null
  | bool b => exact ReadsBack.bool b
  | int h => exact ReadsBack.int h
  | str text => exact ReadsBack.str text
  | @arr depth items h ih =>
    rw [normalised, normalisedItems_eq_map]
    apply ReadsBack.arr
    rw [List.forall₂_map_right_iff, List.forall₂_same]
    exact ih
  | @obj depth members h ih =>
    rw [normalised, normalisedMembers_eq_map]
    apply ReadsBack.obj
    rw [List.forall₂_map_right_iff, List.forall₂_same]
    exact fun member hmember => ⟨rfl, ih member hmember⟩

/-- The text of a plain value is read as the value, with the members of its objects in order. -/
theorem ofText?_text (h : Plain depth value) (hdepth : depth ≤ 127) :
    ofText? value.text = some value.normalised :=
  h.readsBack.ofText? hdepth

end Plain

end DocStore.Json

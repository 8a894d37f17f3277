import DazeApi.Lib.Failing
import DazeApi.Lib.JsonDecode
import DazeApi.Lib.Pieces
import DazeApi.Overrides.NegativeIndex
import DazeApi.Overrides.Wildcard

/-!
# Pruning of objects

`pruneObjects` (`relay/common/override.go`) removes the objects that meet conditions from a part
of the request.  `pruneObjects_spec` says which objects are removed, when the removal fails, and
when it is the same to remove twice.
-/

namespace DazeApi.Overrides.PruneObjects

open JsonText JsonPath JsonDecode

/-! ## Conditions -/

section

variable (nums : Numbers)

structure ConditionOperation where
  path : String
  mode : String
  value : Json
  invert : Bool
  passMissingKey : Bool

/-- A condition that a field has a value. -/
def ConditionOperation.full (path : String) (value : Json) : ConditionOperation where
  path := path
  mode := "full"
  value := value
  invert := false
  passMissingKey := false

inductive PruneError where
  | differentTypes
  | notNumeric
  | unsupportedMode (mode : String)
  | valueRequired
  | valueType
  | conditionsRequired
  | conditionsType
  | conditionsEmpty
  | conditionNotObject
  | conditionPathMode
  | whereNotObject
  | setRaw

/-- `gjson.Type`. -/
inductive Kind where
  | null
  | false
  | true
  | number
  | string
  | json
deriving DecidableEq

def kind : Json → Kind
  | .null => .null
  | .bool false => .false
  | .bool true => .true
  | .num _ => .number
  | .str _ => .string
  | .arr _ => .json
  | .obj _ => .json

/-- `gjson.Result.String`. -/
def text : Json → String
  | .null => ""
  | .bool b => if b then "true" else "false"
  | .num literal => nums.text literal
  | .str s => s
  | .arr items => String.ofList (print (.arr items))
  | .obj ms => String.ofList (print (.obj ms))

def compareEqual (jsonValue targetValue : Json) : Except PruneError Bool :=
  if kind jsonValue = .null ∨ kind targetValue = .null then
    .ok (kind jsonValue = .null ∧ kind targetValue = .null)
  else
    match jsonValue, targetValue with
    | .bool b, .bool c => .ok (b = c)
    | .num l, .num m => .ok (nums.value l = nums.value m)
    | j, t =>
        if kind j ≠ kind t then .error .differentTypes else .ok (text nums j = text nums t)

def compareNumeric (jsonValue targetValue : Json) (compare : ℚ → ℚ → Bool) :
    Except PruneError Bool :=
  match jsonValue, targetValue with
  | .num l, .num m => .ok (compare (nums.value l) (nums.value m))
  | _, _ => .error .notNumeric

def compareGjsonValues (jsonValue targetValue : Json) (mode : String) : Except PruneError Bool :=
  if mode = "full" then compareEqual nums jsonValue targetValue
  else if mode = "prefix" then .ok (Text.hasPrefix (text nums jsonValue) (text nums targetValue))
  else if mode = "suffix" then .ok (Text.hasSuffix (text nums jsonValue) (text nums targetValue))
  else if mode = "contains" then .ok (Text.contains (text nums jsonValue) (text nums targetValue))
  else if mode = "gt" then compareNumeric nums jsonValue targetValue fun j t => t < j
  else if mode = "gte" then compareNumeric nums jsonValue targetValue fun j t => t ≤ j
  else if mode = "lt" then compareNumeric nums jsonValue targetValue fun j t => j < t
  else if mode = "lte" then compareNumeric nums jsonValue targetValue fun j t => j ≤ t
  else .error (.unsupportedMode mode)

/-- The value that a condition is about: what is missing is looked up in the context. -/
def conditionValue (doc : Json) (context : Option Json) (condition : ConditionOperation) :
    Option Json :=
  let path := NegativeIndex.processNegativeIndex doc condition.path
  (get doc (segments path)).or (context.bind (get · (segments condition.path)))

def checkSingleCondition (doc : Json) (context : Option Json) (condition : ConditionOperation) :
    Except PruneError Bool := do
  match conditionValue doc context condition with
  | none => return condition.passMissingKey
  | some value =>
      let result ← compareGjsonValues nums value (decode nums condition.value)
        (Text.toLower condition.mode)
      return if condition.invert then !result else result

def checkConditions (doc : Json) (context : Option Json) (conditions : List ConditionOperation)
    (logic : String) : Except PruneError Bool := do
  if conditions = [] then return true
  else
    let results ← conditions.mapM (checkSingleCondition nums doc context)
    return if Wildcard.toUpper logic = "AND" then results.all id else results.any id

/-! ## Options -/

structure PruneObjectsOptions where
  conditions : List ConditionOperation
  logic : String
  recursive : Bool

def stringField (ms : List (String × Json)) (key : String) : String :=
  match member ms key with
  | some (.str s) => s
  | _ => ""

def boolField (ms : List (String × Json)) (key : String) : Option Bool :=
  match member ms key with
  | some (.bool b) => some b
  | _ => none

/-- Conditions that fields have values, without those of a blank name. -/
def fieldConditions (ms : List (String × Json)) : List ConditionOperation :=
  ms.filterMap fun m =>
    let path := Text.trimSpace m.1
    if path = "" then none else some (.full path m.2)

def parseCondition : Json → Except PruneError ConditionOperation
  | .obj item =>
      let path := stringField item "path"
      let mode := stringField item "mode"
      if Text.trimSpace path = "" ∨ Text.trimSpace mode = "" then .error .conditionPathMode
      else .ok {
        path := path
        mode := mode
        value := (member item "value").getD .null
        invert := (boolField item "invert").getD false
        passMissingKey := (boolField item "pass_missing_key").getD false }
  | _ => .error .conditionNotObject

def parseConditionOperations : Json → Except PruneError (List ConditionOperation)
  | .obj ms =>
      if fieldConditions ms = [] then .error .conditionsEmpty else .ok (fieldConditions ms)
  | .arr items => items.mapM parseCondition
  | _ => .error .conditionsType

/-- The conditions of `where`. -/
def parseWhere : Json → Except PruneError (List ConditionOperation)
  | .obj ms => .ok (fieldConditions ms)
  | _ => .error .whereNotObject

def parsePruneObjectsOptions (value : Json) : Except PruneError PruneObjectsOptions :=
  match value with
  | .null => .error .valueRequired
  | .str raw =>
      let v := Text.trimSpace raw
      if v = "" then .error .valueRequired else .ok ⟨[.full "type" (.str v)], "AND", true⟩
  | .obj raw => do
      let logic := stringField raw "logic"
      let listed ← ((member raw "conditions").map parseConditionOperations).getD (.ok [])
      let wheres ← ((member raw "where").map parseWhere).getD (.ok [])
      let types := (member raw "type").toList.map (ConditionOperation.full "type")
      let conditions := listed ++ wheres ++ types
      if conditions = [] then .error .conditionsRequired
      else return {
        conditions := conditions
        logic := if Text.trimSpace logic = "" then "AND" else logic
        recursive := (boolField raw "recursive").getD true }
  | _ => .error .valueType

/-! ## Pruning -/

section

variable (shouldPruneObject : List (String × Json) → Except PruneError Bool) (recursive : Bool)

mutual

/-- `pruneObjectsNode`, with no value for an object that is dropped. -/
def pruneObjectsNode : Json → Bool → Except PruneError (Option Json)
  | .arr items, _ => do
      return some (.arr (← pruneItems items))
  | .obj ms, isRoot => do
      let shouldDrop ← shouldPruneObject ms
      if shouldDrop && !isRoot then return none
      else if !recursive then return some (.obj ms)
      else return some (.obj (← pruneMembers ms))
  | j, _ => .ok (some j)
termination_by structural j => j

def pruneItems : List Json → Except PruneError (List Json)
  | [] => .ok []
  | item :: items => do
      let next ← pruneObjectsNode item false
      let rest ← pruneItems items
      return next.toList ++ rest
termination_by structural items => items

def pruneMembers : List (String × Json) → Except PruneError (List (String × Json))
  | [] => .ok []
  | m :: ms => do
      let next ← pruneMember m
      let rest ← pruneMembers ms
      return next.toList ++ rest
termination_by structural ms => ms

def pruneMember : String × Json → Except PruneError (Option (String × Json))
  | (key, child) => do
      let next ← pruneObjectsNode child false
      return next.map fun v => (key, v)
termination_by structural m => m

end

end

def shouldPruneObject (context : Option Json) (options : PruneObjectsOptions)
    (node : List (String × Json)) : Except PruneError Bool :=
  checkConditions nums (.obj node) context options.conditions options.logic

/-- The part of the document at a path; the empty path is the document. -/
def target (doc : Json) (path : String) : Option Json :=
  if path = "" then some doc else get doc (segments path)

def setTarget (doc : Json) (path : String) (v : Json) : Except PruneError Json :=
  if path = "" then .ok v
  else
    match set doc (segments path) v with
    | some doc' => .ok doc'
    | none => .error .setRaw

def pruneObjects (doc : Json) (path : String) (context : Option Json) (value : Json) :
    Except PruneError Json := do
  let options ← parsePruneObjectsOptions value
  match target doc path with
  | none => return doc
  | some node =>
      let cleaned ← pruneObjectsNode (shouldPruneObject nums context options) options.recursive
        (decode nums node) true
      setTarget doc path (cleaned.getD .null)

end

/-! ## What is removed -/

section

variable (test : List (String × Json) → Except PruneError Bool) (recursive : Bool)

/-- An object that meets the conditions. -/
def meets : Json → Bool
  | .obj ms =>
      match test ms with
      | .ok b => b
      | .error _ => false
  | _ => false

/-- The same without the objects that meet the conditions, in the same order. -/
inductive Pruned : Json → Json → Prop
  | scalar {j : Json} (h : isContainer j = false) : Pruned j j
  | arr {items items' : List Json}
      (h : List.Forall₂ Pruned (items.filter fun item => !meets test item) items') :
      Pruned (.arr items) (.arr items')
  | whole {ms : List (String × Json)} (h : recursive = false) : Pruned (.obj ms) (.obj ms)
  | obj {ms ms' : List (String × Json)} (hrec : recursive = true)
      (hkeys : ms'.map Prod.fst = (ms.filter fun m => !meets test m.2).map Prod.fst)
      (h : List.Forall₂ Pruned ((ms.filter fun m => !meets test m.2).map Prod.snd)
        (ms'.map Prod.snd)) :
      Pruned (.obj ms) (.obj ms')

/-- The objects of which the conditions are checked, each with whether it is the root. -/
inductive Visited : Bool → Json → Bool → List (String × Json) → Prop
  | self (isRoot : Bool) (ms : List (String × Json)) : Visited isRoot (.obj ms) isRoot ms
  | item {isRoot atRoot : Bool} {items : List Json} {item : Json} {o : List (String × Json)}
      (hmem : item ∈ items) (h : Visited false item atRoot o) :
      Visited isRoot (.arr items) atRoot o
  | member {isRoot atRoot : Bool} {ms : List (String × Json)} {m : String × Json}
      {o : List (String × Json)} (hrec : recursive = true)
      (hstays : isRoot = true ∨ meets test (.obj ms) = false) (hmem : m ∈ ms)
      (h : Visited false m.2 atRoot o) : Visited isRoot (.obj ms) atRoot o

/-- An object is dropped, or pruned. -/
inductive Pruning (isRoot : Bool) (j : Json) : Option Json → Prop
  | dropped (hroot : isRoot = false) (h : meets test j = true) : Pruning isRoot j none
  | pruned {j' : Json} (hstays : isRoot = true ∨ meets test j = false)
      (h : Pruned test recursive j j') : Pruning isRoot j (some j')

end

/-! ## One pass -/

section

variable {test : List (String × Json) → Except PruneError Bool} {recursive isRoot atRoot : Bool}
  {j j' : Json} {items items' : List Json} {ms ms' o : List (String × Json)} {r : Option Json}

theorem pruneObjectsNode_scalar (h : isContainer j = false) :
    pruneObjectsNode test recursive j isRoot = .ok (some j) := by
  cases j with
  | arr items => cases h
  | obj ms => cases h
  | _ => rfl

theorem pruneItems_ok_iff : (∃ rs, pruneItems test recursive items = .ok rs) ↔
    ∀ item ∈ items, ∃ r, pruneObjectsNode test recursive item false = .ok r := by
  induction items with
  | nil => exact iff_of_true ⟨[], rfl⟩ fun _ h => absurd h List.not_mem_nil
  | cons item items ih =>
      rw [List.forall_mem_cons, ← ih, pruneItems]
      cases pruneObjectsNode test recursive item false with
      | error e => exact iff_of_false (Failing.not_exists_ok e) fun h => Failing.not_exists_ok e h.1
      | ok r =>
          cases pruneItems test recursive items with
          | error e => exact iff_of_false (Failing.not_exists_ok e) fun h => Failing.not_exists_ok e h.2
          | ok rs => exact iff_of_true ⟨_, rfl⟩ ⟨⟨r, rfl⟩, rs, rfl⟩

theorem pruneMembers_ok_iff : (∃ rs, pruneMembers test recursive ms = .ok rs) ↔
    ∀ m ∈ ms, ∃ r, pruneObjectsNode test recursive m.2 false = .ok r := by
  induction ms with
  | nil => exact iff_of_true ⟨[], rfl⟩ fun _ h => absurd h List.not_mem_nil
  | cons m ms ih =>
      rw [List.forall_mem_cons, ← ih, pruneMembers, pruneMember]
      cases pruneObjectsNode test recursive m.2 false with
      | error e => exact iff_of_false (Failing.not_exists_ok e) fun h => Failing.not_exists_ok e h.1
      | ok r =>
          cases pruneMembers test recursive ms with
          | error e => exact iff_of_false (Failing.not_exists_ok e) fun h => Failing.not_exists_ok e h.2
          | ok rs => exact iff_of_true ⟨_, rfl⟩ ⟨⟨r, rfl⟩, rs, rfl⟩

/-- The pass fails exactly if the conditions of an object that is visited do. -/
theorem pruneObjectsNode_ok_iff (j : Json) : ∀ isRoot : Bool,
    (∃ r, pruneObjectsNode test recursive j isRoot = .ok r) ↔
      ∀ atRoot o, Visited test recursive isRoot j atRoot o → ∃ b, test o = .ok b := by
  induction j using JsonDecode.induction with
  | scalar j hj =>
      intro isRoot
      refine iff_of_true ⟨_, pruneObjectsNode_scalar hj⟩ ?_
      rintro atRoot o (_ | ⟨_, _⟩ | ⟨_, _, _, _⟩) <;> cases hj
  | arr items ih =>
      intro isRoot
      have hitems : (∃ r, pruneObjectsNode test recursive (.arr items) isRoot = .ok r) ↔
          ∃ rs, pruneItems test recursive items = .ok rs := by
        rw [pruneObjectsNode]
        cases pruneItems test recursive items with
        | error e => exact iff_of_false (Failing.not_exists_ok e) (Failing.not_exists_ok e)
        | ok rs => exact iff_of_true ⟨_, rfl⟩ ⟨_, rfl⟩
      rw [hitems, pruneItems_ok_iff]
      constructor
      · rintro h atRoot o (_ | ⟨hmem, hvisited⟩ | _)
        exact (ih _ hmem false).1 (h _ hmem) atRoot o hvisited
      · intro h item hitem
        exact (ih item hitem false).2 fun atRoot o hvisited => h atRoot o (.item hitem hvisited)
  | obj ms ih =>
      intro isRoot
      rw [pruneObjectsNode]
      cases htest : test ms with
      | error e =>
          refine iff_of_false (Failing.not_exists_ok e) fun h => ?_
          obtain ⟨b, hb⟩ := h isRoot ms (.self isRoot ms)
          rw [htest] at hb
          cases hb
      | ok b =>
          have hmeets : meets test (.obj ms) = b := by rw [meets, htest]
          have hself {p : Bool → List (String × Json) → Prop} (hp : p isRoot ms)
              (hinner : recursive = true → isRoot = true ∨ b = false → ∀ m ∈ ms, ∀ atRoot o,
                Visited test recursive false m.2 atRoot o → p atRoot o) :
              ∀ atRoot o, Visited test recursive isRoot (.obj ms) atRoot o → p atRoot o := by
            rintro atRoot o (_ | _ | ⟨hrec, hstays, hmem, hvisited⟩)
            · exact hp
            · exact hinner hrec (hmeets ▸ hstays) _ hmem atRoot o hvisited
          by_cases hdrop : (b && !isRoot) = true
          · refine iff_of_true ⟨none, by simp only [bind, Except.bind, if_pos hdrop]; rfl⟩ ?_
            refine hself ⟨b, htest⟩ fun _ hstays => ?_
            rcases hstays with rfl | rfl <;> simp at hdrop
          · have hstays : isRoot = true ∨ b = false := by
              cases b with
              | false => exact Or.inr rfl
              | true => exact Or.inl (by simpa using hdrop)
            cases hrec : recursive with
            | false =>
                refine iff_of_true ⟨some (.obj ms), ?_⟩ ?_
                · simp only [bind, Except.bind, if_neg hdrop]
                  rfl
                · rw [← hrec]
                  exact hself ⟨b, htest⟩ fun hrec' => absurd hrec' (by rw [hrec]; decide)
            | true =>
                subst hrec
                have hmembers : (∃ r, (do
                      let shouldDrop ← Except.ok (ε := PruneError) b
                      if shouldDrop && !isRoot then return none
                      else if !true then return some (.obj ms)
                      else return some (.obj (← pruneMembers test true ms)) :
                        Except PruneError (Option Json)) = .ok r) ↔
                    ∃ rs, pruneMembers test true ms = .ok rs := by
                  simp only [bind, Except.bind, if_neg hdrop]
                  cases pruneMembers test true ms with
                  | error e => exact iff_of_false (Failing.not_exists_ok e) (Failing.not_exists_ok e)
                  | ok rs => exact iff_of_true ⟨_, rfl⟩ ⟨_, rfl⟩
                refine hmembers.trans (pruneMembers_ok_iff.trans ⟨fun h => ?_, fun h m hm => ?_⟩)
                · exact hself ⟨b, htest⟩ fun _ _ m hm => (ih m hm false).1 (h m hm)
                · exact (ih m hm false).2 fun atRoot o hvisited =>
                    h atRoot o (.member rfl (hmeets ▸ hstays) hm hvisited)

theorem pruneItems_pruned (hitems : ∀ item ∈ items, ∀ r,
      pruneObjectsNode test recursive item false = .ok r → Pruning test recursive false item r)
    (h : pruneItems test recursive items = .ok items') :
    List.Forall₂ (Pruned test recursive) (items.filter fun item => !meets test item) items' := by
  induction items generalizing items' with
  | nil =>
      cases h
      exact .nil
  | cons item items ih =>
      obtain ⟨hitem, hitems⟩ := List.forall_mem_cons.1 hitems
      rw [pruneItems] at h
      cases hnext : pruneObjectsNode test recursive item false with
      | error e => rw [hnext] at h; cases h
      | ok r =>
          rw [hnext] at h
          cases hrest : pruneItems test recursive items with
          | error e => rw [hrest] at h; cases h
          | ok rs =>
              rw [hrest] at h
              cases h
              cases hitem r hnext with
              | dropped _ hmeets =>
                  rw [List.filter_cons_of_neg (by rw [hmeets]; decide)]
                  exact ih hitems hrest
              | pruned hstays hpruned =>
                  have hmeets := hstays.resolve_left (by decide)
                  rw [List.filter_cons_of_pos (by rw [hmeets]; rfl)]
                  exact .cons hpruned (ih hitems hrest)

theorem pruneMembers_pruned (hms : ∀ m ∈ ms, ∀ r,
      pruneObjectsNode test recursive m.2 false = .ok r → Pruning test recursive false m.2 r)
    (h : pruneMembers test recursive ms = .ok ms') :
    ms'.map Prod.fst = (ms.filter fun m => !meets test m.2).map Prod.fst ∧
      List.Forall₂ (Pruned test recursive) ((ms.filter fun m => !meets test m.2).map Prod.snd)
        (ms'.map Prod.snd) := by
  induction ms generalizing ms' with
  | nil =>
      cases h
      exact ⟨rfl, .nil⟩
  | cons m ms ih =>
      obtain ⟨hm, hms⟩ := List.forall_mem_cons.1 hms
      rw [pruneMembers, pruneMember] at h
      cases hnext : pruneObjectsNode test recursive m.2 false with
      | error e => rw [hnext] at h; cases h
      | ok r =>
          rw [hnext] at h
          cases hrest : pruneMembers test recursive ms with
          | error e => rw [hrest] at h; cases h
          | ok rs =>
              rw [hrest] at h
              cases h
              obtain ⟨hkeys, hvalues⟩ := ih hms hrest
              cases hm r hnext with
              | dropped _ hmeets =>
                  rw [List.filter_cons_of_neg (by rw [hmeets]; decide)]
                  exact ⟨hkeys, hvalues⟩
              | pruned hstays hpruned =>
                  have hmeets := hstays.resolve_left (by decide)
                  rw [List.filter_cons_of_pos (by rw [hmeets]; rfl)]
                  exact ⟨congrArg (m.1 :: ·) hkeys, .cons hpruned hvalues⟩

/-- What a pass leaves. -/
theorem pruneObjectsNode_pruning (j : Json) : ∀ (isRoot : Bool) (r : Option Json),
    pruneObjectsNode test recursive j isRoot = .ok r → Pruning test recursive isRoot j r := by
  induction j using JsonDecode.induction with
  | scalar j hj =>
      intro isRoot r h
      rw [pruneObjectsNode_scalar hj] at h
      cases h
      refine .pruned (Or.inr ?_) (.scalar hj)
      cases j with
      | obj ms => cases hj
      | _ => rfl
  | arr items ih =>
      intro isRoot r h
      rw [pruneObjectsNode] at h
      cases hitems : pruneItems test recursive items with
      | error e => rw [hitems] at h; cases h
      | ok items' =>
          rw [hitems] at h
          cases h
          exact .pruned (Or.inr rfl)
            (.arr (pruneItems_pruned (fun item hitem => ih item hitem false) hitems))
  | obj ms ih =>
      intro isRoot r h
      rw [pruneObjectsNode] at h
      cases htest : test ms with
      | error e => rw [htest] at h; cases h
      | ok b =>
          rw [htest] at h
          simp only [bind, Except.bind] at h
          have hmeets : meets test (.obj ms) = b := by rw [meets, htest]
          split at h
          next hdrop =>
            cases h
            rw [Bool.and_eq_true, Bool.not_eq_true'] at hdrop
            exact .dropped hdrop.2 (hmeets.trans hdrop.1)
          next hdrop =>
            have hstays : isRoot = true ∨ meets test (.obj ms) = false := by
              rw [hmeets]
              cases b with
              | false => exact Or.inr rfl
              | true => exact Or.inl (by simpa using hdrop)
            split at h
            next hrec =>
              cases h
              exact .pruned hstays (.whole (by simpa using hrec))
            next hrec =>
              cases hmembers : pruneMembers test recursive ms with
              | error e => rw [hmembers] at h; cases h
              | ok ms' =>
                  rw [hmembers] at h
                  cases h
                  obtain ⟨hkeys, hvalues⟩ :=
                    pruneMembers_pruned (fun m hm => ih m hm false) hmembers
                  exact .pruned hstays (.obj (by simpa using hrec) hkeys hvalues)

/-! ## Twice -/

/-- Every object that is visited can be checked, and none but the root meets the conditions. -/
def Settled (test : List (String × Json) → Except PruneError Bool) (recursive isRoot : Bool)
    (j : Json) : Prop :=
  ∀ atRoot o, Visited test recursive isRoot j atRoot o →
    ∃ b, test o = .ok b ∧ (b = true → atRoot = true)

theorem meets_of_settled (h : Settled test recursive false j) : meets test j = false := by
  cases j with
  | obj ms =>
      obtain ⟨b, hb, hroot⟩ := h false ms (.self false ms)
      rw [meets, hb]
      cases b with
      | false => rfl
      | true => exact absurd (hroot rfl) (by decide)
  | _ => rfl

theorem eq_of_map_fst_snd {α β : Type} {l l' : List (α × β)}
    (hfst : l'.map Prod.fst = l.map Prod.fst) (hsnd : l'.map Prod.snd = l.map Prod.snd) :
    l' = l := by
  have hzip (l : List (α × β)) : (l.map Prod.fst).zip (l.map Prod.snd) = l := by
    rw [← List.unzip_fst, ← List.unzip_snd, List.zip_unzip]
  rw [← hzip l', hfst, hsnd, hzip l]

/-- Where nothing is removed, nothing changes. -/
theorem eq_of_settled (j : Json) : ∀ (isRoot : Bool) (j' : Json),
    Settled test recursive isRoot j → Pruned test recursive j j' → j' = j := by
  induction j using JsonDecode.induction with
  | scalar j hj =>
      rintro isRoot j' - (_ | _ | _ | _)
      · rfl
      all_goals cases hj
  | arr items ih =>
      rintro isRoot j' hsettled (_ | h | _ | _)
      · rfl
      · have hitem {item : Json} (hitem : item ∈ items) : Settled test recursive false item :=
          fun atRoot o hvisited => hsettled atRoot o (.item hitem hvisited)
        rw [List.filter_eq_self.2 fun item h => by rw [meets_of_settled (hitem h)]; rfl] at h
        rw [Pieces.eq_of_forall₂ h fun item hmem item' => ih item hmem false item' (hitem hmem)]
  | obj ms ih =>
      rintro isRoot j' hsettled (_ | _ | _ | ⟨hrec, hkeys, hvalues⟩)
      · rfl
      · rfl
      · have hstays : isRoot = true ∨ meets test (.obj ms) = false := by
          obtain ⟨b, hb, hroot⟩ := hsettled isRoot ms (.self isRoot ms)
          rw [meets, hb]
          cases b with
          | false => exact Or.inr rfl
          | true => exact Or.inl (hroot rfl)
        have hmember {m : String × Json} (hm : m ∈ ms) : Settled test recursive false m.2 :=
          fun atRoot o hvisited => hsettled atRoot o (.member hrec hstays hm hvisited)
        rw [List.filter_eq_self.2 fun m h => by rw [meets_of_settled (hmember h)]; rfl]
          at hkeys hvalues
        have hsnd := Pieces.eq_of_forall₂ hvalues fun v hv v' h => by
          obtain ⟨m, hm, rfl⟩ := List.mem_map.1 hv
          exact ih m hm false v' (hmember hm) h
        rw [eq_of_map_fst_snd hkeys hsnd]

/-- A pass that changes nothing has removed nothing. -/
theorem settled_of_eq (j : Json) : ∀ isRoot : Bool,
    (∀ atRoot o, Visited test recursive isRoot j atRoot o → ∃ b, test o = .ok b) →
      Pruned test recursive j j → (isRoot = true ∨ meets test j = false) →
        Settled test recursive isRoot j := by
  induction j using JsonDecode.induction with
  | scalar j hj =>
      intro isRoot hok hpruned hstays atRoot o hvisited
      cases hvisited <;> cases hj
  | arr items ih =>
      rintro isRoot hok (hj | h | _ | _) hstays atRoot o (_ | ⟨hmem, hvisited⟩ | _)
      · cases hj
      · have hlength := h.length_eq
        rw [List.length_filter_eq_length_iff] at hlength
        rw [List.filter_eq_self.2 hlength, List.forall₂_same] at h
        refine ih _ hmem false (fun atRoot o hvisited => hok atRoot o (.item hmem hvisited))
          (h _ hmem) (Or.inr ?_) atRoot o hvisited
        simpa using hlength _ hmem
  | obj ms ih =>
      rintro isRoot hok hpruned hstays atRoot o (_ | _ | ⟨hrec, -, hmem, hvisited⟩)
      · obtain ⟨b, hb⟩ := hok isRoot ms (.self isRoot ms)
        refine ⟨b, hb, fun htrue => hstays.resolve_right ?_⟩
        rw [meets, hb, htrue]
        decide
      · cases hpruned with
        | scalar hj => cases hj
        | whole hrec' => rw [hrec] at hrec'; cases hrec'
        | obj _ hkeys hvalues =>
            have hlength := hvalues.length_eq
            rw [List.length_map, List.length_map, List.length_filter_eq_length_iff] at hlength
            rw [List.filter_eq_self.2 hlength, List.forall₂_same] at hvalues
            refine ih _ hmem false
              (fun atRoot o hvisited => hok atRoot o (.member hrec hstays hmem hvisited))
              (hvalues _ (List.mem_map_of_mem hmem)) (Or.inr ?_) atRoot o hvisited
            simpa using hlength _ hmem

/-- A pass leaves a value as it is exactly if nothing is to be removed. -/
theorem pruneObjectsNode_self_iff (j : Json) (isRoot : Bool) :
    pruneObjectsNode test recursive j isRoot = .ok (some j) ↔
      Settled test recursive isRoot j := by
  constructor
  · intro h
    cases pruneObjectsNode_pruning j isRoot _ h with
    | pruned hstays hpruned =>
        exact settled_of_eq j isRoot ((pruneObjectsNode_ok_iff j isRoot).1 ⟨_, h⟩) hpruned hstays
  · intro h
    obtain ⟨r, hr⟩ := (pruneObjectsNode_ok_iff j isRoot).2 fun atRoot o hvisited =>
      (h atRoot o hvisited).imp fun _ hb => hb.1
    cases pruneObjectsNode_pruning j isRoot r hr with
    | dropped hroot hmeets =>
        rw [hroot] at h
        rw [meets_of_settled h] at hmeets
        cases hmeets
    | pruned _ hpruned => rw [hr, eq_of_settled j isRoot _ h hpruned]

/-- An object of the result is what an object that stays was pruned to. -/
theorem visited_of_pruned (hvisited : Visited test recursive isRoot j' atRoot o) :
    ∀ j, Pruned test recursive j j' → (isRoot = true ∨ meets test j = false) →
      ∃ o', Visited test recursive isRoot j atRoot o' ∧
        (atRoot = true ∨ meets test (.obj o') = false) ∧
        Pruned test recursive (.obj o') (.obj o) := by
  induction hvisited with
  | self isRoot ms =>
      intro j hpruned hstays
      cases hpruned with
      | scalar hj => cases hj
      | whole hrec => exact ⟨ms, .self isRoot ms, hstays, .whole hrec⟩
      | @obj ms' _ hrec hkeys hvalues =>
          exact ⟨ms', .self isRoot ms', hstays, .obj hrec hkeys hvalues⟩
  | item hmem _ ih =>
      intro j hpruned hstays
      cases hpruned with
      | scalar hj => cases hj
      | arr h =>
          obtain ⟨item, hitem, hpruned⟩ := Pieces.exists_of_forall₂ h hmem
          obtain ⟨hitem, hmeets⟩ := List.mem_filter.1 hitem
          obtain ⟨o', hvisited, hstays', ho'⟩ :=
            ih item hpruned (Or.inr (by simpa using hmeets))
          exact ⟨o', .item hitem hvisited, hstays', ho'⟩
  | member hrec _ hmem _ ih =>
      intro j hpruned hstays
      cases hpruned with
      | scalar hj => cases hj
      | whole hrec' => rw [hrec] at hrec'; cases hrec'
      | obj _ hkeys hvalues =>
          obtain ⟨v, hv, hpruned⟩ :=
            Pieces.exists_of_forall₂ hvalues (List.mem_map_of_mem hmem)
          obtain ⟨m, hm, rfl⟩ := List.mem_map.1 hv
          obtain ⟨hm, hmeets⟩ := List.mem_filter.1 hm
          obtain ⟨o', hvisited, hstays', ho'⟩ :=
            ih m.2 hpruned (Or.inr (by simpa using hmeets))
          exact ⟨o', .member hrec hstays hm hvisited, hstays', ho'⟩

theorem eq_of_scalar (hj : isContainer j = false) (h : Pruned test recursive j j') : j' = j := by
  cases h with
  | scalar _ => rfl
  | _ => cases hj

/-- A field that is missing stays missing. -/
theorem member_none_of_pruned {key : String} (hpruned : Pruned test recursive (.obj ms) (.obj ms'))
    (h : member ms key = none) : member ms' key = none := by
  cases hpruned with
  | scalar hj => cases hj
  | whole _ => exact h
  | obj _ hkeys _ =>
      rw [member_eq_none_iff] at h ⊢
      rw [hkeys]
      exact fun hmem => h ((List.filter_sublist.map Prod.fst).subset hmem)

/-- A field that holds no container keeps its value. -/
theorem member_scalar_of_pruned {key : String} {c : Json}
    (hpruned : Pruned test recursive (.obj ms) (.obj ms')) (h : member ms key = some c)
    (hc : isContainer c = false) : member ms' key = some c := by
  cases hpruned with
  | scalar hj => cases hj
  | whole _ => exact h
  | obj _ hkeys hvalues =>
      induction ms generalizing ms' with
      | nil => cases h
      | cons m ms ih =>
          rw [member_cons] at h
          cases hmeets : meets test m.2 with
          | true =>
              rw [List.filter_cons_of_neg (by rw [hmeets]; decide)] at hkeys hvalues
              refine ih ?_ hkeys hvalues
              split at h
              · cases h
                cases hm : m.2 with
                | obj _ => rw [hm] at hc; cases hc
                | _ => rw [hm] at hmeets; cases hmeets
              · exact h
          | false =>
              rw [List.filter_cons_of_pos (by rw [hmeets]; rfl)] at hkeys hvalues
              cases ms' with
              | nil => cases hkeys
              | cons m' ms' =>
                  rw [List.map_cons, List.map_cons] at hkeys hvalues
                  obtain ⟨hkey, hkeys⟩ := List.cons.inj hkeys
                  obtain ⟨hvalue, hvalues⟩ := List.forall₂_cons.1 hvalues
                  rw [member_cons, hkey]
                  split at h
                  next heq =>
                    cases h
                    rw [if_pos heq, eq_of_scalar hc hvalue]
                  next hne =>
                    rw [if_neg hne]
                    exact ih h hkeys hvalues

end


/-! ## Encoded again -/

section

variable {nums : Numbers}

/-- What is pruned is as it is encoded. -/
theorem canonical_of_pruned {test : List (String × Json) → Except PruneError Bool}
    {recursive : Bool} {j : Json} (hj : Canonical nums j) :
    ∀ j', Pruned test recursive j j' → Canonical nums j' := by
  induction hj with
  | @arr items hitems ih =>
      intro j' h
      cases h with
      | scalar h => cases h
      | arr h =>
          refine .arr fun item' hitem' => ?_
          obtain ⟨item, hitem, hpruned⟩ := Pieces.exists_of_forall₂ h hitem'
          exact ih item (List.mem_filter.1 hitem).1 item' hpruned
  | @obj ms hkeys hms ih =>
      intro j' h
      cases h with
      | scalar h => cases h
      | whole _ => exact .obj hkeys hms
      | obj _ hkeys' hvalues =>
          refine .obj ?_ fun m' hm' => ?_
          · rw [hkeys']
            exact hkeys.sublist (List.filter_sublist.map _)
          · obtain ⟨v, hv, hpruned⟩ := Pieces.exists_of_forall₂ hvalues (List.mem_map_of_mem hm')
            obtain ⟨m, hm, rfl⟩ := List.mem_map.1 hv
            exact ih m (List.mem_filter.1 hm).1 m'.2 hpruned
  | _ =>
      intro j' h
      rw [eq_of_scalar rfl h]
      constructor <;> assumption

end

/-! ## Conditions of an object -/

section

variable {nums : Numbers} {doc : Json} {context : Option Json} {condition : ConditionOperation}
  {conditions : List ConditionOperation} {logic path : String} {value v : Json}
  {options : PruneObjectsOptions}

/-- The value that a condition is about cannot be compared as it says. -/
def Incomparable (nums : Numbers) (doc : Json) (context : Option Json)
    (condition : ConditionOperation) : Prop :=
  ∃ value err, conditionValue doc context condition = some value ∧
    compareGjsonValues nums value (decode nums condition.value) (Text.toLower condition.mode) =
      .error err

/-- The value that a condition is about is as it says. -/
def Holds (nums : Numbers) (doc : Json) (context : Option Json) (condition : ConditionOperation) :
    Prop :=
  match conditionValue doc context condition with
  | none => condition.passMissingKey = true
  | some value => ∃ b, compareGjsonValues nums value (decode nums condition.value)
      (Text.toLower condition.mode) = .ok b ∧ b ≠ condition.invert

theorem checkSingleCondition_error_iff :
    (∃ err, checkSingleCondition nums doc context condition = .error err) ↔
      Incomparable nums doc context condition := by
  rw [checkSingleCondition, Incomparable]
  cases conditionValue doc context condition with
  | none => simp [pure, Except.pure]
  | some value =>
      simp only [bind, Except.bind, Option.some.injEq, exists_and_left, exists_eq_left']
      cases compareGjsonValues nums value (decode nums condition.value)
          (Text.toLower condition.mode) with
      | error err => exact iff_of_true ⟨_, rfl⟩ ⟨_, rfl⟩
      | ok b => simp [pure, Except.pure]

theorem checkSingleCondition_ok {b : Bool}
    (h : checkSingleCondition nums doc context condition = .ok b) :
    b = true ↔ Holds nums doc context condition := by
  rw [checkSingleCondition] at h
  rw [Holds]
  cases hvalue : conditionValue doc context condition with
  | none =>
      rw [hvalue] at h
      cases h
      exact Iff.rfl
  | some value =>
      rw [hvalue] at h
      simp only [bind, Except.bind] at h
      cases hcompare : compareGjsonValues nums value (decode nums condition.value)
          (Text.toLower condition.mode) with
      | error err => rw [hcompare] at h; cases h
      | ok c =>
          rw [hcompare] at h
          cases h
          simp only [hcompare, Except.ok.injEq, exists_eq_left']
          cases condition.invert <;> cases c <;> decide

/-- What a condition gives, if it can be checked. -/
def resultOf (nums : Numbers) (doc : Json) (context : Option Json)
    (condition : ConditionOperation) : Bool :=
  match checkSingleCondition nums doc context condition with
  | .ok b => b
  | .error _ => false

theorem checkSingleCondition_eq_ok (h : ¬ Incomparable nums doc context condition) :
    checkSingleCondition nums doc context condition =
      .ok (resultOf nums doc context condition) := by
  rw [resultOf]
  cases hcheck : checkSingleCondition nums doc context condition with
  | ok b => rfl
  | error err => exact absurd (checkSingleCondition_error_iff.1 ⟨err, hcheck⟩) h

theorem checkConditions_error
    (h : ∃ condition ∈ conditions, Incomparable nums doc context condition) :
    ∃ err, checkConditions nums doc context conditions logic = .error err := by
  obtain ⟨condition, hmem, hbad⟩ := h
  obtain ⟨err, herr⟩ := checkSingleCondition_error_iff.2 hbad
  obtain ⟨err', herr'⟩ := Failing.mapM_error ⟨condition, hmem, err, herr⟩
  refine ⟨err', ?_⟩
  rw [checkConditions, if_neg (List.ne_nil_of_mem hmem), herr']
  rfl

theorem checkConditions_ok (hne : conditions ≠ [])
    (h : ∀ condition ∈ conditions, ¬ Incomparable nums doc context condition) :
    checkConditions nums doc context conditions logic =
      .ok (if Wildcard.toUpper logic = "AND" then
          (conditions.map (resultOf nums doc context)).all id
        else (conditions.map (resultOf nums doc context)).any id) := by
  rw [checkConditions, if_neg hne,
    Failing.mapM_ok fun condition hmem => checkSingleCondition_eq_ok (h condition hmem)]
  rfl

theorem checkConditions_ok_iff (hne : conditions ≠ []) :
    (∃ b, checkConditions nums doc context conditions logic = .ok b) ↔
      ∀ condition ∈ conditions, ¬ Incomparable nums doc context condition := by
  constructor
  · rintro ⟨b, hb⟩ condition hmem hbad
    obtain ⟨err, herr⟩ :=
      @checkConditions_error nums doc context conditions logic ⟨condition, hmem, hbad⟩
    rw [hb] at herr
    cases herr
  · exact fun h => ⟨_, checkConditions_ok hne h⟩

theorem conditions_ne_nil (h : parsePruneObjectsOptions value = .ok options) :
    options.conditions ≠ [] := by
  cases value with
  | str raw =>
      rw [parsePruneObjectsOptions] at h
      split at h
      · cases h
      · cases h
        exact List.cons_ne_nil _ _
  | obj raw =>
      simp only [parsePruneObjectsOptions, bind, Except.bind] at h
      split at h
      · cases h
      · split at h
        · cases h
        · split at h
          · cases h
          next hne =>
            cases h
            exact hne
  | _ => cases h

/-- A condition that a field has a value that is no container. -/
structure Plain (nums : Numbers) (condition : ConditionOperation) : Prop where
  field : '.' ∉ condition.path.toList
  mode : Text.toLower condition.mode = "full"
  value : kind (decode nums condition.value) ≠ .null ∧ kind (decode nums condition.value) ≠ .json

theorem processNegativeIndex_of_not_dot (h : '.' ∉ path.toList) :
    NegativeIndex.processNegativeIndex doc path = path := by
  have hnone : NegativeIndex.findNegative path.toList = [] := by
    have happend := NegativeIndex.findNegative_append (m := []) h
    rwa [List.append_nil] at happend
  rw [NegativeIndex.processNegativeIndex, hnone, List.foldl_nil, String.ofList_toList]

theorem get_of_not_dot {ms : List (String × Json)} (h : '.' ∉ path.toList) :
    get (.obj ms) (segments path) = member ms path := by
  have hsegments : segments path = [path] := by
    have hjoin := segments_join (p := [path]) (List.cons_ne_nil _ _)
      (fun s hs => List.mem_singleton.1 hs ▸ h)
    rwa [show Text.join [path] '.' = path by simp [Text.join]] at hjoin
  rw [hsegments, get_cons, child]
  cases member ms path <;> rfl

/-- What can be compared with a value that is no container is none itself. -/
theorem isContainer_of_compareEqual {b : Bool} (h : compareEqual nums v value = .ok b)
    (hvalue : kind value ≠ .null ∧ kind value ≠ .json) : isContainer v = false := by
  cases hv : isContainer v with
  | false => rfl
  | true =>
      have hkind : kind v = .json := by
        cases v with
        | arr _ => rfl
        | obj _ => rfl
        | _ => cases hv
      have hcompare : compareEqual nums v value = .error .differentTypes := by
        have hnull : ¬ (kind v = .null ∨ kind value = .null) := by simp [hkind, hvalue.1]
        have htypes : kind v ≠ kind value := by rw [hkind]; exact hvalue.2.symm
        cases v with
        | arr items => exact (if_neg hnull).trans (if_pos htypes)
        | obj ms => exact (if_neg hnull).trans (if_pos htypes)
        | _ => cases hv
      rw [hcompare] at h
      cases h

variable {recursive : Bool} {test : List (String × Json) → Except PruneError Bool}
  {ms ms' : List (String × Json)}

/-- Such conditions give the same for an object whose inner objects were removed. -/
theorem checkSingleCondition_pruned (hplain : Plain nums condition)
    (hok : ¬ Incomparable nums (.obj ms) context condition)
    (hpruned : Pruned test recursive (.obj ms) (.obj ms')) :
    checkSingleCondition nums (.obj ms') context condition =
      checkSingleCondition nums (.obj ms) context condition := by
  have hvalue : conditionValue (.obj ms') context condition =
      conditionValue (.obj ms) context condition := by
    rw [conditionValue, conditionValue, processNegativeIndex_of_not_dot hplain.field,
      processNegativeIndex_of_not_dot hplain.field, get_of_not_dot hplain.field,
      get_of_not_dot hplain.field]
    cases hmember : member ms condition.path with
    | none => rw [member_none_of_pruned hpruned hmember]
    | some c =>
        have hc : isContainer c = false := by
          have hfound : conditionValue (.obj ms) context condition = some c := by
            rw [conditionValue, processNegativeIndex_of_not_dot hplain.field,
              get_of_not_dot hplain.field, hmember]
            rfl
          cases hcompare : compareGjsonValues nums c (decode nums condition.value)
              (Text.toLower condition.mode) with
          | error err => exact absurd ⟨c, err, hfound, hcompare⟩ hok
          | ok b =>
              rw [compareGjsonValues, if_pos hplain.mode] at hcompare
              exact isContainer_of_compareEqual hcompare hplain.value
        rw [member_scalar_of_pruned hpruned hmember hc]
  rw [checkSingleCondition, checkSingleCondition, hvalue]

theorem shouldPruneObject_pruned (hplain : ∀ condition ∈ options.conditions, Plain nums condition)
    (hok : ∃ b, shouldPruneObject nums context options ms = .ok b)
    (hne : options.conditions ≠ []) (hpruned : Pruned test recursive (.obj ms) (.obj ms')) :
    shouldPruneObject nums context options ms' = shouldPruneObject nums context options ms := by
  have hall := (checkConditions_ok_iff hne).1 hok
  have hsame : ∀ condition ∈ options.conditions,
      checkSingleCondition nums (.obj ms') context condition =
        checkSingleCondition nums (.obj ms) context condition := fun condition hmem =>
    checkSingleCondition_pruned (hplain condition hmem) (hall condition hmem) hpruned
  have hall' : ∀ condition ∈ options.conditions,
      ¬ Incomparable nums (.obj ms') context condition := by
    intro condition hmem
    rw [← checkSingleCondition_error_iff, hsame condition hmem, checkSingleCondition_error_iff]
    exact hall condition hmem
  have hresult : ∀ condition ∈ options.conditions,
      resultOf nums (.obj ms') context condition = resultOf nums (.obj ms) context condition := by
    intro condition hmem
    rw [resultOf, resultOf, hsame condition hmem]
  rw [shouldPruneObject, shouldPruneObject, checkConditions_ok hne hall',
    checkConditions_ok hne hall, List.map_congr_left hresult]

end

/-! ## The operation -/

section

variable {nums : Numbers} {doc doc' j c : Json} {context : Option Json} {path : String}
  {value node node' : Json} {options : PruneObjectsOptions}

/-- What is there can be replaced. -/
theorem set_of_get {p : List String} (h : get j p = some c) (v : Json) :
    ∃ j', set j p v = some j' ∧ get j' p = some v := by
  induction p generalizing j with
  | nil => exact ⟨v, rfl, rfl⟩
  | cons s p ih =>
      rw [get_cons, Option.bind_eq_some_iff] at h
      obtain ⟨d, hd, hc⟩ := h
      obtain ⟨d', hset, hget⟩ := ih hc
      obtain ⟨j', hput, hchild, -⟩ := put_of_child hd d'
      refine ⟨j', by rw [set_cons_of_child hd, hset, Option.bind_some, hput], ?_⟩
      rw [get_cons, hchild, Option.bind_some, hget]

theorem setTarget_of_target (h : target doc path = some node) (v : Json) :
    ∃ doc', setTarget doc path v = .ok doc' ∧ target doc' path = some v := by
  rw [target] at h
  by_cases hpath : path = ""
  · exact ⟨v, by rw [setTarget, if_pos hpath], by rw [target, if_pos hpath]⟩
  · rw [if_neg hpath] at h
    obtain ⟨doc', hset, hget⟩ := set_of_get h v
    exact ⟨doc', by rw [setTarget, if_neg hpath, hset], by rw [target, if_neg hpath, hget]⟩

theorem setTarget_self (h : target doc path = some node) : setTarget doc path node = .ok doc := by
  rw [target] at h
  rw [setTarget]
  split at h
  next hpath =>
    rw [if_pos hpath, Option.some.inj h]
  next hpath => rw [if_neg hpath, set_self h]

/-- What pruning the part of a document at a path comes to. -/
structure Prunes (nums : Numbers) (doc : Json) (path : String) (context : Option Json)
    (value : Json) (options : PruneObjectsOptions) : Prop where
  /-- An object meets the conditions if all of them, or one of them, hold for its own fields, and
  for those of the context where it has none. -/
  meets_iff : ∀ o : List (String × Json),
    (∀ condition ∈ options.conditions, ¬ Incomparable nums (.obj o) context condition) →
      (meets (shouldPruneObject nums context options) (.obj o) = true ↔
        if Wildcard.toUpper options.logic = "AND" then
          ∀ condition ∈ options.conditions, Holds nums (.obj o) context condition
        else ∃ condition ∈ options.conditions, Holds nums (.obj o) context condition)
  /-- What is not there is not pruned. -/
  missing : target doc path = none → pruneObjects nums doc path context value = .ok doc
  /-- The operation fails exactly if an object that is visited cannot be compared. -/
  fails_iff : ∀ node, target doc path = some node →
    ((∃ err, pruneObjects nums doc path context value = .error err) ↔
      ∃ atRoot o, Visited (shouldPruneObject nums context options) options.recursive true
        (decode nums node) atRoot o ∧
          ∃ condition ∈ options.conditions, Incomparable nums (.obj o) context condition)
  /-- The part is replaced by the same without the objects that meet the conditions. -/
  removes : ∀ node doc', target doc path = some node →
    pruneObjects nums doc path context value = .ok doc' →
      ∃ node', Pruned (shouldPruneObject nums context options) options.recursive
          (decode nums node) node' ∧
        setTarget doc path node' = .ok doc' ∧ target doc' path = some node'
  /-- Pruning again changes nothing exactly if no object that is left meets the conditions. -/
  again_iff : ∀ node doc' node', target doc path = some node →
    pruneObjects nums doc path context value = .ok doc' → target doc' path = some node' →
      (pruneObjects nums doc' path context value = .ok doc' ↔
        Settled (shouldPruneObject nums context options) options.recursive true node')
  /-- So it is for conditions that fields have values that are no containers. -/
  twice : (∀ condition ∈ options.conditions, Plain nums condition) →
    ∀ doc', pruneObjects nums doc path context value = .ok doc' →
      pruneObjects nums doc' path context value = .ok doc'

theorem pruneObjects_of_target (hoptions : parsePruneObjectsOptions value = .ok options)
    (htarget : target doc path = some node) :
    pruneObjects nums doc path context value =
      (pruneObjectsNode (shouldPruneObject nums context options) options.recursive
        (decode nums node) true).bind fun cleaned => setTarget doc path (cleaned.getD .null) := by
  rw [pruneObjects, hoptions]
  simp only [bind, Except.bind, htarget]

theorem pruneObjects_missing (hoptions : parsePruneObjectsOptions value = .ok options)
    (htarget : target doc path = none) : pruneObjects nums doc path context value = .ok doc := by
  rw [pruneObjects, hoptions]
  simp only [bind, Except.bind, htarget]
  rfl

/-- The root is never dropped. -/
theorem pruned_of_ok (hoptions : parsePruneObjectsOptions value = .ok options)
    (htarget : target doc path = some node)
    (h : pruneObjects nums doc path context value = .ok doc') :
    ∃ node', pruneObjectsNode (shouldPruneObject nums context options) options.recursive
        (decode nums node) true = .ok (some node') ∧
      Pruned (shouldPruneObject nums context options) options.recursive (decode nums node) node' ∧
      setTarget doc path node' = .ok doc' ∧ target doc' path = some node' := by
  rw [pruneObjects_of_target hoptions htarget] at h
  cases hnode : pruneObjectsNode (shouldPruneObject nums context options) options.recursive
      (decode nums node) true with
  | error err => rw [hnode] at h; cases h
  | ok r =>
      rw [hnode] at h
      cases pruneObjectsNode_pruning (decode nums node) true r hnode with
      | dropped hroot => cases hroot
      | @pruned node' _ hpruned =>
          obtain ⟨doc'', hset, hget⟩ := setTarget_of_target htarget node'
          have hdoc : setTarget doc path node' = .ok doc' := h
          rw [hset] at hdoc
          cases hdoc
          exact ⟨node', rfl, hpruned, hset, hget⟩

theorem again_of_ok (hoptions : parsePruneObjectsOptions value = .ok options)
    (htarget : target doc path = some node)
    (h : pruneObjects nums doc path context value = .ok doc')
    (htarget' : target doc' path = some node') :
    pruneObjects nums doc' path context value = .ok doc' ↔
      Settled (shouldPruneObject nums context options) options.recursive true node' := by
  obtain ⟨_, -, hpruned, -, hget⟩ := pruned_of_ok hoptions htarget h
  rw [htarget'] at hget
  cases hget
  have hdecode : decode nums node' = node' :=
    decode_of_canonical (canonical_of_pruned (canonical_decode node) node' hpruned)
  rw [← pruneObjectsNode_self_iff]
  constructor
  · intro hagain
    obtain ⟨node'', hnode, -, -, hget⟩ := pruned_of_ok hoptions htarget' hagain
    rw [htarget'] at hget
    cases hget
    rwa [hdecode] at hnode
  · intro hnode
    rw [pruneObjects_of_target hoptions htarget', hdecode, hnode]
    exact setTarget_self htarget'

/-- With such conditions nothing that is left meets them. -/
theorem settled_of_plain (hoptions : parsePruneObjectsOptions value = .ok options)
    (hplain : ∀ condition ∈ options.conditions, Plain nums condition)
    (hnode : pruneObjectsNode (shouldPruneObject nums context options) options.recursive j true =
      .ok (some node'))
    (hpruned : Pruned (shouldPruneObject nums context options) options.recursive j node') :
    Settled (shouldPruneObject nums context options) options.recursive true node' := by
  intro atRoot o hvisited
  obtain ⟨o', hvisited', hstays, ho'⟩ := visited_of_pruned hvisited j hpruned (Or.inl rfl)
  obtain ⟨b, hb⟩ := (pruneObjectsNode_ok_iff j true).1 ⟨_, hnode⟩ atRoot o' hvisited'
  refine ⟨b, ?_, fun htrue => hstays.resolve_right ?_⟩
  · rw [shouldPruneObject_pruned hplain ⟨b, hb⟩ (conditions_ne_nil hoptions) ho', hb]
  · rw [meets, hb, htrue]
    decide

theorem meets_iff_holds (hne : options.conditions ≠ []) (o : List (String × Json))
    (hok : ∀ condition ∈ options.conditions, ¬ Incomparable nums (.obj o) context condition) :
    meets (shouldPruneObject nums context options) (.obj o) = true ↔
      if Wildcard.toUpper options.logic = "AND" then
        ∀ condition ∈ options.conditions, Holds nums (.obj o) context condition
      else ∃ condition ∈ options.conditions, Holds nums (.obj o) context condition := by
  have hresult : ∀ condition ∈ options.conditions,
      (resultOf nums (.obj o) context condition = true ↔
        Holds nums (.obj o) context condition) := fun condition hmem =>
    checkSingleCondition_ok (checkSingleCondition_eq_ok (hok condition hmem))
  have hcheck : shouldPruneObject nums context options o = .ok _ := checkConditions_ok hne hok
  rw [meets, hcheck]
  by_cases hlogic : Wildcard.toUpper options.logic = "AND"
  · simp only [if_pos hlogic, List.all_map, List.all_eq_true, Function.id_comp]
    exact forall₂_congr hresult
  · simp only [if_neg hlogic, List.any_map, List.any_eq_true, Function.id_comp]
    exact exists_congr fun condition => and_congr_right fun hmem => hresult condition hmem

end

/-- Literals of natural numbers, which are written as they are. -/
def naturalNumbers : Numbers where
  value s := ((Decimal.parseNat s.toList).getD 0 : ℕ)
  literal s := s
  literal_literal _ := rfl
  text s := s

end DazeApi.Overrides.PruneObjects

import DazeApi.Overrides.PruneObjects
import DazeApi.Relay.Override
import Mathlib.Data.List.Infix

/-!
# Parameter overrides of a request

`ApplyParamOverride` (`relay/common/override.go`) takes a map from fields to values, of which the
field `operations` may hold a list of operations.  An operation changes the fields of the request
that its paths begin with, and no other (`applyOperations_keeps`).
-/

namespace DazeApi.Overrides.ParamOverride

open JsonText JsonPath JsonDecode PruneObjects Wildcard Relay
open Failing (bind_eq_ok)

/-! ## Operations -/

inductive Failure where
  | text (message : String)
  | prune (err : PruneError)
  | returned (value : Json)
  | unknown (mode : String)
  | notObject

def ofText {α : Type} : Except String α → Except Failure α
  | .ok a => .ok a
  | .error message => .error (.text message)

def ofPrune {α : Type} : Except PruneError α → Except Failure α
  | .ok a => .ok a
  | .error err => .error (.prune err)

/-- The decoding of numbers, `regexp`, the text that `%v` gives, the decoding of the values of
header operations and `marshalContextJSON`. -/
structure Env where
  nums : Numbers
  regex : Wildcard.Env
  text : Json → String
  headerValue : Json → HeaderValue
  passThroughNames : Json → Except String (List String)
  contextJSON : Context → Option Json

inductive Mode where
  | delete
  | set
  | move
  | copy
  | prepend
  | append
  | trimPrefix
  | trimSuffix
  | ensurePrefix
  | ensureSuffix
  | trimSpace
  | toLower
  | toUpper
  | replace
  | regexReplace
  | returnError
  | pruneObjects
  | setHeader
  | deleteHeader
  | copyHeader
  | moveHeader
  | passHeaders
  | syncFields
deriving DecidableEq

def modes : List (String × Mode) :=
  [("delete", .delete), ("set", .set), ("move", .move), ("copy", .copy), ("prepend", .prepend),
    ("append", .append), ("trim_prefix", .trimPrefix), ("trim_suffix", .trimSuffix),
    ("ensure_prefix", .ensurePrefix), ("ensure_suffix", .ensureSuffix), ("trim_space", .trimSpace),
    ("to_lower", .toLower), ("to_upper", .toUpper), ("replace", .replace),
    ("regex_replace", .regexReplace), ("return_error", .returnError),
    ("prune_objects", .pruneObjects), ("set_header", .setHeader),
    ("delete_header", .deleteHeader), ("copy_header", .copyHeader), ("move_header", .moveHeader),
    ("pass_headers", .passHeaders), ("sync_fields", .syncFields)]

def modeOf (mode : String) : Option Mode := (modes.find? (·.1 = mode)).map Prod.snd

/-- `ParamOperation`, with `From` and `To` as source and target. -/
structure ParamOperation where
  path : String
  mode : String
  value : Json
  keepOrigin : Bool
  source : String
  target : String
  conditions : List ConditionOperation
  logic : String

/-! ## Parsing -/

def parseOperation : Json → Option ParamOperation
  | .obj op =>
      match member op "mode" with
      | some (.str mode) =>
          let parsed := (member op "conditions").map parseConditionOperations
          match parsed.getD (.ok []) with
          | .error _ => none
          | .ok conditions => some {
              path := stringField op "path"
              mode := mode
              value := (member op "value").getD .null
              keepOrigin := (boolField op "keep_origin").getD false
              source := stringField op "from"
              target := stringField op "to"
              conditions := conditions
              logic :=
                match member op "logic" with
                | some (.str logic) => logic
                | _ => "OR" }
      | _ => none
  | _ => none

/-- The operations of a value, if it is a list of them. -/
def parseOperations : Json → Option (List ParamOperation)
  | .arr ops => ops.mapM parseOperation
  | _ => none

def tryParseOperations (paramOverride : List (String × Json)) : Option (List ParamOperation) :=
  (member paramOverride "operations").bind parseOperations

/-- `strings.EqualFold(strings.TrimSpace(key), "operations")`. -/
def isOperationsKey (key : String) : Bool := Text.toLower (Text.trimSpace key) = "operations"

def buildLegacyParamOverride (paramOverride : List (String × Json)) : List (String × Json) :=
  paramOverride.filter fun e => !isOperationsKey e.1

/-- `parseSyncTarget`. -/
def parseSyncTarget (spec : String) : Except String SyncTarget :=
  let raw := Text.trimSpace spec
  if raw = "" then .error "sync_fields target is required"
  else
    match Text.cut [':'] raw.toList with
    | none => .ok (.json raw)
    | some (before, after) =>
        let kind := Text.toLower (Text.trimSpace (String.ofList before))
        let key := Text.trimSpace (String.ofList after)
        if key = "" then .error ("sync_fields target key is required: " ++ raw)
        else if kind = "json" ∨ kind = "body" then .ok (.json key)
        else if kind = "header" then .ok (.header key)
        else .error ("sync_fields target prefix is invalid: " ++ raw)

/-! ## Operations on the body -/

section

variable (env : Env)

def moveValue (doc : Json) (fromPath toPath : String) : Except String Json := do
  match getText doc fromPath with
  | none => .error ("source path does not exist: " ++ fromPath)
  | some v =>
      let doc ← setText doc toPath (decode env.nums v)
      return delete doc (segments fromPath)

def copyValue (doc : Json) (fromPath toPath : String) : Except String Json :=
  match getText doc fromPath with
  | none => .ok doc
  | some v => setText doc toPath (decode env.nums v)

def modifyArray (doc : Json) (path : String) (items : List Json) (value : Json)
    (isPrepend : Bool) : Except String Json :=
  let added :=
    match value with
    | .arr values => values
    | v => [v]
  setText doc path (decode env.nums (.arr (if isPrepend then added ++ items else items ++ added)))

def modifyString (doc : Json) (path current : String) (value : Json) (isPrepend : Bool) :
    Except String Json :=
  let valueStr := env.text value
  setText doc path (.str (if isPrepend then valueStr ++ current else current ++ valueStr))

/-- A member that is there, and with `keepOrigin` not null, is kept. -/
def mergeMember (keepOrigin : Bool) (acc : List (String × Json)) (m : String × Json) :
    List (String × Json) :=
  match keepOrigin, member acc m.1 with
  | true, none => insertMember acc m.1 m.2
  | true, some .null => insertMember acc m.1 m.2
  | true, some _ => acc
  | false, _ => insertMember acc m.1 m.2

def mergeObjects (doc : Json) (path : String) (current : List (String × Json)) (value : Json)
    (keepOrigin : Bool) : Except String Json :=
  match value with
  | .obj new =>
      let merged := (mapOf new).foldl (mergeMember keepOrigin) (mapOf current)
      setText doc path (decode env.nums (.obj merged))
  | .null => setText doc path (decode env.nums (.obj current))
  | _ => .error "cannot unmarshal into a map"

def modifyValue (doc : Json) (path : String) (value : Json) (keepOrigin isPrepend : Bool) :
    Except String Json :=
  match getText doc path with
  | some (.arr items) => modifyArray env doc path items value isPrepend
  | some (.str current) => modifyString env doc path current value isPrepend
  | some (.obj current) => mergeObjects env doc path current value keepOrigin
  | current => .error ("operation not supported for type: " ++ typeName current)

/-! ## Fields and headers in step -/

def readSyncTargetValue (doc : Json) (ctx : Context) : SyncTarget → Option Json
  | .json key =>
      match getText doc (NegativeIndex.processNegativeIndex doc key) with
      | none => none
      | some .null => none
      | some (.str s) => if Text.trimSpace s = "" then none else some (.str s)
      | some v => some (decode env.nums v)
  | .header key => (getHeaderValueFromContext ctx key).map .str

def writeSyncTargetValue (doc : Json) (ctx : Context) (value : Json) :
    SyncTarget → Except String (Json × Context)
  | .json key => do
      let doc' ← setText doc (NegativeIndex.processNegativeIndex doc key) value
      return (doc', ctx)
  | .header key => do
      let ctx' ← setHeaderOverrideInContext ctx key (env.headerValue value) false
      return (doc, ctx')

def syncFieldsBetweenTargets (doc : Json) (ctx : Context) (fromSpec toSpec : String) :
    Except String (Json × Context) := do
  let fromTarget ← parseSyncTarget fromSpec
  let toTarget ← parseSyncTarget toSpec
  match readSyncTargetValue env doc ctx fromTarget, readSyncTargetValue env doc ctx toTarget with
  | some v, none => writeSyncTargetValue env doc ctx v toTarget
  | none, some v => writeSyncTargetValue env doc ctx v fromTarget
  | _, _ => return (doc, ctx)

/-! ## One operation -/

/-- A value as text, if there is one. -/
def valueText (value : Json) : Option String :=
  match value with
  | .null => none
  | v => some (env.text v)

/-- `set` and the operations on strings. -/
def nodeOperation (op : ParamOperation) : Mode → Option NodeOperation
  | .set => some (.set (decode env.nums op.value) op.keepOrigin)
  | .trimPrefix => some (.trimPrefix (valueText env op.value))
  | .trimSuffix => some (.trimSuffix (valueText env op.value))
  | .ensurePrefix => some (.ensurePrefix (valueText env op.value))
  | .ensureSuffix => some (.ensureSuffix (valueText env op.value))
  | .trimSpace => some .trimSpace
  | .toLower => some .toLower
  | .toUpper => some .toUpper
  | .replace => some (.replace op.source op.target)
  | .regexReplace => some (.regexReplace op.source op.target)
  | _ => none

/-- An operation at one path. -/
def applyAtPath (op : ParamOperation) (ctx : Context) (mode : Mode) (doc : Json) (path : String) :
    Except Failure Json :=
  match nodeOperation env op mode with
  | some node => ofText (applyAt env.regex doc path node)
  | none =>
      match mode with
      | .delete => .ok (deleteValue doc path)
      | .prepend => ofText (modifyValue env doc path op.value op.keepOrigin true)
      | .append => ofText (modifyValue env doc path op.value op.keepOrigin false)
      | .pruneObjects =>
          ofPrune (PruneObjects.pruneObjects env.nums doc path (env.contextJSON ctx) op.value)
      | _ => .ok doc

/-- The operations that are applied at every path of `resolveOperationPaths`. -/
def isPathBasedOperation : Mode → Bool
  | .move => false
  | .copy => false
  | .returnError => false
  | .setHeader => false
  | .deleteHeader => false
  | .copyHeader => false
  | .moveHeader => false
  | .passHeaders => false
  | .syncFields => false
  | _ => true

/-- The header operations, which are those of `Relay.Override`. -/
def applyToHeaders (op : ParamOperation) (ctx : Context) : Mode → Except String Context
  | .setHeader => setHeaderOverrideInContext ctx op.path (env.headerValue op.value) op.keepOrigin
  | .deleteHeader => deleteHeaderOverrideInContext ctx op.path
  | .copyHeader => do
      let ctx' ← copyHeaderInContext ctx (headerEnd op.source op.path) (headerEnd op.target op.path)
        op.keepOrigin
      return ctx'.getD ctx
  | .moveHeader => do
      let ctx' ← moveHeaderInContext ctx (headerEnd op.source op.path) (headerEnd op.target op.path)
        op.keepOrigin
      return ctx'.getD ctx
  | .passHeaders => do
      Relay.passHeaders op.keepOrigin (← env.passThroughNames op.value) ctx
  | _ => .ok ctx

/-- One operation of `applyOperations` whose conditions hold. -/
def applyMode (op : ParamOperation) (doc : Json) (ctx : Context) (mode : Mode) :
    Except Failure (Json × Context) := do
  if isPathBasedOperation mode then
    let path := NegativeIndex.processNegativeIndex doc op.path
    let doc' ← (resolveOperationPaths doc path).foldlM (applyAtPath env op ctx mode) doc
    return (doc', ctx)
  else
    let source := NegativeIndex.processNegativeIndex doc op.source
    let target := NegativeIndex.processNegativeIndex doc op.target
    match mode with
    | .move =>
        let doc' ← ofText (moveValue env doc source target)
        return (doc', ctx)
    | .copy =>
        if op.source = "" ∨ op.target = "" then .error (.text "copy from/to is required")
        else
          let doc' ← ofText (copyValue env doc source target)
          return (doc', ctx)
    | .returnError => .error (.returned op.value)
    | .syncFields => ofText (syncFieldsBetweenTargets env doc ctx op.source op.target)
    | mode =>
        let ctx' ← ofText (applyToHeaders env op ctx mode)
        return (doc, ctx')

def applyOperation (op : ParamOperation) (doc : Json) (ctx : Context) :
    Except Failure (Json × Context) := do
  let ok ← ofPrune (checkConditions env.nums doc (env.contextJSON ctx) op.conditions op.logic)
  if ok then
    match modeOf op.mode with
    | some mode => applyMode env op doc ctx mode
    | none => .error (.unknown op.mode)
  else return (doc, ctx)

def applyOperations : List ParamOperation → Json → Context → Except Failure Json
  | [], doc, _ => .ok doc
  | op :: ops, doc, ctx => do
      let (doc', ctx') ← applyOperation env op doc ctx
      applyOperations ops doc' ctx'

/-! ## Overrides -/

/-- The request is decoded into a map, and the fields are assigned. -/
def applyOperationsLegacy (fields : List (String × Json)) : Json → Except Failure Json
  | .obj ms =>
      .ok (.obj (fields.foldl (fun acc e => insertMember acc e.1 (decode env.nums e.2))
        (mapOf (decodeMembers env.nums ms))))
  | _ => .error .notObject

def applyParamOverride (doc : Json) (paramOverride : List (String × Json)) (ctx : Context) :
    Except Failure Json := do
  if paramOverride = [] then return doc
  else
    match tryParseOperations paramOverride with
    | some operations =>
        let legacy := buildLegacyParamOverride paramOverride
        let working ← if legacy = [] then .ok doc else applyOperationsLegacy env legacy doc
        applyOperations env operations working ctx
    | none => applyOperationsLegacy env paramOverride doc

end

/-! ## Fields that are addressed -/

/-- The first segment of a path. -/
def head (path : String) : String := (segments path).headD ""

/-- A path begins with the field; `*` stands for every field. -/
def Begins (path key : String) : Prop :=
  key = head path ∨
    '*' ∈ path.toList ∧ (Text.trimSpace (head path) = "*" ∨ key = Text.trimSpace (head path))

/-- One end of `sync_fields`. -/
def Synced (spec key : String) : Prop := ∃ path, parseSyncTarget spec = .ok (.json path) ∧
  key = head path

/-- The fields that an operation addresses. -/
def Addresses (op : ParamOperation) (key : String) : Prop :=
  match modeOf op.mode with
  | some .move => key = head op.source ∨ key = head op.target
  | some .copy => key = head op.target
  | some .syncFields => Synced op.source key ∨ Synced op.target key
  | some .pruneObjects => op.path = "" ∨ Begins op.path key
  | some mode => isPathBasedOperation mode = true ∧ Begins op.path key
  | none => False

/-- An object stays one, with the same value at a field. -/
def Keeps (key : String) (doc doc' : Json) : Prop :=
  ∀ ms, doc = .obj ms → ∃ ms', doc' = .obj ms' ∧ member ms' key = member ms key

section

variable {key path : String} {doc doc' doc'' v : Json} {ctx ctx' : Context} {env : Env}
  {op : ParamOperation} {mode : Mode}

theorem Keeps.refl (key : String) (doc : Json) : Keeps key doc doc := fun ms h => ⟨ms, h, rfl⟩

theorem Keeps.trans (h : Keeps key doc doc') (h' : Keeps key doc' doc'') : Keeps key doc doc'' := by
  intro ms hms
  obtain ⟨ms', hms', hmember⟩ := h ms hms
  obtain ⟨ms'', hms'', hmember'⟩ := h' ms' hms'
  exact ⟨ms'', hms'', hmember'.trans hmember⟩

theorem keeps_foldlM {α ε : Type} {f : Json → α → Except ε Json} {l : List α}
    (h : ∀ a ∈ l, ∀ doc doc', f doc a = .ok doc' → Keeps key doc doc')
    (hfold : l.foldlM f doc = .ok doc') : Keeps key doc doc' := by
  induction l generalizing doc with
  | nil =>
      cases hfold
      exact .refl key _
  | cons a l ih =>
      obtain ⟨ha, hl⟩ := List.forall_mem_cons.1 h
      rw [List.foldlM_cons] at hfold
      cases hstep : f _ a with
      | error e => rw [hstep] at hfold; cases hfold
      | ok d =>
          rw [hstep] at hfold
          exact (ha _ d hstep).trans (ih hl hfold)

/-! ## Paths -/

/-- The first segment is what stands before the first dot. -/
theorem toList_head (path : String) :
    (head path).toList = path.toList.takeWhile fun c => !decide (c = '.') := by
  obtain ⟨p, ps, heq, hlist, hdots⟩ := Text.splitAt_spec path '.'
  have hp := (List.forall_mem_cons.1 hdots).1
  rw [head, segments, heq, List.headD_cons, hlist]
  rw [List.takeWhile_append_of_pos fun c hc => by
    simpa using fun heq : c = '.' => hp (heq ▸ hc)]
  cases ps with
  | nil => simp [Text.joinTail]
  | cons q ps => rw [Text.joinTail_cons, List.takeWhile_cons_of_neg (by simp), List.append_nil]

theorem head_of_toList {rest : List Char} {s : String} (hs : '.' ∉ s.toList)
    (hrest : ∀ c ∈ rest.head?, c = '.') (h : path.toList = s.toList ++ rest) : head path = s := by
  refine String.toList_inj.1 ?_
  rw [toList_head, h, List.takeWhile_append_of_pos fun c hc => by
    simpa using fun heq : c = '.' => hs (heq ▸ hc)]
  cases rest with
  | nil => simp
  | cons c rest =>
      rw [List.takeWhile_cons_of_neg (by simp [hrest c rfl]), List.append_nil]

theorem head?_joinTail (ps : List String) : ∀ c ∈ (Text.joinTail '.' ps).head?, c = '.' := by
  intro c hc
  cases ps with
  | nil => cases hc
  | cons q ps =>
      rw [Text.joinTail_cons, List.head?_cons] at hc
      exact (Option.mem_some.1 hc).symm

theorem head_join {s : String} (hs : '.' ∉ s.toList) (ps : List String) :
    head (Text.join (s :: ps) '.') = s :=
  head_of_toList hs (head?_joinTail ps) (Text.toList_join_cons '.' s ps)

theorem not_dot_head (path : String) : '.' ∉ (head path).toList := by
  rw [toList_head]
  intro h
  simpa using List.mem_takeWhile_imp h

theorem segments_eq_cons (path : String) : ∃ rest, segments path = head path :: rest := by
  cases h : segments path with
  | nil => exact absurd h (Text.splitAt_ne_nil path '.')
  | cons s rest => exact ⟨rest, by rw [head, h, List.headD_cons]⟩

theorem head_processNegativeIndex (doc : Json) (path : String) :
    head (NegativeIndex.processNegativeIndex doc path) = head path := by
  obtain ⟨rest, hrest⟩ := segments_eq_cons path
  rw [NegativeIndex.processNegativeIndex_eq hrest, head_join (not_dot_head path)]

theorem mem_replaceFirst {old new l : List Char} {c : Char}
    (h : c ∈ NegativeIndex.replaceFirst old new l) : c ∈ new ∨ c ∈ l := by
  induction l with
  | nil => cases h
  | cons d l ih =>
      rw [NegativeIndex.replaceFirst] at h
      split at h
      · exact (List.mem_append.1 h).imp_right List.mem_of_mem_drop
      · rcases List.mem_cons.1 h with rfl | h
        · exact Or.inr (.head _)
        · exact (ih h).imp_right (.tail _)

theorem mem_of_mem_foldl {α β : Type} {f : List α → β → List α} {a : α}
    (hf : ∀ l b, a ∈ f l b → a ∈ l) (bs : List β) (l : List α) (h : a ∈ bs.foldl f l) : a ∈ l := by
  induction bs generalizing l with
  | nil => exact h
  | cons b bs ih => exact hf l b (ih (f l b) h)

theorem star_of_replaceFirst {old l : List Char} (n : ℕ)
    (h : '*' ∈ NegativeIndex.replaceFirst old ('.' :: (indexText n).toList) l) : '*' ∈ l := by
  refine (mem_replaceFirst h).resolve_left fun hnew => ?_
  rcases List.mem_cons.1 hnew with hdot | hdigit
  · exact absurd hdot (by decide)
  · exact absurd (NegativeIndex.isDigit_indexText n _ hdigit) (by decide)

/-- No `*` comes into a path with the indices. -/
theorem star_of_processNegativeIndex
    (h : '*' ∈ (NegativeIndex.processNegativeIndex doc path).toList) : '*' ∈ path.toList := by
  rw [NegativeIndex.processNegativeIndex, String.toList_ofList] at h
  refine mem_of_mem_foldl (fun l digits hmem => ?_) _ _ h
  cases hlookup : NegativeIndex.lookupIndex doc path digits with
  | none => rwa [hlookup] at hmem
  | some i =>
      rw [hlookup] at hmem
      exact star_of_replaceFirst i hmem

theorem head_of_mem_places {node : Json} {seg : String} {rest p : List String}
    (h : p ∈ places node (seg :: rest)) :
    Text.trimSpace seg = "*" ∨ Text.trimSpace seg ≠ "" ∧ ∃ q, p = Text.trimSpace seg :: q := by
  rw [places] at h
  by_cases hempty : Text.trimSpace seg = ""
  · rw [if_pos hempty] at h
    cases h
  · rw [if_neg hempty] at h
    by_cases hstar : Text.trimSpace seg = "*"
    · exact Or.inl hstar
    · refine Or.inr ⟨hempty, ?_⟩
      rw [if_neg hstar] at h
      split at h
      next => exact ⟨[], List.mem_singleton.1 h⟩
      next =>
        split at h
        next =>
          obtain ⟨q, -, rfl⟩ := List.mem_map.1 h
          exact ⟨q, rfl⟩
        next => cases h

theorem not_dot_trimSpace {s : String} (h : '.' ∉ s.toList) : '.' ∉ (Text.trimSpace s).toList :=
  fun hmem => h (Text.mem_of_mem_trimSpace hmem)

theorem star_of_contains (h : Text.contains path "*" = true) : '*' ∈ path.toList := by
  obtain ⟨tail, htail, hprefix⟩ := List.any_eq_true.1 h
  obtain ⟨rest, hrest⟩ := List.isPrefixOf_iff_prefix.1 hprefix
  exact ((List.mem_tails _ _).1 htail).subset (hrest ▸ List.mem_cons_self)

/-- Every path of an operation begins with a field that its path begins with. -/
theorem begins_of_mem_resolve (h : path ∈ resolveOperationPaths doc
      (NegativeIndex.processNegativeIndex doc op.path)) : Begins op.path (head path) ∨
    '*' ∈ op.path.toList ∧ Text.trimSpace (head op.path) = "*" := by
  rw [resolveOperationPaths] at h
  split at h
  next hstar =>
    have hmem := star_of_processNegativeIndex (star_of_contains hstar)
    obtain ⟨p, hp, rfl⟩ := List.mem_map.1 (Names.mem_uniq.1 h)
    obtain ⟨rest, hrest⟩ :=
      segments_eq_cons (NegativeIndex.processNegativeIndex doc op.path)
    rw [hrest, head_processNegativeIndex] at hp
    rcases head_of_mem_places hp with hhead | ⟨-, q, rfl⟩
    · exact Or.inr ⟨hmem, hhead⟩
    · exact Or.inl (Or.inr ⟨hmem, Or.inr (head_join (not_dot_trimSpace (not_dot_head _)) q)⟩)
  next =>
    rw [List.mem_singleton.1 h, head_processNegativeIndex]
    exact Or.inl (Or.inl rfl)

/-! ## What is kept -/

theorem keeps_set {s : String} {p : List String} (h : set doc (s :: p) v = some doc')
    (hkey : key ≠ s) : Keeps key doc doc' := by
  rintro ms rfl
  rw [JsonPath.set, Option.bind_eq_some_iff] at h
  obtain ⟨w, -, hput⟩ := h
  rw [put_eq_putIn rfl, putIn] at hput
  cases hput
  exact ⟨_, rfl, by rw [member_setMember, if_neg hkey]⟩

theorem keeps_setText (h : setText doc path v = .ok doc') (hkey : key ≠ head path) :
    Keeps key doc doc' := by
  rw [setText] at h
  split at h
  · cases h
  · obtain ⟨rest, hrest⟩ := segments_eq_cons path
    rw [hrest] at h
    cases hset : set doc (head path :: rest) v with
    | none => rw [hset] at h; cases h
    | some d =>
        rw [hset] at h
        cases h
        exact keeps_set hset hkey

theorem keeps_delete (hkey : key ≠ head path) : Keeps key doc (delete doc (segments path)) := by
  rintro ms rfl
  obtain ⟨rest, hrest⟩ := segments_eq_cons path
  have hlast : lastItem (.obj ms) (head path) = head path := rfl
  rw [hrest, delete, hlast]
  cases child (.obj ms) (head path) with
  | none => exact ⟨ms, rfl, rfl⟩
  | some c =>
      simp only
      split
      · exact ⟨_, rfl, member_eraseP_of_ne hkey.symm⟩
      · rw [put_eq_putIn rfl, putIn, Option.getD_some]
        exact ⟨_, rfl, by rw [member_setMember, if_neg hkey]⟩

theorem keeps_deleteValue (hkey : key ≠ head path) : Keeps key doc (deleteValue doc path) := by
  rw [deleteValue]
  split
  · exact .refl key doc
  · exact keeps_delete hkey

theorem keeps_changeString {change : Change} (h : changeString doc path change = .ok doc')
    (hkey : key ≠ head path) : Keeps key doc doc' := by
  rw [changeString] at h
  split at h
  next current _ =>
    cases hchange : change current with
    | error e => rw [hchange] at h; cases h
    | ok r =>
        rw [hchange] at h
        cases r with
        | none => cases h; exact .refl key doc
        | some s => exact keeps_setText h hkey
  next => cases h

theorem keeps_applyAt {regex : Wildcard.Env} {node : NodeOperation}
    (h : applyAt regex doc path node = .ok doc') (hkey : key ≠ head path) :
    Keeps key doc doc' := by
  cases node with
  | set value keepOrigin =>
      rw [applyAt] at h
      split at h
      · cases h
        exact .refl key doc
      · exact keeps_setText h hkey
  | _ => exact keeps_changeString h hkey

theorem keeps_modifyValue {value : Json} {keepOrigin isPrepend : Bool}
    (h : modifyValue env doc path value keepOrigin isPrepend = .ok doc') (hkey : key ≠ head path) :
    Keeps key doc doc' := by
  rw [modifyValue] at h
  split at h
  · exact keeps_setText h hkey
  · exact keeps_setText h hkey
  · rw [mergeObjects.eq_def] at h
    split at h
    · exact keeps_setText h hkey
    · exact keeps_setText h hkey
    · cases h
  · cases h

theorem keeps_pruneObjects {nums : Numbers} {context : Option Json} {value : Json}
    (h : PruneObjects.pruneObjects nums doc path context value = .ok doc') (hpath : path ≠ "")
    (hkey : key ≠ head path) : Keeps key doc doc' := by
  cases hoptions : parsePruneObjectsOptions value with
  | error e => rw [PruneObjects.pruneObjects, hoptions] at h; cases h
  | ok options =>
      cases htarget : PruneObjects.target doc path with
      | none =>
          rw [pruneObjects_missing hoptions htarget] at h
          cases h
          exact .refl key doc
      | some node =>
          obtain ⟨node', -, -, hset, -⟩ := pruned_of_ok hoptions htarget h
          rw [setTarget, if_neg hpath] at hset
          obtain ⟨rest, hrest⟩ := segments_eq_cons path
          rw [hrest] at hset
          cases hdoc : set doc (head path :: rest) node' with
          | none => rw [hdoc] at hset; cases hset
          | some d =>
              rw [hdoc] at hset
              cases hset
              exact keeps_set hdoc hkey

theorem ofText_eq_ok {α : Type} {x : Except String α} {a : α} (h : ofText x = .ok a) :
    x = .ok a := by
  cases x with
  | ok b =>
      cases h
      rfl
  | error e => cases h

theorem ofPrune_eq_ok {α : Type} {x : Except PruneError α} {a : α} (h : ofPrune x = .ok a) :
    x = .ok a := by
  cases x with
  | ok b =>
      cases h
      rfl
  | error e => cases h

/-- An operation keeps a field with which no path of it begins. -/
theorem keeps_applyAtPath (h : applyAtPath env op ctx mode doc path = .ok doc')
    (hpath : mode = .pruneObjects → path ≠ "") (hkey : key ≠ head path) : Keeps key doc doc' := by
  rw [applyAtPath.eq_def] at h
  cases hnode : nodeOperation env op mode with
  | some node =>
      rw [hnode] at h
      exact keeps_applyAt (ofText_eq_ok h) hkey
  | none =>
      rw [hnode] at h
      cases mode with
      | delete =>
          cases h
          exact keeps_deleteValue hkey
      | prepend => exact keeps_modifyValue (ofText_eq_ok h) hkey
      | append => exact keeps_modifyValue (ofText_eq_ok h) hkey
      | pruneObjects => exact keeps_pruneObjects (ofPrune_eq_ok h) (hpath rfl) hkey
      | _ =>
          cases h
          exact .refl key doc

theorem keeps_copyValue {fromPath toPath : String}
    (h : copyValue env doc fromPath toPath = .ok doc') (hkey : key ≠ head toPath) :
    Keeps key doc doc' := by
  rw [copyValue] at h
  split at h
  · cases h
    exact .refl key doc
  · exact keeps_setText h hkey

theorem keeps_moveValue {fromPath toPath : String}
    (h : moveValue env doc fromPath toPath = .ok doc') (hfrom : key ≠ head fromPath)
    (hto : key ≠ head toPath) : Keeps key doc doc' := by
  rw [moveValue] at h
  split at h
  · cases h
  · obtain ⟨d, hset, hdelete⟩ := bind_eq_ok h
    cases hdelete
    exact (keeps_setText hset hto).trans (keeps_delete hfrom)

theorem keeps_writeSyncTargetValue {value : Json} {spec : String} {target : SyncTarget}
    (h : writeSyncTargetValue env doc ctx value target = .ok (doc', ctx'))
    (hspec : parseSyncTarget spec = .ok target) (hkey : ¬ Synced spec key) :
    Keeps key doc doc' := by
  cases target with
  | json path =>
      obtain ⟨d, hset, heq⟩ := bind_eq_ok h
      cases heq
      refine keeps_setText hset fun hhead => hkey ⟨path, hspec, ?_⟩
      rw [hhead, head_processNegativeIndex]
  | header name =>
      obtain ⟨c, -, heq⟩ := bind_eq_ok h
      cases heq
      exact .refl key doc

theorem keeps_syncFields {fromSpec toSpec : String}
    (h : syncFieldsBetweenTargets env doc ctx fromSpec toSpec = .ok (doc', ctx'))
    (hfrom : ¬ Synced fromSpec key) (hto : ¬ Synced toSpec key) : Keeps key doc doc' := by
  obtain ⟨fromTarget, hfromSpec, h⟩ := bind_eq_ok h
  obtain ⟨toTarget, htoSpec, h⟩ := bind_eq_ok h
  split at h
  · exact keeps_writeSyncTargetValue h htoSpec hto
  · exact keeps_writeSyncTargetValue h hfromSpec hfrom
  · cases h
    exact .refl key doc

theorem mem_replaceFirst_of_mem {old new l : List Char} {c : Char} (hnew : c ∈ new) (h : c ∈ l) :
    c ∈ NegativeIndex.replaceFirst old new l := by
  induction l with
  | nil => cases h
  | cons d l ih =>
      rw [NegativeIndex.replaceFirst]
      split
      · exact List.mem_append_left _ hnew
      · rcases List.mem_cons.1 h with rfl | h
        · exact .head _
        · exact .tail _ (ih h)

theorem mem_foldl_of_mem {α β : Type} {f : List α → β → List α} {a : α}
    (hf : ∀ l b, a ∈ l → a ∈ f l b) (bs : List β) (l : List α) (h : a ∈ l) : a ∈ bs.foldl f l := by
  induction bs generalizing l with
  | nil => exact h
  | cons b bs ih => exact ih (f l b) (hf l b h)

theorem processNegativeIndex_ne_empty (hpath : path ≠ "") :
    NegativeIndex.processNegativeIndex doc path ≠ "" := by
  by_cases hdot : '.' ∈ path.toList
  · have hmem : '.' ∈ (NegativeIndex.processNegativeIndex doc path).toList := by
      rw [NegativeIndex.processNegativeIndex, String.toList_ofList]
      refine mem_foldl_of_mem (fun l digits hl => ?_) _ _ hdot
      cases NegativeIndex.lookupIndex doc path digits with
      | none => exact hl
      | some i => exact mem_replaceFirst_of_mem (.head _) hl
    intro hempty
    rw [hempty] at hmem
    cases hmem
  · rwa [processNegativeIndex_of_not_dot hdot]

/-- The empty path, which is the whole request, comes from an empty path or from `*`. -/
theorem empty_of_mem_resolve (h : "" ∈ resolveOperationPaths doc
      (NegativeIndex.processNegativeIndex doc op.path)) : op.path = "" ∨
    '*' ∈ op.path.toList ∧ Text.trimSpace (head op.path) = "*" := by
  rw [resolveOperationPaths] at h
  split at h
  next hstar =>
    have hmem := star_of_processNegativeIndex (star_of_contains hstar)
    obtain ⟨p, hp, hjoin⟩ := List.mem_map.1 (Names.mem_uniq.1 h)
    obtain ⟨rest, hrest⟩ :=
      segments_eq_cons (NegativeIndex.processNegativeIndex doc op.path)
    rw [hrest, head_processNegativeIndex] at hp
    rcases head_of_mem_places hp with hhead | ⟨hne, q, rfl⟩
    · exact Or.inr ⟨hmem, hhead⟩
    · have hempty := Text.toList_join_cons '.' (Text.trimSpace (head op.path)) q
      rw [hjoin] at hempty
      exact absurd (String.toList_inj.1 (List.append_eq_nil_iff.1 hempty.symm).1) hne
  next =>
    left
    by_contra hne
    exact processNegativeIndex_ne_empty hne (List.mem_singleton.1 h).symm

theorem keeps_applyMode (hmode : modeOf op.mode = some mode)
    (h : applyMode env op doc ctx mode = .ok (doc', ctx')) (hkey : ¬ Addresses op key) :
    Keeps key doc doc' := by
  rw [Addresses, hmode] at hkey
  rw [applyMode] at h
  split at h
  next hbased =>
    obtain ⟨d, hfold, heq⟩ := bind_eq_ok h
    cases heq
    have hbegins : ¬ Begins op.path key := by
      intro hbegins
      cases mode with
      | pruneObjects => exact hkey (Or.inr hbegins)
      | move => cases hbased
      | copy => cases hbased
      | syncFields => cases hbased
      | _ => exact hkey ⟨hbased, hbegins⟩
    refine keeps_foldlM (fun path hpath d d' hstep => ?_) hfold
    refine keeps_applyAtPath hstep ?_ ?_
    · rintro rfl rfl
      rcases empty_of_mem_resolve hpath with hempty | ⟨hstar, hhead⟩
      · exact hkey (Or.inl hempty)
      · exact hbegins (Or.inr ⟨hstar, Or.inl hhead⟩)
    · rintro rfl
      rcases begins_of_mem_resolve hpath with h | ⟨hstar, hhead⟩
      · exact hbegins h
      · exact hbegins (Or.inr ⟨hstar, Or.inl hhead⟩)
  next hbased =>
    cases mode with
    | move =>
        obtain ⟨d, hmove, heq⟩ := bind_eq_ok h
        cases heq
        rw [not_or] at hkey
        refine keeps_moveValue (ofText_eq_ok hmove) ?_ ?_
        · rw [head_processNegativeIndex]
          exact hkey.1
        · rw [head_processNegativeIndex]
          exact hkey.2
    | copy =>
        simp only at h
        split at h
        · cases h
        · obtain ⟨d, hcopy, heq⟩ := bind_eq_ok h
          cases heq
          refine keeps_copyValue (ofText_eq_ok hcopy) ?_
          rw [head_processNegativeIndex]
          exact hkey
    | returnError => cases h
    | syncFields =>
        rw [not_or] at hkey
        exact keeps_syncFields (ofText_eq_ok h) hkey.1 hkey.2
    | setHeader | deleteHeader | copyHeader | moveHeader | passHeaders =>
        obtain ⟨c, -, heq⟩ := bind_eq_ok h
        cases heq
        exact .refl key doc
    | _ => exact absurd rfl hbased

theorem keeps_applyOperation (h : applyOperation env op doc ctx = .ok (doc', ctx'))
    (hkey : ¬ Addresses op key) : Keeps key doc doc' := by
  obtain ⟨ok, -, h⟩ := bind_eq_ok h
  split at h
  · split at h
    next mode hmode => exact keeps_applyMode hmode h hkey
    next => cases h
  · cases h
    exact .refl key doc

/-- Operations keep the fields that none of them addresses. -/
theorem applyOperations_keeps {ops : List ParamOperation}
    (h : applyOperations env ops doc ctx = .ok doc') (hkey : ∀ op ∈ ops, ¬ Addresses op key) :
    Keeps key doc doc' := by
  induction ops generalizing doc ctx with
  | nil =>
      cases h
      exact .refl key _
  | cons op ops ih =>
      obtain ⟨hop, hops⟩ := List.forall_mem_cons.1 hkey
      obtain ⟨⟨d, c⟩, hstep, h⟩ := bind_eq_ok h
      exact (keeps_applyOperation hstep hop).trans (ih h hops)

/-! ## Fields of an override -/

/-- The request with the fields of an override. -/
theorem member_applyOperationsLegacy (env : Env) {fields ms : List (String × Json)}
    (hfields : (fields.map Prod.fst).Nodup) (hms : (ms.map Prod.fst).Nodup) :
    ∃ ms', applyOperationsLegacy env fields (.obj ms) = .ok (.obj ms') ∧
      ∀ key, member ms' key = ((member fields key).map (decode env.nums)).or
        ((member ms key).map (decode env.nums)) := by
  refine ⟨_, rfl, fun key => ?_⟩
  rw [member_foldl_insertMember (decode env.nums) hfields, mapOf, decodeMembers_eq_map,
    List.foldl_map, member_foldl_insertMember (decode env.nums) hms, member_nil, Option.or_none]

end

end DazeApi.Overrides.ParamOverride

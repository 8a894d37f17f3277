import DazeApi.Lib.JsonPath
import DazeApi.Lib.Names

/-!
# Operations on all nodes that a path matches

In a path of an operation `*` stands for every member of an object and every element of an
array (`relay/common/override.go`).  The path is expanded to the paths of the nodes that it
matches, as texts, before the first of them is written, and the operation is applied to one
after another.  `matched` is the document with every matched node changed at once, and
`withoutMatched` the one without them.

The operations on a node read the string there and write another one, or set a value.
`gjson` and `sjson` are the dotted paths of `JsonPath`.
-/

namespace DazeApi.Overrides.Wildcard

open JsonText JsonPath

/-! ## Reading and writing at the text of a path -/

/-- `gjson.Get`. -/
def getText (doc : Json) (path : String) : Option Json := get doc (segments path)

/-- `sjson.Set`. -/
def setText (doc : Json) (path : String) (v : Json) : Except String Json :=
  if path = "" then .error "path cannot be empty"
  else
    match set doc (segments path) v with
    | some doc => .ok doc
    | none => .error "cannot set array element for non-numeric key"

/-- `deleteValue`. -/
def deleteValue (doc : Json) (path : String) : Json :=
  if Text.trimSpace path = "" then doc else delete doc (segments path)

/-! ## Operations on one node -/

/-- What the operations use of other packages: `regexp.Compile` with `ReplaceAllString`. -/
structure Env where
  compile : String → Except String (String → String → String)

/-- `gjson.Type`, of what is read. -/
def typeName : Option Json → String
  | none => "Null"
  | some .null => "Null"
  | some (.bool false) => "False"
  | some (.bool true) => "True"
  | some (.num _) => "Number"
  | some (.str _) => "String"
  | some _ => "JSON"

/-- What becomes of a string; it may be left. -/
abbrev Change := String → Except String (Option String)

/-- A string is read, and another one is written. -/
def changeString (doc : Json) (path : String) (change : Change) : Except String Json := do
  match getText doc path with
  | some (.str current) =>
      match ← change current with
      | some s => setText doc path (.str s)
      | none => return doc
  | current => .error ("operation not supported for type: " ++ typeName current)

/-- A value is the text that `%v` gives for it. -/
def trimmed (value : Option String) (isPrefix : Bool) : Change := fun current =>
  match value with
  | none => .error "trim value is required"
  | some v =>
      .ok (some (
        if isPrefix then if Text.hasPrefix current v then Text.dropPrefix current v else current
        else Text.trimSuffix current v))

def ensured (value : Option String) (isPrefix : Bool) : Change := fun current =>
  match value with
  | none => .error "ensure value is required"
  | some v =>
      if v = "" then .error "ensure value is required"
      else if isPrefix then .ok (if Text.hasPrefix current v then none else some (v ++ current))
      else .ok (if Text.hasSuffix current v then none else some (current ++ v))

def transformed (transform : String → String) : Change := fun current =>
  .ok (some (transform current))

def replaced (source target : String) : Change := fun current =>
  if source = "" then .error "replace from is required"
  else .ok (some (Text.replaceAll current source target))

def regexReplaced (env : Env) (pattern replacement : String) : Change := fun current =>
  if pattern = "" then .error "regex pattern is required"
  else do
    let replace ← env.compile pattern
    return some (replace current replacement)

def trimStringValue (doc : Json) (path : String) (value : Option String) (isPrefix : Bool) :
    Except String Json := changeString doc path (trimmed value isPrefix)

def ensureStringAffix (doc : Json) (path : String) (value : Option String) (isPrefix : Bool) :
    Except String Json := changeString doc path (ensured value isPrefix)

def transformStringValue (doc : Json) (path : String) (transform : String → String) :
    Except String Json := changeString doc path (transformed transform)

def replaceStringValue (doc : Json) (path source target : String) : Except String Json :=
  changeString doc path (replaced source target)

def regexReplaceStringValue (env : Env) (doc : Json) (path pattern replacement : String) :
    Except String Json := changeString doc path (regexReplaced env pattern replacement)

/-- `set` and the operations on strings, with their fields. -/
inductive NodeOperation where
  | set (value : Json) (keepOrigin : Bool)
  | trimPrefix (value : Option String)
  | trimSuffix (value : Option String)
  | ensurePrefix (value : Option String)
  | ensureSuffix (value : Option String)
  | trimSpace
  | toLower
  | toUpper
  | replace (source target : String)
  | regexReplace (pattern replacement : String)

/-- `strings.ToUpper`, on the ASCII letters. -/
def toUpper (s : String) : String := String.ofList (s.toList.map Char.toUpper)

/-- One operation at one path, as `applyOperations` does it. -/
def applyAt (env : Env) (doc : Json) (path : String) : NodeOperation → Except String Json
  | .set value keepOrigin =>
      if keepOrigin ∧ (getText doc path).isSome then .ok doc else setText doc path value
  | .trimPrefix value => trimStringValue doc path value true
  | .trimSuffix value => trimStringValue doc path value false
  | .ensurePrefix value => ensureStringAffix doc path value true
  | .ensureSuffix value => ensureStringAffix doc path value false
  | .trimSpace => transformStringValue doc path Text.trimSpace
  | .toLower => transformStringValue doc path Text.toLower
  | .toUpper => transformStringValue doc path toUpper
  | .replace source target => replaceStringValue doc path source target
  | .regexReplace pattern replacement => regexReplaceStringValue env doc path pattern replacement

/-! ## Expansion -/

/-- `typed[key]` of a decoded object, in which the last member of a name counts. -/
def lastMember (ms : List (String × Json)) (key : String) : Option Json := member ms.reverse key

/-- Where a segment leads in the decoded document. -/
def decodedChild : Json → String → Option Json
  | .obj ms, s => lastMember ms s
  | .arr items, s =>
      match Decimal.parseInt s.toList with
      | some i => if i < 0 then none else items[i.toNat]?
      | none => none
  | _, _ => none

/-- What `*` stands for: the sorted keys of an object, and the indices of an array. -/
def wildcardKeys : Json → List String
  | .obj ms => (Names.uniq (ms.map Prod.fst)).mergeSort (· ≤ ·)
  | .arr items => (List.range items.length).map indexText
  | _ => []

def isObject : Json → Bool
  | .obj _ => true
  | _ => false

/-- The paths of the nodes that the segments match; the last segment need not exist in an
object. -/
def places : Json → List String → List (List String)
  | _, [] => [[]]
  | node, seg :: rest =>
      let segment := Text.trimSpace seg
      if segment = "" then []
      else if segment = "*" then
        (wildcardKeys node).flatMap fun key =>
          match decodedChild node key with
          | some c => (places c rest).map (key :: ·)
          | none => []
      else if isObject node ∧ rest = [] then [[segment]]
      else
        match decodedChild node segment with
        | some c => (places c rest).map (segment :: ·)
        | none => []

/-- `collectWildcardPaths`, called without a prefix: `places`, joined. -/
def collectWildcardPaths (node : Json) (segs : List String) : List String :=
  (places node segs).map fun p => Text.join p '.'

/-- `resolveOperationPaths`, with `expandWildcardPaths`. -/
def resolveOperationPaths (doc : Json) (path : String) : List String :=
  if Text.contains path "*" then Names.uniq (collectWildcardPaths doc (segments path))
  else [path]

/-- An operation of `applyOperations` on a path. -/
def applyOperation (env : Env) (op : NodeOperation) (doc : Json) (path : String) :
    Except String Json :=
  (resolveOperationPaths doc path).foldlM (fun doc path => applyAt env doc path op) doc

/-- The `delete` operation of `applyOperations`. -/
def applyDelete (doc : Json) (path : String) : Json :=
  (resolveOperationPaths doc path).foldl deleteValue doc

/-! ## What is meant -/

/-- What becomes of a string, if the change does not fail. -/
def changed (change : Change) : Option Json → Option Json
  | some (.str s) =>
      match change s with
      | .ok (some t) => some (.str t)
      | .ok none => some (.str s)
      | .error _ => none
  | _ => none

/-- What the operation makes of a node alone, which need not be there. -/
def effect (env : Env) : NodeOperation → Option Json → Option Json
  | .set value keepOrigin, current =>
      if keepOrigin ∧ current.isSome then current else some value
  | .trimPrefix value, current => changed (trimmed value true) current
  | .trimSuffix value, current => changed (trimmed value false) current
  | .ensurePrefix value, current => changed (ensured value true) current
  | .ensureSuffix value, current => changed (ensured value false) current
  | .trimSpace, current => changed (transformed Text.trimSpace) current
  | .toLower, current => changed (transformed Text.toLower) current
  | .toUpper, current => changed (transformed toUpper) current
  | .replace source target, current => changed (replaced source target) current
  | .regexReplace pattern replacement, current =>
      changed (regexReplaced env pattern replacement) current

/-- The child that a segment names; an element is named by any text of its index. -/
def childAt : Json → String → Option Json
  | .obj ms, s => member ms s
  | .arr items, s =>
      match Decimal.parseInt s.toList with
      | some i => if i < 0 then none else items[i.toNat]?
      | none => none
  | _, _ => none

def replaceChild : Json → String → Json → Json
  | .obj ms, s, c => .obj (setMember ms s c)
  | .arr items, s, c =>
      match Decimal.parseInt s.toList with
      | some i => .arr (items.set i.toNat c)
      | none => .arr items
  | j, _, _ => j

def removeChild : Json → String → Json
  | .obj ms, s => .obj (ms.eraseP (·.1 = s))
  | .arr items, s =>
      match Decimal.parseInt s.toList with
      | some i => .arr (items.eraseIdx i.toNat)
      | none => .arr items
  | j, _ => j

/-- The document with every matched node changed, unless a change fails. -/
def matched (f : Option Json → Option Json) : Json → List String → Option Json
  | node, [] => f (some node)
  | node, seg :: rest =>
      let segment := Text.trimSpace seg
      if segment = "" then some node
      else if segment = "*" then
        ((entries node).mapM fun e => (matched f e.2 rest).map (e.1, ·)).map (ofEntries node)
      else if isObject node ∧ rest = [] then
        (f (childAt node segment)).map (replaceChild node segment)
      else
        match childAt node segment with
        | some c => (matched f c rest).map (replaceChild node segment)
        | none => some node

/-- The document without the matched nodes. -/
def withoutMatched : Json → List String → Json
  | node, [] => node
  | node, seg :: rest =>
      let segment := Text.trimSpace seg
      if segment = "" then node
      else if segment = "*" then
        if rest = [] then ofEntries node []
        else ofEntries node ((entries node).map fun e => (e.1, withoutMatched e.2 rest))
      else
        match childAt node segment with
        | some c =>
            if rest = [] then removeChild node segment
            else replaceChild node segment (withoutMatched c rest)
        | none => node

/-- Operations change every node that the path matches and no other, and a deletion removes
them and nothing else. -/
structure Acts (env : Env) (doc : Json) (path : String) : Prop where
  operation : ∀ op, (applyOperation env op doc path).toOption =
    if Text.contains path "*" then matched (effect env op) doc (segments path)
    else (applyAt env doc path op).toOption
  delete : applyDelete doc path =
    if Text.contains path "*" then withoutMatched doc (segments path) else deleteValue doc path

/-! ## When it is done -/

/-- On the way to a matched node, the elements of arrays are named by digits. -/
def Digits : Json → List String → Prop
  | _, [] => True
  | node, seg :: rest =>
      let segment := Text.trimSpace seg
      if segment = "" then True
      else if segment = "*" then ∀ e ∈ entries node, Digits e.2 rest
      else if isObject node ∧ rest = [] then True
      else
        ∀ c, childAt node segment = some c → places c rest ≠ [] →
          (isObject node ∨ index segment ≠ none) ∧ Digits c rest

/-- The arrays of which every element is matched have one element at most. -/
def Single : Json → List String → Prop
  | _, [] => True
  | node, seg :: rest =>
      let segment := Text.trimSpace seg
      if segment = "" then True
      else if segment = "*" then
        (rest = [] → ∀ items, node = .arr items → items.length ≤ 1) ∧
          ∀ e ∈ entries node, Single e.2 rest
      else ∀ c, childAt node segment = some c → Single c rest

/-- The paths of the matched nodes lead to them, and deleting one moves no other. -/
structure Addressed (doc : Json) (segs : List String) : Prop where
  plain : ∀ p ∈ places doc segs, ∀ s ∈ p, '.' ∉ s.toList
  named : ∀ p ∈ places doc segs, Text.trimSpace (Text.join p '.') ≠ ""
  digits : Digits doc segs
  single : Single doc segs

/-! ## One node -/

section

variable {env : Env} {doc : Json} {path : String} {change : Change} {op : NodeOperation}

theorem toOption_setText (hpath : path ≠ "") (v : Json) :
    (setText doc path v).toOption = set doc (segments path) v := by
  rw [setText, if_neg hpath]
  cases set doc (segments path) v <;> rfl

theorem toOption_changeString (hpath : path ≠ "") :
    (changeString doc path change).toOption =
      (changed change (getText doc path)).bind (set doc (segments path)) := by
  cases hc : getText doc path with
  | none => simp only [changeString, hc, changed, Except.toOption, Option.bind_none]
  | some current =>
      cases current with
      | str s =>
          cases hchange : change s with
          | error e =>
              simp only [changeString, hc, changed, hchange, Option.bind_none]
              rfl
          | ok t =>
              simp only [changeString, hc, changed, hchange]
              cases t with
              | none => exact (set_self hc).symm
              | some t => exact toOption_setText hpath (.str t)
      | _ => simp only [changeString, hc, changed, Except.toOption, Option.bind_none]

theorem toOption_applyAt (hpath : path ≠ "") : (applyAt env doc path op).toOption =
    (effect env op (getText doc path)).bind (set doc (segments path)) := by
  cases op with
  | set value keepOrigin =>
      rw [applyAt, effect]
      split
      next h =>
        obtain ⟨c, hc⟩ := Option.isSome_iff_exists.1 h.2
        rw [hc, Option.bind_some]
        exact (set_self hc).symm
      next => exact toOption_setText hpath value
  | _ => exact toOption_changeString hpath

end

/-! ## Decoded documents -/

section

variable {node c : Json} {s key : String} {ms : List (String × Json)} {items : List Json}

/-- With distinct names the last member of a name is the first. -/
theorem lastMember_eq (h : (ms.map Prod.fst).Nodup) : lastMember ms key = member ms key := by
  rw [lastMember]
  cases hm : member ms key with
  | none =>
      rw [member_eq_none_iff] at hm ⊢
      rwa [List.map_reverse, List.mem_reverse]
  | some v =>
      refine member_of_mem ?_ (List.mem_reverse.2 (mem_of_member hm))
      rwa [List.map_reverse, List.nodup_reverse]

theorem decodedChild_eq (h : Distinct node) (s : String) :
    decodedChild node s = childAt node s := by
  cases node with
  | obj ms => exact lastMember_eq h.nodup
  | arr items => rfl
  | _ => rfl

theorem parseInt_indexText (i : ℕ) : Decimal.parseInt (indexText i).toList = some (i : ℤ) := by
  rw [indexText, String.toList_ofList]
  exact Decimal.parseInt_formatInt (i : ℤ)

theorem index_eq_parseInt {i : ℕ} (h : index s = some i) :
    Decimal.parseInt s.toList = some (i : ℤ) := by
  have hparse := h
  rw [index, Decimal.parseNat] at hparse
  split at hparse
  next hdigits => rw [Decimal.parseInt_of_isDigit hdigits.2, ← index, h]; rfl
  next => cases hparse

/-- What the dotted path reads is the child. -/
theorem childAt_of_child (h : child node s = some c) : childAt node s = some c := by
  cases node with
  | obj ms => exact h
  | arr items =>
      rw [child, Option.bind_eq_some_iff] at h
      obtain ⟨i, hi, hc⟩ := h
      simp only [childAt, index_eq_parseInt hi]
      rw [if_neg (by omega)]
      exact hc
  | _ => cases h

theorem child_of_childAt (hnamed : isObject node = true ∨ index s ≠ none)
    (h : childAt node s = some c) : child node s = some c := by
  cases node with
  | obj ms => exact h
  | arr items =>
      rcases hnamed with hobj | hindex
      · cases hobj
      · obtain ⟨i, hi⟩ := Option.ne_none_iff_exists'.1 hindex
        simp only [childAt, index_eq_parseInt hi] at h
        rw [if_neg (by omega)] at h
        rw [child, hi]
        exact h
  | _ => cases h

theorem childAt_entry (h : key ∈ (entries node).map Prod.fst) :
    childAt node key = child node key := by
  cases node with
  | obj ms => rfl
  | arr items =>
      obtain ⟨i, -, rfl⟩ := index_of_mem_entries h
      simp only [childAt, parseInt_indexText, child, index_indexText, Option.bind_some]
      rw [if_neg (by omega), Int.toNat_natCast]
  | _ => cases h

theorem mem_wildcardKeys : key ∈ wildcardKeys node ↔ key ∈ (entries node).map Prod.fst := by
  cases node with
  | obj ms => rw [wildcardKeys, List.mem_mergeSort, Names.mem_uniq]; rfl
  | arr items =>
      rw [wildcardKeys, List.mem_map]
      constructor
      · rintro ⟨i, hi, rfl⟩
        rw [List.mem_range] at hi
        refine List.mem_map.2 ⟨(indexText i, items[i]), ?_, rfl⟩
        have hzip := List.mk_mem_zipIdx_iff_getElem?.2 (List.getElem?_eq_getElem hi)
        exact List.mem_map.2 ⟨(items[i], i), hzip, rfl⟩
      · intro h
        obtain ⟨i, hi, rfl⟩ := index_of_mem_entries h
        exact ⟨i, List.mem_range.2 hi, rfl⟩
  | _ => exact Iff.rfl

theorem nodup_wildcardKeys (node : Json) : (wildcardKeys node).Nodup := by
  cases node with
  | obj ms => exact (List.mergeSort_perm _ _).nodup_iff.2 (Names.nodup_uniq _)
  | arr items => exact List.nodup_range.map fun _ _ => indexText_injective
  | _ => exact List.nodup_nil

theorem exists_entry (h : key ∈ wildcardKeys node) : ∃ c, childAt node key = some c ∧
    (key, c) ∈ entries node := by
  rw [mem_wildcardKeys] at h
  have hmember : member (entries node) key ≠ none := by
    rw [Ne, member_eq_none_iff, not_not]
    exact h
  obtain ⟨c, hc⟩ := Option.ne_none_iff_exists'.1 hmember
  exact ⟨c, by rw [childAt_entry h, child_eq_member h, hc], mem_of_member hc⟩

theorem childAt_of_mem_entries (h : Distinct node) (he : (key, c) ∈ entries node) :
    childAt node key = some c := by
  have hkey := List.mem_map_of_mem (f := Prod.fst) he
  rw [childAt_entry hkey, child_eq_member hkey, member_of_mem h.nodup he]

theorem distinct_childAt (h : Distinct node) (hc : childAt node s = some c) : Distinct c := by
  cases node with
  | obj ms => exact h.of_mem (e := (s, c)) (mem_of_member hc)
  | arr items =>
      rw [childAt] at hc
      split at hc
      next i hi =>
        split at hc
        next => cases hc
        next =>
          refine h.of_mem (e := (indexText i.toNat, c)) ?_
          exact List.mem_map.2 ⟨(c, i.toNat), List.mk_mem_zipIdx_iff_getElem?.2 hc, rfl⟩
      next => cases hc
  | _ => cases hc

end

/-! ## Matched nodes below a child -/

/-- What the rest of a path matches below a child. -/
def below (node : Json) (rest : List String) (key : String) : List (List String) :=
  match decodedChild node key with
  | some c => (places c rest).map (key :: ·)
  | none => []

section

variable {node c : Json} {seg k : String} {rest p : List String}

theorem places_cons (node : Json) (seg : String) (rest : List String) :
    places node (seg :: rest) =
      if Text.trimSpace seg = "" then []
      else if Text.trimSpace seg = "*" then (wildcardKeys node).flatMap (below node rest)
      else if isObject node = true ∧ rest = [] then [[Text.trimSpace seg]]
      else below node rest (Text.trimSpace seg) := by
  rw [places]
  rfl

theorem below_of_childAt (hnode : Distinct node) (hc : childAt node k = some c) :
    below node rest k = (places c rest).map (k :: ·) := by
  rw [below, decodedChild_eq hnode, hc]

theorem below_of_none (hnode : Distinct node) (hc : childAt node k = none) :
    below node rest k = [] := by
  rw [below, decodedChild_eq hnode, hc]

theorem mem_below : p ∈ below node rest k ↔
    ∃ c q, decodedChild node k = some c ∧ q ∈ places c rest ∧ p = k :: q := by
  rw [below]
  cases decodedChild node k with
  | none => exact iff_of_false List.not_mem_nil (by rintro ⟨c, q, ⟨⟩, -⟩)
  | some c =>
      dsimp only
      rw [List.mem_map]
      constructor
      · rintro ⟨q, hq, rfl⟩
        exact ⟨c, q, rfl, hq, rfl⟩
      · rintro ⟨c', q, hc, hq, rfl⟩
        cases hc
        exact ⟨q, hq, rfl⟩

/-- A path below a wildcard. -/
theorem exists_of_mem_star (hnode : Distinct node)
    (hp : p ∈ (wildcardKeys node).flatMap (below node rest)) :
    ∃ k c q, p = k :: q ∧ childAt node k = some c ∧ (k, c) ∈ entries node ∧
      q ∈ places c rest := by
  obtain ⟨k, hk, hp⟩ := List.mem_flatMap.1 hp
  obtain ⟨c, hc, he⟩ := exists_entry hk
  rw [below_of_childAt hnode hc] at hp
  obtain ⟨q, hq, rfl⟩ := List.mem_map.1 hp
  exact ⟨k, c, q, rfl, hc, he, hq⟩

end

/-! ## The children of a node -/

section

variable {node c : Json} {s : String} {es : List (String × Json)}

theorem put_eq_replaceChild (h : child node s = some c) (v : Json) :
    put node s v = some (replaceChild node s v) := by
  rw [put_eq_putIn (isContainer_of_child h)]
  cases node with
  | obj ms => rfl
  | arr items =>
      rw [child, Option.bind_eq_some_iff] at h
      obtain ⟨i, hi, hc⟩ := h
      have hlt := (List.getElem?_eq_some_iff.1 hc).1
      simp only [putIn, hi, setItem, if_pos hlt, replaceChild, index_eq_parseInt hi,
        Int.toNat_natCast]
  | _ => cases h

theorem replaceChild_self (h : childAt node s = some c) : replaceChild node s c = node := by
  cases node with
  | obj ms => rw [replaceChild, setMember_self h]
  | arr items =>
      rw [childAt] at h
      rw [replaceChild]
      split at h
      next i hi =>
        split at h
        next => cases h
        next =>
          obtain ⟨hlt, rfl⟩ := List.getElem?_eq_some_iff.1 h
          rw [List.set_getElem_self]
      next => cases h
  | _ => cases h

theorem childAt_replaceChild (h : childAt node s = some c) (v : Json) :
    childAt (replaceChild node s v) s = some v := by
  cases node with
  | obj ms => rw [replaceChild, childAt, member_setMember, if_pos rfl]
  | arr items =>
      rw [childAt] at h
      rw [replaceChild]
      split at h
      next i hi =>
        split at h
        next => cases h
        next hnonneg =>
          have hlt := (List.getElem?_eq_some_iff.1 h).1
          simp only [childAt, hi]
          rw [if_neg hnonneg, List.getElem?_set_self hlt]
      next => cases h
  | _ => cases h

/-- The children of a container with other entries are among them. -/
theorem childAt_ofEntries (hes : (es.map Prod.fst).Nodup)
    (hkeys : es.map Prod.fst = (entries node).map Prod.fst) (hc : (s, c) ∈ es) :
    childAt (ofEntries node es) s = some c := by
  have hentries := entries_ofEntries hkeys
  have hkey : s ∈ (entries (ofEntries node es)).map Prod.fst := by
    rw [hentries]
    exact List.mem_map_of_mem (f := Prod.fst) hc
  rw [childAt_entry hkey, child_eq_member hkey, hentries, member_of_mem hes hc]

end

end DazeApi.Overrides.Wildcard

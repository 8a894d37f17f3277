import DazeApi.Lib.Assoc
import DazeApi.Lib.Failing
import DazeApi.Lib.Text

/-!
# Header overrides and header passthrough

`processHeaderOverride` (`relay/channel/api_request.go`) forwards client headers by rules and then
sets the literal overrides of `GetEffectiveHeaderOverride` (`relay/common/override.go`).  The rules
are matched as their keys are normalized, in lower case, and entries whose keys are normalized to
one key overwrite each other in the order of the iteration (`faithful_iff`).
-/

namespace DazeApi.Overrides.HeaderPassthrough

open Assoc

/-! ## Requests -/

structure Header where
  name : String
  value : String

/-- The name under which a header is forwarded. -/
def Header.key (h : Header) : String := Text.toLower (Text.trimSpace h.name)

/-- `http.Header`, with the first value of each header. -/
structure HeaderMap where
  headers : List Header
  distinct : (headers.map Header.key).Nodup

/-- `textproto.CanonicalMIMEHeaderKey`, of a token. -/
def canonicalMIMEHeaderKey (name : String) : String :=
  String.ofList ((name.toList.foldl
    (fun (acc : List Char × Bool) c =>
      (acc.1 ++ [if acc.2 then c.toUpper else c.toLower], c = '-')) ([], true)).1)

/-- `Header.Get`. -/
def HeaderMap.get (hs : HeaderMap) (name : String) : String :=
  match hs.headers.find? (·.name = canonicalMIMEHeaderKey name) with
  | some h => h.value
  | none => ""

/-- The compiler of regular expressions, the client's headers and the key of the channel. -/
structure Env where
  compile : String → Option (String → Bool)
  client : HeaderMap
  apiKey : String

inductive OverrideError where
  | emptyPattern (key : String)
  | badPattern (pattern : String)
  | placeholderNotWhole (template : String)
  | placeholderNoName (template : String)

/-! ## Rules -/

def passthroughSkipHeaderNamesLower : List String :=
  ["connection", "keep-alive", "proxy-authenticate", "proxy-authorization", "te", "trailer",
    "transfer-encoding", "upgrade", "cookie", "host", "content-length", "accept-encoding",
    "authorization", "x-api-key", "x-goog-api-key", "sec-websocket-key",
    "sec-websocket-version", "sec-websocket-extensions"]

def shouldSkipPassthroughHeader (name : String) : Bool :=
  Text.trimSpace name = "" ||
    passthroughSkipHeaderNamesLower.contains (Text.toLower (Text.trimSpace name))

def isHeaderPassthroughRuleKey (key : String) : Bool :=
  let key := Text.trimSpace key
  key ≠ "" &&
    (key = "*" || Text.hasPrefix (Text.toLower key) "re:" ||
      Text.hasPrefix (Text.toLower key) "regex:")

def normalizeHeaderContextKey (key : String) : String := Text.trimSpace (Text.toLower key)

/-- The pattern of a key, if it is a rule with one. -/
def rulePattern (key : String) : Option String :=
  let key := normalizeHeaderContextKey key
  if Text.hasPrefix key "re:" then some (Text.trimSpace (Text.dropPrefix key "re:"))
  else if Text.hasPrefix key "regex:" then some (Text.trimSpace (Text.dropPrefix key "regex:"))
  else none

/-- `getHeaderPassthroughRegex`, without its cache. -/
def getHeaderPassthroughRegex (env : Env) (key pattern : String) :
    Except OverrideError (String → Bool) :=
  if pattern = "" then .error (.emptyPattern key)
  else
    match env.compile (Text.trimSpace pattern) with
    | some re => .ok re
    | none => .error (.badPattern pattern)

/-! ## Overrides -/

/-- The entry under its normalized key; blank values are left out, but for rules. -/
def sanitizeEntry (e : String × String) : Option (String × String) :=
  let key := normalizeHeaderContextKey e.1
  let value := Text.trimSpace e.2
  if key = "" then none
  else if value = "" then
    if isHeaderPassthroughRuleKey key then some (key, "") else none
  else some (key, value)

/-- `sanitizeHeaderOverrideMap`, in the order in which the entries are met. -/
def sanitizeHeaderOverrideMap (source : List (String × String)) : List (String × String) :=
  ofEntries (source.filterMap sanitizeEntry)

/-- `applyHeaderOverridePlaceholders`. -/
def applyHeaderOverridePlaceholders (env : Env) (template : String) :
    Except OverrideError (Option String) :=
  let trimmed := Text.trimSpace template
  if Text.hasPrefix trimmed "\x7bclient_header:" then
    let after := (Text.dropPrefix trimmed "\x7bclient_header:").toList
    if after.getLast? = some '\x7d' ∧ '\x7d' ∉ after.dropLast then
      let name := Text.trimSpace (String.ofList after.dropLast)
      if name = "" then .error (.placeholderNoName template)
      else
        let value := env.client.get name
        if Text.trimSpace value = "" then .ok none else .ok (some value)
    else .error (.placeholderNotWhole template)
  else
    let template := Text.replaceAll template "\x7bapi_key\x7d" env.apiKey
    if Text.trimSpace template = "" then .ok none else .ok (some template)

/-- The compiled rules, in the order of the keys. -/
def passthroughRegex (env : Env) (keys : List String) :
    Except OverrideError (List (String → Bool)) :=
  (keys.filterMap fun key => (rulePattern key).map (getHeaderPassthroughRegex env key)).mapM id

def isForwarded (passAll : Bool) (regex : List (String → Bool)) (h : Header) : Bool :=
  !shouldSkipPassthroughHeader h.name && (passAll || regex.any (· h.name)) &&
    Text.trimSpace h.value ≠ ""

/-- `processHeaderOverride`, for maps that are iterated in the given orders: the sanitized
overrides for the rules and for the literals, and the headers. -/
def processHeaderOverride (env : Env) (rules literals : List (String × String))
    (headers : List Header) : Except OverrideError (List (String × String)) := do
  let passAll := rules.any fun e => normalizeHeaderContextKey e.1 = "*"
  let regex ← passthroughRegex env (rules.map Prod.fst)
  let passed := (headers.filter (isForwarded passAll regex)).map fun h =>
    (h.key, Text.trimSpace h.value)
  let overrides ← (literals.filter fun e => !isHeaderPassthroughRuleKey e.1).mapM fun e =>
    (applyHeaderOverridePlaceholders env e.2).map fun value =>
      value.map fun v => (normalizeHeaderContextKey e.1, v)
  return ofEntries (passed ++ overrides.filterMap id)

/-- What the overrides may come to: maps are iterated in any order, and in any other order anew. -/
def Outcome (env : Env) (source : List (String × String))
    (result : Except OverrideError (List (String × String))) : Prop :=
  ∃ source' rules literals headers, source'.Perm source ∧
    rules.Perm (sanitizeHeaderOverrideMap source') ∧
    literals.Perm (sanitizeHeaderOverrideMap source') ∧
    headers.Perm env.client.headers ∧
    result = processHeaderOverride env rules literals headers

/-! ## What is meant -/

/-- The pattern of a key as it is written. -/
def writtenPattern (key : String) : Option String :=
  let key := Text.trimSpace key
  if Text.hasPrefix (Text.toLower key) "re:" then
    some (Text.trimSpace (String.ofList (key.toList.drop 3)))
  else if Text.hasPrefix (Text.toLower key) "regex:" then
    some (Text.trimSpace (String.ofList (key.toList.drop 6)))
  else none

/-- Does a rule match the name, as it is written? -/
def writtenMatch (env : Env) (source : List (String × String)) (name : String) : Prop :=
  ∃ e ∈ source, ∃ pattern re, writtenPattern e.1 = some pattern ∧
    env.compile pattern = some re ∧ re name = true

def hasStar (source : List (String × String)) : Prop :=
  ∃ e ∈ source, normalizeHeaderContextKey e.1 = "*"

/-- The literal overrides, with a value that is not blank. -/
def literal (e : String × String) : Option (String × String) :=
  let key := normalizeHeaderContextKey e.1
  let value := Text.trimSpace e.2
  if key = "" ∨ isHeaderPassthroughRuleKey key ∨ value = "" then none else some (key, value)

def literals (source : List (String × String)) : List (String × String) :=
  source.filterMap literal

/-- No literal override names the header, not even one with a blank value. -/
def Unnamed (source : List (String × String)) (h : Header) : Prop :=
  ∀ e ∈ source, ¬ isHeaderPassthroughRuleKey (normalizeHeaderContextKey e.1) →
    normalizeHeaderContextKey e.1 ≠ h.key

def Meant (env : Env) (source : List (String × String)) (h : Header) : Prop :=
  shouldSkipPassthroughHeader h.name = false ∧ Text.trimSpace h.value ≠ "" ∧
    (hasStar source ∨ writtenMatch env source h.name)

/-- A pattern as written is empty or no regular expression, or a placeholder is malformed. -/
def Invalid (env : Env) (source : List (String × String)) : Prop :=
  (∃ e ∈ source, ∃ pattern, writtenPattern e.1 = some pattern ∧
    (pattern = "" ∨ env.compile pattern = none)) ∨
  ∃ e ∈ literals source, ∃ err, applyHeaderOverridePlaceholders env e.2 = .error err

/-- A result is what the rules say. -/
inductive Right (env : Env) (source : List (String × String)) :
    Except OverrideError (List (String × String)) → Prop where
  | error (err : OverrideError) (invalid : Invalid env source) : Right env source (.error err)
  | ok (m : List (String × String))
      (forwarded : ∀ h ∈ env.client.headers, Unnamed source h →
        (Meant env source h → value m h.key = some (Text.trimSpace h.value)) ∧
          (¬ Meant env source h → value m h.key = none))
      (wins : ∀ e ∈ literals source, ∀ v, applyHeaderOverridePlaceholders env e.2 = .ok (some v) →
        value m e.1 = some v) : Right env source (.ok m)

/-- Two results are the same, whatever the text of an error is. -/
inductive Same : Except OverrideError (List (String × String)) →
    Except OverrideError (List (String × String)) → Prop where
  | error (err err' : OverrideError) : Same (.error err) (.error err')
  | ok (m m' : List (String × String)) (h : ∀ key, value m key = value m' key) :
      Same (.ok m) (.ok m')

/-- Whatever the orders, the result is right, and it is always the same. -/
structure Faithful (env : Env) (source : List (String × String)) : Prop where
  right : ∀ result, Outcome env source result → Right env source result
  same : ∀ result result', Outcome env source result → Outcome env source result' →
    Same result result'

/-! ## When it is -/

/-- A pattern is empty or no regular expression, as it is normalized. -/
def BadRule (env : Env) (source : List (String × String)) : Prop :=
  ∃ e ∈ source, ∃ pattern, rulePattern e.1 = some pattern ∧
    (pattern = "" ∨ env.compile pattern = none)

/-- Does a rule match the name, as it is normalized? -/
def lowerMatch (env : Env) (source : List (String × String)) (name : String) : Prop :=
  ∃ e ∈ source, ∃ pattern re, rulePattern e.1 = some pattern ∧ env.compile pattern = some re ∧
    re name = true

/-- What an override comes to, if it is well formed. -/
def resolve (env : Env) (template : String) : Option String :=
  match applyHeaderOverridePlaceholders env template with
  | .ok value => value
  | .error _ => none

def isMalformed (env : Env) (template : String) : Bool :=
  match applyHeaderOverridePlaceholders env template with
  | .ok _ => false
  | .error _ => true

/-- The headers that are forwarded by the normalized rules. -/
def passedEntries (env : Env) (source : List (String × String)) : List (String × String) :=
  (env.client.headers.filter (isForwarded
    (source.any fun e => normalizeHeaderContextKey e.1 = "*")
    (source.filterMap fun e => (rulePattern e.1).bind env.compile))).map fun h =>
      (h.key, Text.trimSpace h.value)

/-- What a literal override comes to, or what is forwarded in its place. -/
def effective (env : Env) (source : List (String × String)) (e : String × String) :
    Option String :=
  (resolve env e.2).or (value (passedEntries env source) e.1)

/-- Entries of one key come to one value, and the patterns match the same names in lower case. -/
structure Agree (env : Env) (source : List (String × String)) : Prop where
  wellFormed : ∀ e ∈ literals source, isMalformed env e.2 = false
  effective : ∀ e ∈ literals source, ∀ e' ∈ literals source, e.1 = e'.1 →
    effective env source e = effective env source e'
  lowerCase : ∀ h ∈ env.client.headers, Unnamed source h →
    shouldSkipPassthroughHeader h.name = false → Text.trimSpace h.value ≠ "" →
      ¬ hasStar source → (lowerMatch env source h.name ↔ writtenMatch env source h.name)

/-- With a bad rule something is invalid as it is written; and without one a literal override is
malformed in all its entries, or the entries agree. -/
def Settled (env : Env) (source : List (String × String)) : Prop :=
  BadRule env source ∧ Invalid env source ∨
    ¬ BadRule env source ∧
      ((∃ e ∈ literals source, ∀ e' ∈ literals source, e'.1 = e.1 →
          isMalformed env e'.2 = true) ∨ Agree env source)

/-! ## Keys -/

section

variable {env : Env} {source source' : List (String × String)} {e e' : String × String}
  {key pattern : String}

theorem toLower_toLower (c : Char) : c.toLower.toLower = c.toLower := by
  by_cases hc : c.toNat ∈ List.range' 65 26
  · have hall : ∀ n ∈ List.range' 65 26,
        (Char.ofNat n).toLower.toLower = (Char.ofNat n).toLower := by decide
    have h := hall c.toNat hc
    rwa [Char.ofNat_toNat] at h
  · have hself : c.toLower = c := by
      refine dif_neg fun h => hc ?_
      rw [List.mem_range'_1]
      exact ⟨h.1, Nat.lt_succ_of_le h.2⟩
    rw [hself, hself]

theorem toLower_trimSpace_toLower (s : String) :
    Text.toLower (Text.trimSpace (Text.toLower s)) = Text.trimSpace (Text.toLower s) := by
  refine String.toList_inj.1 ?_
  rw [Text.toLower, String.toList_ofList]
  refine (List.map_congr_left fun c hc => ?_).trans (List.map_id _)
  have hmem := Text.mem_of_mem_trimSpace hc
  rw [Text.toLower, String.toList_ofList] at hmem
  obtain ⟨d, -, rfl⟩ := List.mem_map.1 hmem
  exact toLower_toLower d

theorem normalize_normalize (key : String) :
    normalizeHeaderContextKey (normalizeHeaderContextKey key) = normalizeHeaderContextKey key := by
  rw [normalizeHeaderContextKey, normalizeHeaderContextKey, toLower_trimSpace_toLower,
    Text.trimSpace_trimSpace]

theorem rulePattern_normalize (key : String) :
    rulePattern (normalizeHeaderContextKey key) = rulePattern key := by
  rw [rulePattern, normalize_normalize]
  rfl

theorem trimSpace_rulePattern (h : rulePattern key = some pattern) :
    Text.trimSpace pattern = pattern := by
  rw [rulePattern] at h
  split at h
  · rw [← Option.some.inj h, Text.trimSpace_trimSpace]
  · split at h
    · rw [← Option.some.inj h, Text.trimSpace_trimSpace]
    · cases h

/-- A key with a pattern is a rule. -/
theorem isRule_of_rulePattern (h : rulePattern key = some pattern) :
    normalizeHeaderContextKey key ≠ "" ∧
      isHeaderPassthroughRuleKey (normalizeHeaderContextKey key) = true := by
  have htrim : Text.trimSpace (normalizeHeaderContextKey key) = normalizeHeaderContextKey key :=
    Text.trimSpace_trimSpace _
  have hlower : Text.toLower (normalizeHeaderContextKey key) = normalizeHeaderContextKey key :=
    toLower_trimSpace_toLower key
  have hprefix : Text.hasPrefix (normalizeHeaderContextKey key) "re:" = true ∨
      Text.hasPrefix (normalizeHeaderContextKey key) "regex:" = true := by
    rw [rulePattern] at h
    split at h
    next h' => exact Or.inl h'
    next =>
      split at h
      next h' => exact Or.inr h'
      next => cases h
  have hne : normalizeHeaderContextKey key ≠ "" := by
    intro hempty
    rw [hempty] at hprefix
    exact absurd hprefix (by decide)
  refine ⟨hne, ?_⟩
  rw [isHeaderPassthroughRuleKey, htrim, hlower]
  rcases hprefix with hprefix | hprefix <;> simp [hne, hprefix]

/-! ## Entries -/

/-- A rule is kept, whatever its value. -/
theorem sanitizeEntry_of_isRule (hne : normalizeHeaderContextKey e.1 ≠ "")
    (h : isHeaderPassthroughRuleKey (normalizeHeaderContextKey e.1) = true) :
    ∃ v, sanitizeEntry e = some (normalizeHeaderContextKey e.1, v) := by
  rw [sanitizeEntry, if_neg hne, if_pos h]
  split
  · exact ⟨_, rfl⟩
  · exact ⟨_, rfl⟩

theorem key_of_sanitizeEntry (h : sanitizeEntry e = some e') :
    e'.1 = normalizeHeaderContextKey e.1 := by
  rw [sanitizeEntry] at h
  generalize normalizeHeaderContextKey e.1 = key at *
  generalize Text.trimSpace e.2 = v at *
  split at h
  · cases h
  · split at h
    · split at h
      · cases h; rfl
      · cases h
    · cases h; rfl

/-- The literal overrides are the sanitized entries that are no rules. -/
theorem literal_eq_some_iff :
    literal e = some e' ↔ sanitizeEntry e = some e' ∧ isHeaderPassthroughRuleKey e'.1 = false := by
  rw [literal, sanitizeEntry]
  generalize normalizeHeaderContextKey e.1 = key
  generalize Text.trimSpace e.2 = v
  by_cases hempty : key = ""
  · simp [hempty]
  · by_cases hrule : isHeaderPassthroughRuleKey key = true
    · rw [if_pos (Or.inr (Or.inl hrule)), if_neg hempty, if_pos hrule]
      refine iff_of_false (fun h => nomatch h) ?_
      rintro ⟨h, h'⟩
      split at h <;> (cases h; exact absurd hrule (by rw [h']; decide))
    · rw [Bool.not_eq_true] at hrule
      by_cases hvalue : v = ""
      · simp [hempty, hrule, hvalue]
      · rw [if_neg (by simp [hempty, hrule, hvalue]), if_neg hempty, if_neg hvalue]
        constructor
        · rintro h
          cases h
          exact ⟨rfl, hrule⟩
        · exact fun h => h.1

theorem mem_literals_iff : e' ∈ literals source ↔
    e' ∈ source.filterMap sanitizeEntry ∧ isHeaderPassthroughRuleKey e'.1 = false := by
  rw [literals, List.mem_filterMap, List.mem_filterMap]
  simp only [literal_eq_some_iff]
  constructor
  · rintro ⟨e, he, h, hrule⟩
    exact ⟨⟨e, he, h⟩, hrule⟩
  · rintro ⟨⟨e, he, h⟩, hrule⟩
    exact ⟨e, he, h, hrule⟩

/-- A property of keys holds for a sanitized entry exactly if it does for one of the source. -/
theorem exists_sanitized_iff {p : String → Prop} (hp : ∀ key, p key →
      normalizeHeaderContextKey key ≠ "" ∧
        isHeaderPassthroughRuleKey (normalizeHeaderContextKey key) = true)
    (hnormalize : ∀ key, p (normalizeHeaderContextKey key) ↔ p key)
    (hperm : source'.Perm source) {t : List (String × String)}
    (ht : t.Perm (sanitizeHeaderOverrideMap source')) :
    (∃ e ∈ t, p e.1) ↔ ∃ e ∈ source, p e.1 := by
  constructor
  · rintro ⟨e', he', h⟩
    obtain ⟨e, he, heq⟩ := List.mem_filterMap.1 (mem_of_mem_ofEntries (ht.mem_iff.1 he'))
    refine ⟨e, hperm.mem_iff.1 he, (hnormalize e.1).1 ?_⟩
    rwa [← key_of_sanitizeEntry heq]
  · rintro ⟨e, he, h⟩
    obtain ⟨v, hv⟩ := sanitizeEntry_of_isRule (hp e.1 h).1 (hp e.1 h).2
    obtain ⟨e', he', hkey⟩ := key_mem_ofEntries
      (List.mem_filterMap.2 ⟨e, hperm.mem_iff.2 he, hv⟩)
    refine ⟨e', ht.mem_iff.2 he', ?_⟩
    rw [hkey]
    exact (hnormalize e.1).2 h

/-! ## One outcome -/

/-- The regular expressions of the source. -/
def sourceRegex (env : Env) (source : List (String × String)) : List (String → Bool) :=
  source.filterMap fun e => (rulePattern e.1).bind env.compile

def isBadPattern (env : Env) (key : String) : Prop :=
  ∃ pattern, rulePattern key = some pattern ∧ (pattern = "" ∨ env.compile pattern = none)

theorem getHeaderPassthroughRegex_eq (h : rulePattern key = some pattern) :
    getHeaderPassthroughRegex env key pattern =
      if pattern = "" then .error (.emptyPattern key)
      else
        match env.compile pattern with
        | some re => .ok re
        | none => .error (.badPattern pattern) := by
  rw [getHeaderPassthroughRegex, trimSpace_rulePattern h]

theorem passthroughRegex_error {keys : List String} (h : ∃ key ∈ keys, isBadPattern env key) :
    ∃ err, passthroughRegex env keys = .error err := by
  obtain ⟨key, hkey, pattern, hpattern, hbad⟩ := h
  refine Failing.mapM_error ⟨getHeaderPassthroughRegex env key pattern, ?_, ?_⟩
  · exact List.mem_filterMap.2 ⟨key, hkey, by rw [hpattern]; rfl⟩
  · rw [id, getHeaderPassthroughRegex_eq hpattern]
    split
    next => exact ⟨_, rfl⟩
    next hne =>
      rw [hbad.resolve_left hne]
      exact ⟨_, rfl⟩

/-- The compiled rules match what one of the patterns matches. -/
theorem passthroughRegex_ok {keys : List String} (h : ¬ ∃ key ∈ keys, isBadPattern env key) :
    ∃ regex, passthroughRegex env keys = .ok regex ∧ ∀ name, regex.any (· name) = true ↔
      ∃ key ∈ keys, ∃ pattern re, rulePattern key = some pattern ∧
        env.compile pattern = some re ∧ re name = true := by
  have hgood {key pattern : String} (hkey : key ∈ keys)
      (hpattern : rulePattern key = some pattern) : ∃ re, env.compile pattern = some re ∧
        getHeaderPassthroughRegex env key pattern = .ok re := by
    have hne : pattern ≠ "" := fun hempty => h ⟨key, hkey, pattern, hpattern, Or.inl hempty⟩
    cases hcompile : env.compile pattern with
    | none => exact absurd ⟨key, hkey, pattern, hpattern, Or.inr hcompile⟩ h
    | some re =>
        refine ⟨re, rfl, ?_⟩
        rw [getHeaderPassthroughRegex_eq hpattern, if_neg hne, hcompile]
  let regexOf (x : Except OverrideError (String → Bool)) : String → Bool :=
    match x with
    | .ok re => re
    | .error _ => fun _ => false
  refine ⟨_, Failing.mapM_ok (g := regexOf) fun x hx => ?_, fun name => ?_⟩
  · obtain ⟨key, hkey, hx⟩ := List.mem_filterMap.1 hx
    obtain ⟨pattern, hpattern, rfl⟩ := Option.map_eq_some_iff.1 hx
    obtain ⟨re, -, hre⟩ := hgood hkey hpattern
    rw [id, hre]
  · rw [List.any_eq_true]
    constructor
    · rintro ⟨re, hre, hname⟩
      obtain ⟨x, hx, rfl⟩ := List.mem_map.1 hre
      obtain ⟨key, hkey, hx⟩ := List.mem_filterMap.1 hx
      obtain ⟨pattern, hpattern, rfl⟩ := Option.map_eq_some_iff.1 hx
      obtain ⟨re, hcompile, hre⟩ := hgood hkey hpattern
      rw [hre] at hname
      exact ⟨key, hkey, pattern, re, hpattern, hcompile, hname⟩
    · rintro ⟨key, hkey, pattern, re, hpattern, hcompile, hname⟩
      obtain ⟨re', hcompile', hre'⟩ := hgood hkey hpattern
      rw [hcompile] at hcompile'
      cases hcompile'
      refine ⟨re, List.mem_map.2 ⟨getHeaderPassthroughRegex env key pattern, ?_, ?_⟩, hname⟩
      · exact List.mem_filterMap.2 ⟨key, hkey, by rw [hpattern]; rfl⟩
      · rw [hre']

/-- What one order picks of the literal overrides. -/
structure Pick (source picked : List (String × String)) : Prop where
  distinct : (picked.map Prod.fst).Nodup
  sound : ∀ e ∈ picked, e ∈ literals source
  complete : ∀ e ∈ literals source, ∃ e' ∈ picked, e'.1 = e.1

theorem pick_of_perm (hperm : source'.Perm source) {t : List (String × String)}
    (ht : t.Perm (sanitizeHeaderOverrideMap source')) :
    Pick source (t.filter fun e => !isHeaderPassthroughRuleKey e.1) where
  distinct := by
    have hnodup := (ht.map Prod.fst).nodup_iff.2 (nodup_ofEntries _)
    exact hnodup.sublist (List.filter_sublist.map _)
  sound := by
    intro e he
    obtain ⟨he, hrule⟩ := List.mem_filter.1 he
    rw [mem_literals_iff]
    refine ⟨?_, by simpa using hrule⟩
    exact (hperm.filterMap _).mem_iff.1 (mem_of_mem_ofEntries (ht.mem_iff.1 he))
  complete := by
    intro e he
    obtain ⟨he, hrule⟩ := mem_literals_iff.1 he
    obtain ⟨e', he', hkey⟩ := key_mem_ofEntries ((hperm.filterMap _).mem_iff.2 he)
    refine ⟨e', List.mem_filter.2 ⟨ht.mem_iff.2 he', ?_⟩, hkey⟩
    rw [hkey, hrule]
    rfl

/-- A result from the entries that were picked. -/
structure Result (env : Env) (source picked : List (String × String))
    (result : Except OverrideError (List (String × String))) : Prop where
  badRule : BadRule env source → ∃ err, result = .error err
  malformed : (∃ e ∈ picked, isMalformed env e.2 = true) → ∃ err, result = .error err
  wellFormed : ¬ BadRule env source → (∀ e ∈ picked, isMalformed env e.2 = false) →
    ∃ m, result = .ok m ∧ ∀ key, value m key =
      ((value picked key).bind (resolve env)).or (value (passedEntries env source) key)

theorem rulePattern_isRule (key : String) (h : isBadPattern env key) :
    normalizeHeaderContextKey key ≠ "" ∧
      isHeaderPassthroughRuleKey (normalizeHeaderContextKey key) = true := by
  obtain ⟨pattern, hpattern, -⟩ := h
  exact isRule_of_rulePattern hpattern

/-- The rules are those of the source, in whatever order they are met. -/
theorem rules_of_perm (env : Env) (hperm : source'.Perm source) {t : List (String × String)}
    (ht : t.Perm (sanitizeHeaderOverrideMap source')) :
    ((∃ key ∈ t.map Prod.fst, isBadPattern env key) ↔ BadRule env source) ∧
      (t.any fun e => normalizeHeaderContextKey e.1 = "*") =
        (source.any fun e => normalizeHeaderContextKey e.1 = "*") ∧
      ∀ name, (∃ key ∈ t.map Prod.fst, ∃ pattern re, rulePattern key = some pattern ∧
          env.compile pattern = some re ∧ re name = true) ↔
        (sourceRegex env source).any (· name) = true := by
  have hkeys (p : String → Prop) : (∃ key ∈ t.map Prod.fst, p key) ↔ ∃ e ∈ t, p e.1 := by simp
  refine ⟨?_, ?_, fun name => ?_⟩
  · rw [hkeys, exists_sanitized_iff rulePattern_isRule (fun key => ?_) hperm ht]
    · rfl
    · rw [isBadPattern, isBadPattern, rulePattern_normalize]
  · rw [Bool.eq_iff_iff, List.any_eq_true, List.any_eq_true]
    simp only [decide_eq_true_eq]
    refine exists_sanitized_iff (p := fun key => normalizeHeaderContextKey key = "*")
      (fun key hkey => ?_) (fun key => ?_) hperm ht
    · rw [hkey]
      decide
    · rw [normalize_normalize]
  · rw [hkeys, exists_sanitized_iff (p := fun key => ∃ pattern re,
      rulePattern key = some pattern ∧ env.compile pattern = some re ∧ re name = true)
      (fun key hkey => ?_) (fun key => ?_) hperm ht]
    · simp only [sourceRegex, List.any_eq_true, List.mem_filterMap, Option.bind_eq_some_iff]
      constructor
      · rintro ⟨e, he, pattern, re, hpattern, hcompile, hname⟩
        exact ⟨re, ⟨e, he, pattern, hpattern, hcompile⟩, hname⟩
      · rintro ⟨re, ⟨e, he, pattern, hpattern, hcompile⟩, hname⟩
        exact ⟨e, he, pattern, re, hpattern, hcompile, hname⟩
    · obtain ⟨pattern, -, hpattern, -⟩ := hkey
      exact isRule_of_rulePattern hpattern
    · simp only [rulePattern_normalize]

theorem apply_of_wellFormed {template : String} (h : isMalformed env template = false) :
    applyHeaderOverridePlaceholders env template = .ok (resolve env template) := by
  rw [isMalformed] at h
  rw [resolve]
  cases happly : applyHeaderOverridePlaceholders env template with
  | ok value => rfl
  | error err => rw [happly] at h; cases h

theorem apply_of_malformed {template : String} (h : isMalformed env template = true) :
    ∃ err, applyHeaderOverridePlaceholders env template = .error err := by
  rw [isMalformed] at h
  cases happly : applyHeaderOverridePlaceholders env template with
  | ok value => rw [happly] at h; cases h
  | error err => exact ⟨err, rfl⟩

theorem nodup_passed {headers : List Header} (hheaders : headers.Perm env.client.headers)
    (p : Header → Bool) :
    (((headers.filter p).map fun h => (h.key, Text.trimSpace h.value)).map Prod.fst).Nodup := by
  rw [List.map_map]
  have hnodup := (hheaders.map Header.key).nodup_iff.2 env.client.distinct
  exact hnodup.sublist (List.filter_sublist.map _)

/-- What comes of given orders. -/
theorem result_of_orders {rules literals : List (String × String)} {headers : List Header}
    (hperm : source'.Perm source) (hrules : rules.Perm (sanitizeHeaderOverrideMap source'))
    (hliterals : literals.Perm (sanitizeHeaderOverrideMap source'))
    (hheaders : headers.Perm env.client.headers) :
    Result env source (literals.filter fun e => !isHeaderPassthroughRuleKey e.1)
      (processHeaderOverride env rules literals headers) := by
  obtain ⟨hbad, hstar, hmatch⟩ := rules_of_perm env hperm hrules
  have hpick := pick_of_perm hperm hliterals
  generalize hpicked : (literals.filter fun e => !isHeaderPassthroughRuleKey e.1) = picked at *
  have hkey : ∀ e ∈ picked, normalizeHeaderContextKey e.1 = e.1 := by
    intro e he
    obtain ⟨e', -, he'⟩ := List.mem_filterMap.1 (mem_literals_iff.1 (hpick.sound e he)).1
    rw [key_of_sanitizeEntry he', normalize_normalize]
  rw [processHeaderOverride, hpicked, hstar]
  by_cases hbadRule : BadRule env source
  · obtain ⟨err, herr⟩ := passthroughRegex_error (hbad.2 hbadRule)
    rw [herr]
    exact ⟨fun _ => ⟨err, rfl⟩, fun _ => ⟨err, rfl⟩, fun h => absurd hbadRule h⟩
  · obtain ⟨regex, hregex, hany⟩ := passthroughRegex_ok fun h => hbadRule (hbad.1 h)
    rw [hregex]
    refine ⟨fun h => absurd h hbadRule, fun h => ?_, fun _ hwell => ?_⟩
    · obtain ⟨e, he, hmalformed⟩ := h
      obtain ⟨err, herr⟩ := apply_of_malformed hmalformed
      obtain ⟨err', herr'⟩ := Failing.mapM_error (f := fun e : String × String =>
        (applyHeaderOverridePlaceholders env e.2).map fun value =>
          value.map fun v => (normalizeHeaderContextKey e.1, v))
        ⟨e, he, err, by rw [herr]; rfl⟩
      refine ⟨err', ?_⟩
      simp only [bind, Except.bind, herr']
    · have hoverrides := Failing.mapM_ok (l := picked) (f := fun e : String × String =>
        (applyHeaderOverridePlaceholders env e.2).map fun value =>
          value.map fun v => (normalizeHeaderContextKey e.1, v))
        (g := fun e => (resolve env e.2).map fun v => (e.1, v)) (by
          intro e he
          rw [apply_of_wellFormed (hwell e he), hkey e he]
          rfl)
      refine ⟨_, by simp only [bind, Except.bind, hoverrides]; rfl, fun key => ?_⟩
      obtain ⟨hnodup, hvalue⟩ := value_filterMap hpick.distinct (resolve env) key
      have hfilter : (picked.map fun e => (resolve env e.2).map fun v => (e.1, v)).filterMap id =
          picked.filterMap fun e => (resolve env e.2).map fun v => (e.1, v) := by
        rw [List.filterMap_map, Function.id_comp]
      have hforwarded : isForwarded (source.any fun e => normalizeHeaderContextKey e.1 = "*")
          regex = isForwarded (source.any fun e => normalizeHeaderContextKey e.1 = "*")
            (sourceRegex env source) := by
        funext h
        have hsame : regex.any (· h.name) = (sourceRegex env source).any (· h.name) := by
          rw [Bool.eq_iff_iff, hany h.name, hmatch h.name]
        rw [isForwarded, isForwarded, hsame]
      rw [hfilter, value_ofEntries_append (nodup_passed hheaders _) hnodup, hvalue, hforwarded]
      refine congrArg _ (value_perm (nodup_passed (List.Perm.refl _) _) ?_)
      exact (hheaders.filter _).map _

/-! ## All outcomes -/

variable {result : Except OverrideError (List (String × String))} {h : Header}

/-- The literal overrides that an order of the source picks. -/
def picked (source : List (String × String)) : List (String × String) :=
  (sanitizeHeaderOverrideMap source).filter fun e => !isHeaderPassthroughRuleKey e.1

theorem outcome_result (houtcome : Outcome env source result) :
    ∃ p, Pick source p ∧ Result env source p result := by
  obtain ⟨source', rules, lits, headers, hperm, hrules, hliterals, hheaders, rfl⟩ := houtcome
  exact ⟨_, pick_of_perm hperm hliterals,
    result_of_orders hperm hrules hliterals hheaders⟩

/-- Every order of the source has an outcome. -/
theorem outcome_of_perm (env : Env) (hperm : source'.Perm source) :
    ∃ result, Outcome env source result ∧ Result env source (picked source') result :=
  ⟨_, ⟨source', _, _, _, hperm, .refl _, .refl _, .refl _, rfl⟩,
    result_of_orders hperm (.refl _) (.refl _) (.refl _)⟩

/-- Every literal override is picked by some order. -/
theorem exists_picked (h : e ∈ literals source) :
    ∃ source' : List (String × String), source'.Perm source ∧ e ∈ picked source' := by
  obtain ⟨e', he', hliteral⟩ := List.mem_filterMap.1 h
  obtain ⟨hsanitize, hrule⟩ := literal_eq_some_iff.1 hliteral
  obtain ⟨before, after, rfl⟩ := List.append_of_mem he'
  refine ⟨before ++ after ++ [e'], ?_, List.mem_filter.2 ⟨?_, by rw [hrule]; rfl⟩⟩
  · rw [List.append_assoc]
    exact (List.perm_append_singleton e' after).append_left before
  · rw [sanitizeHeaderOverrideMap, List.filterMap_append, List.filterMap_cons, hsanitize,
      List.filterMap_nil, ofEntries_concat]
    exact mem_assign.2 (Or.inr rfl)

/-- Malformed entries are overwritten where they can be. -/
theorem exists_wellFormed (env : Env) (h : ∀ e ∈ literals source, ∃ e' ∈ literals source,
      e'.1 = e.1 ∧ isMalformed env e'.2 = false) :
    ∃ source' : List (String × String), source'.Perm source ∧
      ∀ e ∈ picked source', isMalformed env e.2 = false := by
  let bad (e : String × String) : Bool :=
    match literal e with
    | some e' => isMalformed env e'.2
    | none => false
  have hbad {e e' : String × String} (he : literal e = some e') :
      bad e = isMalformed env e'.2 := by simp only [bad, he]
  refine ⟨source.filter bad ++ source.filter (!bad ·), List.filter_append_perm _ _, ?_⟩
  intro e he
  obtain ⟨he, hrule⟩ := List.mem_filter.1 he
  have hrule' : isHeaderPassthroughRuleKey e.1 = false := by simpa using hrule
  rw [sanitizeHeaderOverrideMap, List.filterMap_append] at he
  rcases mem_ofEntries_append he with he | ⟨he, hall⟩
  · obtain ⟨e', he', hsanitize⟩ := List.mem_filterMap.1 he
    rw [← hbad (literal_eq_some_iff.2 ⟨hsanitize, hrule'⟩)]
    simpa using (List.mem_filter.1 he').2
  · obtain ⟨e', he', hsanitize⟩ := List.mem_filterMap.1 (mem_of_mem_ofEntries he)
    have hmem : e ∈ literals source := List.mem_filterMap.2
      ⟨e', (List.mem_filter.1 he').1, literal_eq_some_iff.2 ⟨hsanitize, hrule'⟩⟩
    obtain ⟨good, hgood, hkey, hwell⟩ := h e hmem
    obtain ⟨s, hs, hliteral⟩ := List.mem_filterMap.1 hgood
    refine absurd hkey (hall good (List.mem_filterMap.2 ⟨s, List.mem_filter.2 ⟨hs, ?_⟩, ?_⟩))
    · rw [hbad hliteral, hwell]
      rfl
    · exact (literal_eq_some_iff.1 hliteral).1

theorem hasStar_iff : (source.any fun e => normalizeHeaderContextKey e.1 = "*") = true ↔
    hasStar source := by
  simp [hasStar]

theorem lowerMatch_iff {name : String} :
    (sourceRegex env source).any (· name) = true ↔ lowerMatch env source name := by
  simp only [sourceRegex, List.any_eq_true, List.mem_filterMap, Option.bind_eq_some_iff]
  constructor
  · rintro ⟨re, ⟨e, he, pattern, hpattern, hcompile⟩, hname⟩
    exact ⟨e, he, pattern, re, hpattern, hcompile, hname⟩
  · rintro ⟨e, he, pattern, re, hpattern, hcompile, hname⟩
    exact ⟨re, ⟨e, he, pattern, hpattern, hcompile⟩, hname⟩

/-- Which headers are forwarded. -/
theorem value_passedEntries (hh : h ∈ env.client.headers) :
    (shouldSkipPassthroughHeader h.name = false ∧ Text.trimSpace h.value ≠ "" ∧
        (hasStar source ∨ lowerMatch env source h.name) →
      value (passedEntries env source) h.key = some (Text.trimSpace h.value)) ∧
    (¬(shouldSkipPassthroughHeader h.name = false ∧ Text.trimSpace h.value ≠ "" ∧
        (hasStar source ∨ lowerMatch env source h.name)) →
      value (passedEntries env source) h.key = none) := by
  have hforwarded (h : Header) : isForwarded
      (source.any fun e => normalizeHeaderContextKey e.1 = "*") (sourceRegex env source) h = true ↔
        shouldSkipPassthroughHeader h.name = false ∧ Text.trimSpace h.value ≠ "" ∧
          (hasStar source ∨ lowerMatch env source h.name) := by
    rw [isForwarded, Bool.and_eq_true, Bool.and_eq_true, Bool.or_eq_true, hasStar_iff,
      lowerMatch_iff, Bool.not_eq_true', decide_eq_true_eq, and_assoc]
    exact and_congr_right fun _ => and_comm
  constructor
  · intro hmeant
    rw [passedEntries, value_eq_some_iff (nodup_passed (.refl _) _)]
    exact List.mem_map.2 ⟨h, List.mem_filter.2 ⟨hh, (hforwarded h).2 hmeant⟩, rfl⟩
  · intro hmeant
    rw [passedEntries, value_eq_none_iff]
    intro e he hkey
    obtain ⟨h', hh', rfl⟩ := List.mem_map.1 he
    obtain ⟨hmem, hpassed⟩ := List.mem_filter.1 hh'
    have hsame := List.inj_on_of_nodup_map env.client.distinct hmem hh hkey
    rw [hsame] at hpassed
    exact hmeant ((hforwarded h).1 hpassed)

theorem value_of_unnamed {p : List (String × String)} (hpick : Pick source p)
    (hunnamed : Unnamed source h) : value p h.key = none := by
  rw [value_eq_none_iff]
  intro e he hkey
  obtain ⟨hmem, hrule⟩ := mem_literals_iff.1 (hpick.sound e he)
  obtain ⟨e', he', hsanitize⟩ := List.mem_filterMap.1 hmem
  rw [key_of_sanitizeEntry hsanitize] at hrule hkey
  exact hunnamed e' he' (by rw [hrule]; decide) hkey

theorem resolve_of_apply {template : String} {v : Option String}
    (h : applyHeaderOverridePlaceholders env template = .ok v) : resolve env template = v := by
  rw [resolve, h]

theorem ok_of_wellFormed (hbad : ¬ BadRule env source)
    (hwell : ∀ e ∈ literals source, isMalformed env e.2 = false) {p : List (String × String)}
    (hpick : Pick source p) (hresult : Result env source p result) :
    ∃ m, result = .ok m ∧ ∀ key, value m key =
      ((value p key).bind (resolve env)).or (value (passedEntries env source) key) :=
  hresult.wellFormed hbad fun e he => hwell e (hpick.sound e he)

/-- The value under the key of a picked entry. -/
theorem value_of_picked {p m : List (String × String)} (hpick : Pick source p) (he : e ∈ p)
    (hm : ∀ key, value m key =
      ((value p key).bind (resolve env)).or (value (passedEntries env source) key)) :
    value m e.1 = effective env source e := by
  rw [hm, (value_eq_some_iff hpick.distinct).2 he, Option.bind_some]
  rfl

theorem settled_of_faithful (h : Faithful env source) : Settled env source := by
  obtain ⟨result, houtcome, hresult⟩ := outcome_of_perm env (.refl source)
  by_cases hbad : BadRule env source
  · obtain ⟨err, rfl⟩ := hresult.badRule hbad
    cases h.right _ houtcome with
    | error _ invalid => exact Or.inl ⟨hbad, invalid⟩
  · refine Or.inr ⟨hbad, ?_⟩
    by_cases hall : ∃ e ∈ literals source, ∀ e' ∈ literals source, e'.1 = e.1 →
        isMalformed env e'.2 = true
    · exact Or.inl hall
    · right
      have hsome : ∀ e ∈ literals source, ∃ e' ∈ literals source, e'.1 = e.1 ∧
          isMalformed env e'.2 = false := by
        intro e he
        by_contra hnone
        refine hall ⟨e, he, fun e' he' hkey => ?_⟩
        rw [← Bool.not_eq_false]
        exact fun hwell => hnone ⟨e', he', hkey, hwell⟩
      -- one order has no malformed entry, so none has one
      have hwell : ∀ e ∈ literals source, isMalformed env e.2 = false := by
        intro e he
        rw [← Bool.not_eq_true]
        intro hmalformed
        obtain ⟨source₁, hperm₁, he₁⟩ := exists_picked he
        obtain ⟨result₁, houtcome₁, hresult₁⟩ := outcome_of_perm env hperm₁
        obtain ⟨err, rfl⟩ := hresult₁.malformed ⟨e, he₁, hmalformed⟩
        obtain ⟨source₂, hperm₂, hwell₂⟩ := exists_wellFormed env hsome
        obtain ⟨result₂, houtcome₂, hresult₂⟩ := outcome_of_perm env hperm₂
        obtain ⟨m, rfl, -⟩ := hresult₂.wellFormed hbad hwell₂
        cases h.same _ _ houtcome₁ houtcome₂
      refine ⟨hwell, fun e he e' he' hkey => ?_, fun h' hh' hunnamed hskip hvalue hstar => ?_⟩
      · obtain ⟨source₁, hperm₁, he₁⟩ := exists_picked he
        obtain ⟨result₁, houtcome₁, hresult₁⟩ := outcome_of_perm env hperm₁
        obtain ⟨source₂, hperm₂, he₂⟩ := exists_picked he'
        obtain ⟨result₂, houtcome₂, hresult₂⟩ := outcome_of_perm env hperm₂
        have hpick₁ : Pick source (picked source₁) := pick_of_perm hperm₁ (.refl _)
        have hpick₂ : Pick source (picked source₂) := pick_of_perm hperm₂ (.refl _)
        obtain ⟨m₁, rfl, hm₁⟩ := ok_of_wellFormed hbad hwell hpick₁ hresult₁
        obtain ⟨m₂, rfl, hm₂⟩ := ok_of_wellFormed hbad hwell hpick₂ hresult₂
        have hsame := h.same _ _ houtcome₁ houtcome₂
        cases hsame with
        | ok _ _ hsame =>
            rw [← value_of_picked hpick₁ he₁ hm₁, ← value_of_picked hpick₂ he₂ hm₂, ← hkey]
            exact hsame e.1
      · have hpick : Pick source (picked source) := pick_of_perm (.refl _) (.refl _)
        obtain ⟨m, rfl, hm⟩ := ok_of_wellFormed hbad hwell hpick hresult
        have hvalueOf : value m h'.key = value (passedEntries env source) h'.key := by
          rw [hm, value_of_unnamed hpick hunnamed]
          rfl
        cases h.right _ houtcome with
        | ok _ forwarded wins =>
            obtain ⟨hmeant, hnot⟩ := forwarded h' hh' hunnamed
            obtain ⟨hpassed, hnotPassed⟩ := @value_passedEntries env source _ hh'
            rw [hvalueOf] at hmeant hnot
            constructor
            · intro hlower
              by_contra hwritten
              have hnone := hnot fun hmeant => hmeant.2.2.elim hstar hwritten
              rw [hpassed ⟨hskip, hvalue, Or.inr hlower⟩] at hnone
              cases hnone
            · intro hwritten
              by_contra hlower
              have hsome := hmeant ⟨hskip, hvalue, Or.inr hwritten⟩
              rw [hnotPassed fun h => h.2.2.elim hstar hlower] at hsome
              cases hsome

theorem faithful_of_agree (hbad : ¬ BadRule env source) (hagree : Agree env source) :
    Faithful env source := by
  constructor
  · intro result houtcome
    obtain ⟨p, hpick, hresult⟩ := outcome_result houtcome
    obtain ⟨m, rfl, hm⟩ := ok_of_wellFormed hbad hagree.wellFormed hpick hresult
    refine Right.ok m (fun h hh hunnamed => ?_) fun e he v happly => ?_
    · have hvalueOf : value m h.key = value (passedEntries env source) h.key := by
        rw [hm, value_of_unnamed hpick hunnamed]
        rfl
      obtain ⟨hpassed, hnotPassed⟩ := @value_passedEntries env source _ hh
      have hiff : Meant env source h ↔ shouldSkipPassthroughHeader h.name = false ∧
          Text.trimSpace h.value ≠ "" ∧ (hasStar source ∨ lowerMatch env source h.name) := by
        rw [Meant]
        refine and_congr_right fun hskip => and_congr_right fun hvalue => ?_
        by_cases hstar : hasStar source
        · exact iff_of_true (Or.inl hstar) (Or.inl hstar)
        · rw [or_iff_right hstar, or_iff_right hstar,
            hagree.lowerCase h hh hunnamed hskip hvalue hstar]
      rw [hvalueOf, hiff]
      exact ⟨hpassed, hnotPassed⟩
    · obtain ⟨e', he', hkey⟩ := hpick.complete e he
      rw [← hkey, value_of_picked hpick he' hm,
        hagree.effective e' (hpick.sound e' he') e he hkey, effective, resolve_of_apply happly]
      rfl
  · intro result result' houtcome houtcome'
    obtain ⟨p, hpick, hresult⟩ := outcome_result houtcome
    obtain ⟨p', hpick', hresult'⟩ := outcome_result houtcome'
    obtain ⟨m, rfl, hm⟩ := ok_of_wellFormed hbad hagree.wellFormed hpick hresult
    obtain ⟨m', rfl, hm'⟩ := ok_of_wellFormed hbad hagree.wellFormed hpick' hresult'
    refine Same.ok m m' fun key => ?_
    cases hvalue : value p key with
    | some v =>
        have he := (value_eq_some_iff hpick.distinct).1 hvalue
        obtain ⟨e', he', hkey⟩ := hpick'.complete _ (hpick.sound _ he)
        have hfirst := value_of_picked hpick he hm
        have hsecond := value_of_picked hpick' he' hm'
        rw [hkey] at hsecond
        rw [hfirst, hsecond]
        exact hagree.effective _ (hpick.sound _ he) e' (hpick'.sound e' he') hkey.symm
    | none =>
        have hvalue' : value p' key = none := by
          rw [value_eq_none_iff] at hvalue ⊢
          intro e he hkey
          obtain ⟨e', he', hkey'⟩ := hpick.complete e (hpick'.sound e he)
          exact hvalue e' he' (hkey'.trans hkey)
        rw [hm, hm', hvalue, hvalue']

theorem faithful_of_error (hinvalid : Invalid env source)
    (herror : ∀ result, Outcome env source result → ∃ err, result = .error err) :
    Faithful env source := by
  constructor
  · intro result houtcome
    obtain ⟨err, rfl⟩ := herror result houtcome
    exact Right.error err hinvalid
  · intro result result' houtcome houtcome'
    obtain ⟨err, rfl⟩ := herror result houtcome
    obtain ⟨err', rfl⟩ := herror result' houtcome'
    exact Same.error err err'

end

/-- Header passthrough is faithful exactly if the source is settled. -/
theorem faithful_iff (env : Env) (source : List (String × String)) :
    Faithful env source ↔ Settled env source := by
  refine ⟨settled_of_faithful, ?_⟩
  rintro (⟨hbad, hinvalid⟩ | ⟨hbad, ⟨e, he, hall⟩ | hagree⟩)
  · refine faithful_of_error hinvalid fun result houtcome => ?_
    obtain ⟨p, -, hresult⟩ := outcome_result houtcome
    exact hresult.badRule hbad
  · refine faithful_of_error (Or.inr ⟨e, he, apply_of_malformed (hall e he rfl)⟩)
      fun result houtcome => ?_
    obtain ⟨p, hpick, hresult⟩ := outcome_result houtcome
    obtain ⟨e', he', hkey⟩ := hpick.complete e he
    exact hresult.malformed ⟨e', he', hall e' (hpick.sound e' he') hkey⟩
  · exact faithful_of_agree hbad hagree

/-- Patterns that are prefixes of names, with letters as they are. -/
def prefixEnv (client : HeaderMap) : Env where
  compile pattern := some fun name => Text.hasPrefix name pattern
  client := client
  apiKey := "key"

def traceHeaders : HeaderMap where
  headers := [⟨"X-Trace-Id", "trace-123"⟩]
  distinct := List.nodup_singleton _

/-- The header is not forwarded. -/
theorem not_faithful_prefix : ¬ ∀ (env : Env) (source : List (String × String)),
    Faithful env source := by
  intro h
  have hpattern : rulePattern "re:X-Trace" = some "x-trace" := by decide
  rcases settled_of_faithful (h (prefixEnv traceHeaders) [("re:X-Trace", "")]) with
    ⟨⟨e, he, pattern, hrule, hbad⟩, -⟩ | ⟨-, ⟨e, he, -⟩ | hagree⟩
  · rw [List.mem_singleton.1 he, hpattern] at hrule
    cases hrule
    rcases hbad with hbad | hbad
    · exact absurd hbad (by decide)
    · cases hbad
  · exact absurd he List.not_mem_nil
  · have hunnamed : Unnamed [("re:X-Trace", "")] ⟨"X-Trace-Id", "trace-123"⟩ := by
      intro e he hrule
      rw [List.mem_singleton.1 he] at hrule
      exact absurd (by decide) hrule
    have hstar : ¬ hasStar [("re:X-Trace", "")] := by
      rintro ⟨e, he, hkey⟩
      rw [List.mem_singleton.1 he] at hkey
      exact absurd hkey (by decide)
    have hwritten : writtenMatch (prefixEnv traceHeaders) [("re:X-Trace", "")] "X-Trace-Id" :=
      ⟨_, List.mem_singleton_self _, "X-Trace", _, by decide, rfl, by decide⟩
    obtain ⟨e, he, pattern, re, hrule, hcompile, hmatch⟩ :=
      (hagree.lowerCase ⟨"X-Trace-Id", "trace-123"⟩ (List.mem_singleton_self _) hunnamed
        (by decide) (by decide) hstar).2 hwritten
    rw [List.mem_singleton.1 he, hpattern] at hrule
    cases hrule
    cases hcompile
    exact absurd hmatch (by decide)

end DazeApi.Overrides.HeaderPassthrough

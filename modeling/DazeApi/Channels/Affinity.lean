import DazeApi.Lib.Glob
import DazeApi.Lib.Heads
import DazeApi.Lib.Text
import Mathlib.Data.Set.Insert
import Mathlib.Data.List.Nodup

/-!
# The channel affinity cache

A request that matches an affinity rule is given a cache key, made of the rule's name, the
using group and the affinity value with colons between them; the channel that served it is
stored under that key.  All entries of a rule are deleted by its name: in memory those that
begin with the name and a colon, in Redis those that match the pattern made of them.

`Belongs` says that every entry belongs to one rule, group and value, and `Apart` when the
names and groups are such that it does (`belongs_iff`).
-/

namespace DazeApi.Channels.Affinity

open Heads

/-! ## Keys -/

/-- `ChannelAffinityRule`, with what its cache keys are made of. -/
structure Rule where
  name : String
  includeUsingGroup : Bool
  includeRuleName : Bool

/-- What `extractChannelAffinityValue` gives; a rule without a value is passed over. -/
structure AffinityValue where
  text : String
  trimmed : Text.trimSpace text = text
  nonempty : text ≠ ""

def buildChannelAffinityCacheKeySuffix (rule : Rule) (usingGroup affinityValue : String) :
    String :=
  let parts := if rule.includeRuleName && rule.name ≠ "" then [rule.name] else []
  let parts :=
    if rule.includeUsingGroup && usingGroup ≠ "" then parts ++ [usingGroup] else parts
  Text.join (parts ++ [affinityValue]) ':'

def channelAffinityCacheNamespace : String := "new-api:channel_affinity:v1"

/-- `Namespace.prefix`. -/
def nsPrefix (n : String) : String :=
  let ns := Text.trimRightChar (Text.trimSpace n) ':'
  if ns = "" then "" else ns ++ ":"

/-- `Namespace.FullKey`. -/
def fullKey (n key : String) : String :=
  let key := Text.trimSpace key
  if key = "" then ""
  else
    let p := nsPrefix n
    if p = "" then Text.trimLeftChar key ':'
    else if Text.hasPrefix key p then key
    else p ++ Text.trimLeftChar key ':'

/-- A request that a rule matches. -/
structure Request where
  rule : Rule
  usingGroup : String
  value : AffinityValue

def Request.cacheKeyFull (q : Request) : String :=
  channelAffinityCacheNamespace ++ ":" ++
    buildChannelAffinityCacheKeySuffix q.rule q.usingGroup q.value.text

/-- What a key has before the affinity value. -/
def keyHead (rule : Rule) (usingGroup : String) : String :=
  (if rule.includeRuleName && rule.name ≠ "" then rule.name ++ ":" else "") ++
    (if rule.includeUsingGroup && usingGroup ≠ "" then usingGroup ++ ":" else "")

theorem suffix_eq (rule : Rule) (usingGroup affinityValue : String) :
    buildChannelAffinityCacheKeySuffix rule usingGroup affinityValue =
      keyHead rule usingGroup ++ affinityValue := by
  apply String.toList_inj.1
  unfold buildChannelAffinityCacheKeySuffix keyHead Text.join
  split <;> split <;> simp [List.intercalate]

/-- The beginning of every key. -/
def base : String := "new-api:channel_affinity:v1:"

theorem nsPrefix_eq : nsPrefix channelAffinityCacheNamespace = base := by decide

theorem cacheKeyFull_eq (q : Request) :
    q.cacheKeyFull = base ++ (keyHead q.rule q.usingGroup ++ q.value.text) := by
  rw [Request.cacheKeyFull, suffix_eq]
  rfl

/-! ## Trimmed texts -/

theorem eq_false_of_dropWhile {α : Type} {p : α → Bool} {x : α} {t : List α}
    (h : (x :: t).dropWhile p = x :: t) : p x = false := by
  rw [List.dropWhile_cons] at h
  split at h
  next =>
    have hlen := (List.dropWhile_suffix p (l := t)).length_le
    rw [h, List.length_cons] at hlen
    omega
  next hx => exact Bool.eq_false_iff.2 hx

theorem trimmed_of_trimSpace_eq {s : String} (hs : Text.trimSpace s = s) (hne : s ≠ "") :
    Trimmed Text.isSpace s.toList := by
  have hlist : ((s.toList.dropWhile Text.isSpace).reverse.dropWhile Text.isSpace).reverse =
      s.toList := by
    rw [← String.toList_inj, Text.trimSpace, String.toList_ofList] at hs
    exact hs
  have hdrop := (List.dropWhile_suffix Text.isSpace (l := s.toList)).length_le
  have hle := (List.dropWhile_suffix Text.isSpace
    (l := (s.toList.dropWhile Text.isSpace).reverse)).length_le
  have hlen := congrArg List.length hlist
  simp only [List.length_reverse] at hle hlen
  have hleft : s.toList.dropWhile Text.isSpace = s.toList :=
    (List.dropWhile_suffix _).eq_of_length (by omega)
  rw [hleft] at hlist
  have hright : s.toList.reverse.dropWhile Text.isSpace = s.toList.reverse := by
    rw [← List.reverse_inj, hlist, List.reverse_reverse]
  constructor
  · cases hx : s.toList with
    | nil => exact absurd (String.toList_eq_nil_iff.1 hx) hne
    | cons x t =>
        rw [hx] at hleft
        exact ⟨x, t, rfl, eq_false_of_dropWhile hleft⟩
  · cases hx : s.toList.reverse with
    | nil => exact absurd (String.toList_eq_nil_iff.1 (List.reverse_eq_nil_iff.1 hx)) hne
    | cons x t =>
        rw [hx] at hright
        refine ⟨t.reverse, x, ?_, eq_false_of_dropWhile hright⟩
        rw [← List.reverse_cons, ← hx, List.reverse_reverse]

theorem trimSpace_eq_of_trimmed {s : String} (hs : Trimmed Text.isSpace s.toList) :
    Text.trimSpace s = s := by
  obtain ⟨x, t, heq, hx⟩ := hs.begins
  obtain ⟨t', y, heq', hy⟩ := hs.ends
  have hkeep : s.toList.dropWhile Text.isSpace = s.toList := by
    rw [heq, List.dropWhile_cons, if_neg (by simp [hx])]
  rw [Text.trimSpace, hkeep, heq', List.reverse_append, List.reverse_singleton,
    List.singleton_append, List.dropWhile_cons, if_neg (by simp [hy]), List.reverse_cons,
    List.reverse_reverse, ← heq', String.ofList_toList]

theorem trimmed_trimSpace {s : String} (hne : Text.trimSpace s ≠ "") :
    Trimmed Text.isSpace (Text.trimSpace s).toList :=
  trimmed_of_trimSpace_eq (Text.trimSpace_trimSpace s) hne

theorem AffinityValue.isTrimmed (v : AffinityValue) : Trimmed Text.isSpace v.text.toList :=
  trimmed_of_trimSpace_eq v.trimmed v.nonempty

/-- A value with a given text. -/
def valueOf (l : List Char) (h : Trimmed Text.isSpace l) : AffinityValue where
  text := String.ofList l
  trimmed := trimSpace_eq_of_trimmed (by rwa [String.toList_ofList])
  nonempty := by
    intro hl
    rw [← String.toList_inj, String.toList_ofList] at hl
    exact h.ne_nil hl

/-! ## Full keys -/

/-- What `FullKey` gives in the namespace of the cache: trimmed, and with its beginning. -/
structure Full (key : String) : Prop where
  begins : base.toList <+: key.toList
  trimmed : Trimmed Text.isSpace key.toList

theorem Full.ne_empty {key : String} (h : Full key) : key ≠ "" := by
  rintro rfl
  exact h.trimmed.ne_nil rfl

theorem Full.fullKey_eq {key : String} (h : Full key) :
    fullKey channelAffinityCacheNamespace key = key := by
  unfold fullKey
  rw [trimSpace_eq_of_trimmed h.trimmed, nsPrefix_eq, if_neg h.ne_empty,
    if_neg (by decide), if_pos (Text.hasPrefix_iff.2 h.begins)]

theorem base_not_blank : ∀ x, base.toList.head? = some x → Text.isSpace x = false := by
  intro x hx
  cases hx
  decide

theorem full_base : Full base := by
  refine ⟨List.prefix_rfl, ⟨⟨'n', "ew-api:channel_affinity:v1:".toList, by decide, by decide⟩,
    ⟨"new-api:channel_affinity:v1".toList, ':', by decide, by decide⟩⟩⟩

/-- Cutting at the beginning keeps what does not end with a blank. -/
theorem full_append_dropWhile {l : List Char} (h : Trimmed Text.isSpace l) (p : Char → Bool) :
    Full (base ++ String.ofList (l.dropWhile p)) := by
  refine ⟨?_, ?_⟩
  · rw [String.toList_append]
    exact List.prefix_append _ _
  · rw [String.toList_append, String.toList_ofList]
    rcases List.eq_nil_or_concat (l.dropWhile p) with hd | ⟨t, y, hd⟩
    · rw [hd, List.append_nil]
      exact full_base.trimmed
    · obtain ⟨t', y', heq, hy'⟩ := h.ends
      obtain ⟨s, hs⟩ := List.dropWhile_suffix p (l := l)
      rw [hd, List.concat_eq_append, ← List.append_assoc, heq] at hs
      cases (List.append_inj' hs rfl).2
      refine ⟨⟨'n', "ew-api:channel_affinity:v1:".toList ++ l.dropWhile p, rfl, by decide⟩,
        ⟨base.toList ++ t, y, ?_, hy'⟩⟩
      rw [hd, List.concat_eq_append, List.append_assoc]

theorem full_fullKey {key : String} (hne : Text.trimSpace key ≠ "") :
    Full (fullKey channelAffinityCacheNamespace key) := by
  have htrim := trimmed_trimSpace hne
  unfold fullKey
  rw [nsPrefix_eq, if_neg hne, if_neg (by decide)]
  split
  next hp => exact ⟨Text.hasPrefix_iff.1 hp, htrim⟩
  next => exact full_append_dropWhile htrim _

theorem full_cacheKeyFull (q : Request) : Full q.cacheKeyFull := by
  rw [cacheKeyFull_eq]
  constructor
  · rw [String.toList_append]
    exact List.prefix_append _ _
  · rw [String.toList_append, String.toList_append, ← List.append_assoc]
    refine q.value.isTrimmed.prepend fun x hx => ?_
    exact base_not_blank x hx

/-! ## The cache -/

/-- The entries of a `HybridCache`, in memory or in Redis, under their full keys. -/
structure Cache where
  entries : List (String × Int)
  nodup : (entries.map Prod.fst).Nodup
  full : ∀ e ∈ entries, Full e.1

namespace Cache

def empty : Cache := ⟨[], List.nodup_nil, nofun⟩

/-- `HybridCache.Keys`. -/
def keys (c : Cache) : List String := c.entries.map Prod.fst

/-- The entries whose keys are kept. -/
def filter (c : Cache) (p : String → Bool) : Cache where
  entries := c.entries.filter (p ·.1)
  nodup := c.nodup.sublist (List.filter_sublist.map _)
  full e he := c.full e (List.mem_of_mem_filter he)

@[simp] theorem mem_keys_filter {c : Cache} {p : String → Bool} {k : String} :
    k ∈ (c.filter p).keys ↔ k ∈ c.keys ∧ p k = true := by
  simp only [keys, filter, List.mem_map, List.mem_filter]
  constructor
  · rintro ⟨e, ⟨he, hp⟩, rfl⟩
    exact ⟨⟨e, he, rfl⟩, hp⟩
  · rintro ⟨⟨e, he, rfl⟩, hp⟩
    exact ⟨e, ⟨he, hp⟩, rfl⟩

theorem filter_congr {c : Cache} {p q : String → Bool} (h : ∀ k ∈ c.keys, p k = q k) :
    c.filter p = c.filter q := by
  unfold filter
  congr 1
  exact List.filter_congr fun e he => h e.1 (List.mem_map_of_mem he)

theorem full_of_mem {c : Cache} {k : String} (h : k ∈ c.keys) : Full k := by
  obtain ⟨e, he, rfl⟩ := List.mem_map.1 h
  exact c.full e he

def insert (c : Cache) (k : String) (v : Int) (hk : Full k) : Cache where
  entries := (k, v) :: (c.filter (· ≠ k)).entries
  nodup := by
    rw [List.map_cons, List.nodup_cons]
    refine ⟨fun hmem => ?_, (c.filter (· ≠ k)).nodup⟩
    exact of_decide_eq_true (mem_keys_filter.1 hmem).2 rfl
  full e he := by
    rcases List.mem_cons.1 he with rfl | he
    · exact hk
    · exact (c.filter (· ≠ k)).full e he

@[simp] theorem mem_keys_insert {c : Cache} {k j : String} {v : Int} {hk : Full k} :
    j ∈ (c.insert k v hk).keys ↔ j = k ∨ j ∈ c.keys := by
  show j ∈ k :: (c.filter (· ≠ k)).keys ↔ _
  rw [List.mem_cons, mem_keys_filter]
  by_cases hj : j = k <;> simp [hj]

/-- `HybridCache.SetWithTTL`; that an entry expires is a step of its own. -/
def setWithTTL (c : Cache) (key : String) (v : Int) : Cache :=
  if h : Text.trimSpace key = "" then c
  else c.insert (fullKey channelAffinityCacheNamespace key) v (full_fullKey h)

/-- `HybridCache.DeleteMany`, with the full keys and whether each was deleted. -/
def deleteMany (c : Cache) (keys : List String) : List (String × Bool) × Cache :=
  let fullKeys := (keys.map (fullKey channelAffinityCacheNamespace)).filter (· ≠ "")
  (fullKeys.dedup.map fun k => (k, decide (k ∈ c.keys)), c.filter (· ∉ fullKeys))

end Cache

/-- Where the entries are kept. -/
inductive Backend where
  | memory
  | redis
  deriving DecidableEq

variable (m : Glob.Matcher)

/-- The keys that are deleted with a prefix: the memory backend compares the beginning, and
Redis matches a pattern, in which the prefix is not escaped. -/
def Backend.selects : Backend → String → String → Bool
  | memory, fullPrefix, key => Text.hasPrefix key fullPrefix
  | redis, fullPrefix, key => m.accepts (fullPrefix ++ "*").toList key.toList

/-- What the keys deleted by `DeleteByPrefix` have to begin with. -/
def fullPrefix (keyPrefix : String) : String :=
  let full := fullKey channelAffinityCacheNamespace keyPrefix
  if Text.hasSuffix full ":" then full else full ++ ":"

/-- `HybridCache.DeleteByPrefix`, with the number of deleted entries. -/
def Cache.deleteByPrefix (b : Backend) (c : Cache) (keyPrefix : String) : Nat × Cache :=
  if fullKey channelAffinityCacheNamespace keyPrefix = "" then (0, c)
  else
    let keys := c.keys.filter (b.selects m (fullPrefix keyPrefix))
    if keys = [] then (0, c)
    else
      let (res, c) := c.deleteMany keys
      (res.countP (·.2), c)

def clearChannelAffinityCacheByRuleName (b : Backend) (rules : List Rule) (c : Cache)
    (ruleName : String) : Except String (Nat × Cache) :=
  let ruleName := Text.trimSpace ruleName
  if ruleName = "" then .error "rule_name 不能为空"
  else
    match rules.find? (fun r => Text.trimSpace r.name = ruleName) with
    | none => .error "未知规则名称"
    | some matchedRule =>
        if !matchedRule.includeRuleName then
          .error "该规则未启用 include_rule_name，无法按规则清空缓存"
        else .ok (c.deleteByPrefix m b ruleName)

/-- A name by which a rule's entries can be deleted. -/
def Clearable (rules : List Rule) (name : String) : Prop :=
  Text.trimSpace name = name ∧ name ≠ "" ∧
    ∃ r, rules.find? (fun r => Text.trimSpace r.name = name) = some r ∧ r.includeRuleName = true

section

variable {m} {b : Backend} {rules : List Rule} {c : Cache} {name k : String}

theorem mem_keys_deleteMany {keys : List String} (h : ∀ k ∈ keys, Full k) :
    k ∈ (c.deleteMany keys).2.keys ↔ k ∈ c.keys ∧ k ∉ keys := by
  have hmap : (keys.map (fullKey channelAffinityCacheNamespace)).filter (· ≠ "") = keys := by
    rw [List.map_congr_left fun k hk => (h k hk).fullKey_eq, List.map_id',
      List.filter_eq_self.2 fun k hk => decide_eq_true (h k hk).ne_empty]
  rw [Cache.deleteMany, hmap, Cache.mem_keys_filter]
  simp

theorem mem_keys_deleteByPrefix (hname : Text.trimSpace name ≠ "") :
    k ∈ (c.deleteByPrefix m b name).2.keys ↔
      k ∈ c.keys ∧ b.selects m (fullPrefix name) k = false := by
  rw [Cache.deleteByPrefix, if_neg (full_fullKey hname).ne_empty]
  dsimp only
  split
  next hnil =>
    rw [List.filter_eq_nil_iff] at hnil
    constructor
    · intro hk
      exact ⟨hk, Bool.eq_false_iff.2 (hnil k hk)⟩
    · exact And.left
  next =>
    show k ∈ (c.deleteMany _).2.keys ↔ _
    rw [mem_keys_deleteMany fun j hj => Cache.full_of_mem (List.mem_of_mem_filter hj)]
    simp only [List.mem_filter, not_and]
    constructor
    · rintro ⟨hk, hnot⟩
      exact ⟨hk, Bool.eq_false_iff.2 (hnot hk)⟩
    · rintro ⟨hk, hnot⟩
      exact ⟨hk, fun _ => Bool.eq_false_iff.1 hnot⟩

/-- Deleting succeeds for the names of rules that have their name in the key. -/
theorem clear_of_clearable (h : Clearable rules name) :
    clearChannelAffinityCacheByRuleName m b rules c name =
      .ok (c.deleteByPrefix m b name) := by
  obtain ⟨htrim, hne, r, hfind, hinclude⟩ := h
  unfold clearChannelAffinityCacheByRuleName
  rw [htrim, if_neg hne]
  simp only [hfind, hinclude]
  rfl

theorem clear_ok {p : Nat × Cache}
    (h : clearChannelAffinityCacheByRuleName m b rules c name = .ok p) :
    Clearable rules (Text.trimSpace name) ∧ p = c.deleteByPrefix m b (Text.trimSpace name) := by
  unfold clearChannelAffinityCacheByRuleName at h
  by_cases hne : Text.trimSpace name = ""
  · rw [if_pos hne] at h
    cases h
  · rw [if_neg hne] at h
    cases hfind : rules.find? (fun r => Text.trimSpace r.name = Text.trimSpace name) with
    | none =>
        simp only [hfind] at h
        cases h
    | some r =>
        simp only [hfind] at h
        cases hinclude : r.includeRuleName with
        | false =>
            rw [hinclude, Bool.not_false, if_pos rfl] at h
            cases h
        | true =>
            rw [hinclude, Bool.not_true, if_neg Bool.false_ne_true] at h
            exact ⟨⟨Text.trimSpace_trimSpace name, hne, r, hfind, hinclude⟩,
              (Except.ok.inj h).symm⟩

end

/-! ## Histories -/

/-- What happens to the entries between two deletions. -/
inductive Step where
  | record (q : Request) (channelID : Int)
  | expire (key : String)

/-- `RecordChannelAffinity`, for a request whose key is known, and the end of an entry. -/
def step (c : Cache) : Step → Cache
  | .record q channelID => if channelID ≤ 0 then c else c.setWithTTL q.cacheKeyFull channelID
  | .expire key => c.filter (· ≠ key)

def run (steps : List Step) : Cache := steps.foldl step Cache.empty

/-- The key was written for a request that a rule of the name matched. -/
def Written (steps : List Step) (name key : String) : Prop :=
  ∃ q channelID, Step.record q channelID ∈ steps ∧ 0 < channelID ∧
    Text.trimSpace q.rule.name = name ∧ q.cacheKeyFull = key

/-- The requests are of the rules and of the groups in use. -/
def Allowed (rules : List Rule) (groups : Set String) (steps : List Step) : Prop :=
  ∀ q channelID, Step.record q channelID ∈ steps → q.rule ∈ rules ∧ q.usingGroup ∈ groups

section

variable {steps : List Step} {c : Cache} {q : Request} {k : String} {v : Int}

theorem setWithTTL_cacheKeyFull :
    c.setWithTTL q.cacheKeyFull v = c.insert q.cacheKeyFull v (full_cacheKeyFull q) := by
  have htrim := trimSpace_eq_of_trimmed (full_cacheKeyFull q).trimmed
  rw [Cache.setWithTTL, dif_neg (by rw [htrim]; exact (full_cacheKeyFull q).ne_empty)]
  simp only [(full_cacheKeyFull q).fullKey_eq]

/-- A step adds no key but the one that it writes. -/
theorem mem_keys_step {s : Step} (h : k ∈ (step c s).keys) :
    k ∈ c.keys ∨ ∃ q channelID, s = .record q channelID ∧ 0 < channelID ∧ q.cacheKeyFull = k := by
  cases s with
  | record q channelID =>
      simp only [step] at h
      split at h
      next => exact Or.inl h
      next hpos =>
        rw [setWithTTL_cacheKeyFull, Cache.mem_keys_insert] at h
        rcases h with rfl | h
        · exact Or.inr ⟨q, channelID, rfl, by omega, rfl⟩
        · exact Or.inl h
  | expire key => exact Or.inl (Cache.mem_keys_filter.1 h).1

/-- Every entry was written for some request of the history. -/
theorem exists_record (h : k ∈ (run steps).keys) :
    ∃ q channelID, Step.record q channelID ∈ steps ∧ 0 < channelID ∧ q.cacheKeyFull = k := by
  induction steps using List.reverseRecOn with
  | nil => exact absurd h List.not_mem_nil
  | append_singleton steps s ih =>
      rw [run, List.foldl_append] at h
      rcases mem_keys_step h with h | ⟨q, channelID, rfl, hpos, hkey⟩
      · obtain ⟨q, channelID, hmem, hq⟩ := ih h
        exact ⟨q, channelID, List.mem_append_left _ hmem, hq⟩
      · exact ⟨q, channelID, by simp, hpos, hkey⟩

theorem keys_run_record (q : Request) : (run [.record q 1]).keys = [q.cacheKeyFull] := by
  rw [run, List.foldl_cons, List.foldl_nil, step, if_neg (by decide), setWithTTL_cacheKeyFull]
  simp only [Cache.keys, Cache.insert, Cache.filter, Cache.empty, List.filter_nil, List.map_cons,
    List.map_nil]

end

/-! ## Whose an entry is -/

/-- Every entry of the cache belongs to one rule, group and value. -/
structure Belongs (rules : List Rule) (groups : Set String) : Prop where
  key : ∀ q₁ q₂ : Request, q₁.rule ∈ rules → q₂.rule ∈ rules →
    q₁.usingGroup ∈ groups → q₂.usingGroup ∈ groups →
    q₁.rule.includeRuleName = true → q₁.rule.includeUsingGroup = true →
    q₂.rule.includeRuleName = true → q₂.rule.includeUsingGroup = true →
    q₁.cacheKeyFull = q₂.cacheKeyFull →
    q₁.rule.name = q₂.rule.name ∧ q₁.usingGroup = q₂.usingGroup ∧ q₁.value.text = q₂.value.text
  clear : ∀ (b : Backend) (steps : List Step) (name : String) (deleted : Nat) (c : Cache),
    Allowed rules groups steps →
    clearChannelAffinityCacheByRuleName m b rules (run steps) name = .ok (deleted, c) →
    ∀ k, k ∈ c.keys ↔ k ∈ (run steps).keys ∧ ¬ Written steps (Text.trimSpace name) k
  backend : ∀ (c : Cache) (name : String),
    clearChannelAffinityCacheByRuleName m .redis rules c name =
      clearChannelAffinityCacheByRuleName m .memory rules c name

/-- Where a key begins. -/
def fullHead (rule : Rule) (usingGroup : String) : List Char :=
  base.toList ++ (keyHead rule usingGroup).toList

/-- The names and groups do not run into each other: no head of a key goes on as another
does, the prefix by which the entries of a name are deleted is the beginning of the heads of
its rules and meets no other, and it is no pattern. -/
structure Apart (rules : List Rule) (groups : Set String) : Prop where
  head : ∀ r₁ ∈ rules, ∀ r₂ ∈ rules, ∀ g₁ ∈ groups, ∀ g₂ ∈ groups,
    r₁.includeRuleName = true → r₁.includeUsingGroup = true →
    r₂.includeRuleName = true → r₂.includeUsingGroup = true →
    Extends Text.isSpace (fullHead r₁ g₁) (fullHead r₂ g₂) → r₁.name = r₂.name ∧ g₁ = g₂
  own : ∀ name, Clearable rules name → ∀ r ∈ rules, ∀ g ∈ groups,
    Text.trimSpace r.name = name → (fullPrefix name).toList <+: fullHead r g
  other : ∀ name, Clearable rules name → ∀ r ∈ rules, ∀ g ∈ groups,
    Text.trimSpace r.name ≠ name → ¬ (fullPrefix name).toList <+: fullHead r g ∧
      ¬ Extends Text.isSpace (fullHead r g) (fullPrefix name).toList
  plain : ∀ name, Clearable rules name → ∀ x ∈ name.toList, Glob.special x = false

section

variable {m} {rules : List Rule} {groups : Set String} {q : Request} {name k : String}

theorem toList_cacheKeyFull (q : Request) :
    q.cacheKeyFull.toList = fullHead q.rule q.usingGroup ++ q.value.text.toList := by
  rw [cacheKeyFull_eq, String.toList_append, String.toList_append, fullHead, List.append_assoc]

theorem toList_valueOf {l : List Char} (h : Trimmed Text.isSpace l) :
    (valueOf l h).text.toList = l := String.toList_ofList

theorem not_blank_x : Text.isSpace 'x' = false := by decide

theorem not_blank_y : Text.isSpace 'y' = false := by decide

theorem fullHead_congr {r₁ r₂ : Rule} {g₁ g₂ : String} (hname : r₁.name = r₂.name) (hg : g₁ = g₂)
    (h₁ : r₁.includeRuleName = r₂.includeRuleName)
    (h₂ : r₁.includeUsingGroup = r₂.includeUsingGroup) : fullHead r₁ g₁ = fullHead r₂ g₂ := by
  rw [fullHead, fullHead, keyHead, keyHead, hname, hg, h₁, h₂]

/-! ### What a deletion by prefix selects -/

theorem selects_memory : Backend.memory.selects m (fullPrefix name) k = true ↔
    (fullPrefix name).toList <+: k.toList := Text.hasPrefix_iff

theorem fullPrefix_colon (name : String) : ∃ t, (fullPrefix name).toList = t ++ [':'] := by
  unfold fullPrefix
  dsimp only
  split
  next h =>
    obtain ⟨t, ht⟩ := List.isSuffixOf_iff_suffix.1 h
    exact ⟨t, ht.symm⟩
  next => exact ⟨_, String.toList_append⟩

theorem base_prefix_fullPrefix (hname : Text.trimSpace name ≠ "") :
    base.toList <+: (fullPrefix name).toList := by
  have hfull := (full_fullKey hname).begins
  unfold fullPrefix
  dsimp only
  split
  next => exact hfull
  next =>
    rw [String.toList_append]
    exact hfull.trans (List.prefix_append _ _)

theorem base_plain : ∀ x ∈ base.toList, Glob.special x = false := by
  have hall : base.toList.all (fun x => !Glob.special x) = true := by decide
  intro x hx
  exact Bool.not_eq_eq_eq_not.1 (List.all_eq_true.1 hall x hx)

theorem colon_plain : ∀ x ∈ ":".toList, Glob.special x = false := by
  intro x hx
  rw [show x = ':' from List.mem_singleton.1 hx]
  rfl

/-- Only the name can bring a special character into the prefix. -/
theorem plain_fullPrefix_iff (htrim : Text.trimSpace name = name) (hname : name ≠ "") :
    (∀ x ∈ (fullPrefix name).toList, Glob.special x = false) ↔
      ∀ x ∈ name.toList, Glob.special x = false := by
  have hfull : (∀ x ∈ (fullKey channelAffinityCacheNamespace name).toList,
      Glob.special x = false) ↔ ∀ x ∈ name.toList, Glob.special x = false := by
    unfold fullKey
    dsimp only
    rw [htrim, nsPrefix_eq, if_neg hname, if_neg (by decide)]
    split
    next => exact Iff.rfl
    next =>
      rw [String.toList_append, Text.trimLeftChar, String.toList_ofList, List.forall_mem_append,
        and_iff_right base_plain]
      constructor
      · intro h x hx
        have hsplit := List.takeWhile_append_dropWhile (p := (· = ':')) (l := name.toList)
        rw [← hsplit] at hx
        rcases List.mem_append.1 hx with hx | hx
        · have hcolon := List.mem_takeWhile_imp (p := (· = ':')) hx
          rw [of_decide_eq_true hcolon]
          rfl
        · exact h x hx
      · intro h x hx
        exact h x ((List.dropWhile_suffix _).subset hx)
  unfold fullPrefix
  dsimp only
  split
  next => exact hfull
  next =>
    rw [String.toList_append, List.forall_mem_append, hfull]
    exact and_iff_left colon_plain

/-- Without special characters in the name both backends select what begins with the
prefix. -/
theorem selects_iff (b : Backend) (hname : Clearable rules name)
    (hplain : ∀ x ∈ name.toList, Glob.special x = false) :
    b.selects m (fullPrefix name) k = true ↔ (fullPrefix name).toList <+: k.toList := by
  cases b with
  | memory => exact selects_memory
  | redis =>
      show m.accepts (fullPrefix name ++ "*").toList k.toList = true ↔ _
      rw [String.toList_append]
      exact Glob.accepts_append_star ((plain_fullPrefix_iff hname.1 hname.2.1).2 hplain)

/-! ### Names that are apart -/

theorem Apart.belongs_key (h : Apart rules groups) {q₁ q₂ : Request}
    (hr₁ : q₁.rule ∈ rules) (hr₂ : q₂.rule ∈ rules)
    (hg₁ : q₁.usingGroup ∈ groups) (hg₂ : q₂.usingGroup ∈ groups)
    (hn₁ : q₁.rule.includeRuleName = true) (hu₁ : q₁.rule.includeUsingGroup = true)
    (hn₂ : q₂.rule.includeRuleName = true) (hu₂ : q₂.rule.includeUsingGroup = true)
    (heq : q₁.cacheKeyFull = q₂.cacheKeyFull) :
    q₁.rule.name = q₂.rule.name ∧ q₁.usingGroup = q₂.usingGroup ∧
      q₁.value.text = q₂.value.text := by
  rw [← String.toList_inj, toList_cacheKeyFull, toList_cacheKeyFull] at heq
  have hsame : q₁.rule.name = q₂.rule.name ∧ q₁.usingGroup = q₂.usingGroup := by
    rcases (exists_append_eq_iff not_blank_x).1
        ⟨_, _, q₁.value.isTrimmed, q₂.value.isTrimmed, heq⟩ with hext | hext
    · exact h.head _ hr₁ _ hr₂ _ hg₁ _ hg₂ hn₁ hu₁ hn₂ hu₂ hext
    · have hsame := h.head _ hr₂ _ hr₁ _ hg₂ _ hg₁ hn₂ hu₂ hn₁ hu₁ hext
      exact ⟨hsame.1.symm, hsame.2.symm⟩
  have hhead := fullHead_congr hsame.1 hsame.2 (hn₁.trans hn₂.symm) (hu₁.trans hu₂.symm)
  rw [hhead] at heq
  exact ⟨hsame.1, hsame.2, String.toList_inj.1 (List.append_cancel_left heq)⟩

/-- The prefix selects what the rules of the name have written. -/
theorem Apart.prefix_iff_written (h : Apart rules groups) (hname : Clearable rules name)
    {steps : List Step} (hsteps : Allowed rules groups steps) (hk : k ∈ (run steps).keys) :
    (fullPrefix name).toList <+: k.toList ↔ Written steps name k := by
  constructor
  · intro hbegin
    obtain ⟨q, channelID, hmem, hpos, rfl⟩ := exists_record hk
    obtain ⟨hrule, hgroup⟩ := hsteps q channelID hmem
    refine ⟨q, channelID, hmem, hpos, ?_, rfl⟩
    by_contra hother
    rw [toList_cacheKeyFull] at hbegin
    obtain ⟨hhead, hext⟩ := h.other name hname _ hrule _ hgroup hother
    rcases (exists_prefix_iff not_blank_x).1 ⟨_, q.value.isTrimmed, hbegin⟩ with hp | hp
    · exact hhead hp
    · exact hext hp
  · rintro ⟨q, channelID, hmem, -, hown, rfl⟩
    obtain ⟨hrule, hgroup⟩ := hsteps q channelID hmem
    rw [toList_cacheKeyFull]
    exact (h.own name hname _ hrule _ hgroup hown).trans (List.prefix_append _ _)

theorem Apart.belongs_clear (h : Apart rules groups) {b : Backend} {steps : List Step}
    {deleted : Nat} {c : Cache} (hsteps : Allowed rules groups steps)
    (hclear : clearChannelAffinityCacheByRuleName m b rules (run steps) name =
      .ok (deleted, c)) :
    k ∈ c.keys ↔ k ∈ (run steps).keys ∧ ¬ Written steps (Text.trimSpace name) k := by
  obtain ⟨hname, hc⟩ := clear_ok hclear
  have hkeys : c = ((run steps).deleteByPrefix m b (Text.trimSpace name)).2 :=
    congrArg Prod.snd hc
  have hne : Text.trimSpace (Text.trimSpace name) ≠ "" := by
    rw [hname.1]
    exact hname.2.1
  rw [hkeys, mem_keys_deleteByPrefix hne]
  refine and_congr_right fun hk => ?_
  rw [← h.prefix_iff_written hname hsteps hk, ← selects_iff b hname (h.plain _ hname),
    Bool.not_eq_true]

theorem deleteByPrefix_congr {b b' : Backend} {c : Cache}
    (h : ∀ k, b.selects m (fullPrefix name) k = b'.selects m (fullPrefix name) k) :
    c.deleteByPrefix m b name = c.deleteByPrefix m b' name := by
  rw [Cache.deleteByPrefix, Cache.deleteByPrefix, funext h]

theorem Apart.belongs_backend (h : Apart rules groups) (c : Cache) (name : String) :
    clearChannelAffinityCacheByRuleName m .redis rules c name =
      clearChannelAffinityCacheByRuleName m .memory rules c name := by
  by_cases hname : Clearable rules (Text.trimSpace name)
  · have htrim (b : Backend) : clearChannelAffinityCacheByRuleName m b rules c name =
        clearChannelAffinityCacheByRuleName m b rules c (Text.trimSpace name) := by
      rw [clearChannelAffinityCacheByRuleName, clearChannelAffinityCacheByRuleName,
        Text.trimSpace_trimSpace]
    rw [htrim, htrim, clear_of_clearable hname, clear_of_clearable hname]
    refine congrArg Except.ok (deleteByPrefix_congr fun k => ?_)
    rw [Bool.eq_iff_iff, selects_iff .redis hname (h.plain _ hname),
      selects_iff .memory hname (h.plain _ hname)]
  · unfold clearChannelAffinityCacheByRuleName
    by_cases hne : Text.trimSpace name = ""
    · rw [if_pos hne, if_pos hne]
    · rw [if_neg hne, if_neg hne]
      cases hfind : rules.find? (fun r => Text.trimSpace r.name = Text.trimSpace name) with
      | none => rfl
      | some r =>
          cases hinclude : r.includeRuleName with
          | false => simp only [hinclude, Bool.not_false, if_true]
          | true =>
              exact absurd ⟨Text.trimSpace_trimSpace name, hne, r, hfind, hinclude⟩ hname

/-! ### Entries that belong to one rule -/

variable (h : Belongs m rules groups)

include h

theorem Belongs.apart_head {r₁ r₂ : Rule} (hr₁ : r₁ ∈ rules) (hr₂ : r₂ ∈ rules) {g₁ g₂ : String}
    (hg₁ : g₁ ∈ groups) (hg₂ : g₂ ∈ groups)
    (hn₁ : r₁.includeRuleName = true) (hu₁ : r₁.includeUsingGroup = true)
    (hn₂ : r₂.includeRuleName = true) (hu₂ : r₂.includeUsingGroup = true)
    (hext : Extends Text.isSpace (fullHead r₁ g₁) (fullHead r₂ g₂)) :
    r₁.name = r₂.name ∧ g₁ = g₂ := by
  obtain ⟨v, w, hv, hw, heq⟩ := (exists_append_eq_iff not_blank_x).2 (Or.inl hext)
  have hkeys : Request.cacheKeyFull ⟨r₁, g₁, valueOf v hv⟩ =
      Request.cacheKeyFull ⟨r₂, g₂, valueOf w hw⟩ := by
    rw [← String.toList_inj, toList_cacheKeyFull, toList_cacheKeyFull, toList_valueOf,
      toList_valueOf]
    exact heq
  have hsame := h.key _ _ hr₁ hr₂ hg₁ hg₂ hn₁ hu₁ hn₂ hu₂ hkeys
  exact ⟨hsame.1, hsame.2.1⟩

/-- An entry alone in the cache is deleted with the name if its rule has it. -/
theorem Belongs.prefix_iff_name (hname : Clearable rules name) (hrule : q.rule ∈ rules)
    (hgroup : q.usingGroup ∈ groups) :
    (fullPrefix name).toList <+: fullHead q.rule q.usingGroup ++ q.value.text.toList ↔
      Text.trimSpace q.rule.name = name := by
  have hsteps : Allowed rules groups [.record q 1] := by
    intro q' channelID hmem
    cases List.mem_singleton.1 hmem
    exact ⟨hrule, hgroup⟩
  have hwritten : Written [.record q 1] name q.cacheKeyFull ↔
      Text.trimSpace q.rule.name = name := by
    constructor
    · rintro ⟨q', channelID, hmem, -, hq, -⟩
      cases List.mem_singleton.1 hmem
      exact hq
    · intro hq
      exact ⟨q, 1, List.mem_singleton.2 rfl, by decide, hq, rfl⟩
  have hok := clear_of_clearable (m := m) (b := .memory) (c := run [.record q 1]) hname
  rw [← Prod.eta ((run [.record q 1]).deleteByPrefix m .memory name)] at hok
  have hclear := h.clear .memory [.record q 1] name _ _ hsteps hok q.cacheKeyFull
  have hne : Text.trimSpace name ≠ "" := by
    rw [hname.1]
    exact hname.2.1
  rw [mem_keys_deleteByPrefix hne, keys_run_record, List.mem_singleton, hname.1] at hclear
  simp only [true_and] at hclear
  rw [hwritten, ← Bool.not_eq_true, not_iff_not, selects_memory, toList_cacheKeyFull] at hclear
  exact hclear

theorem Belongs.apart_own (hname : Clearable rules name) {r : Rule} (hr : r ∈ rules) {g : String}
    (hg : g ∈ groups) (hown : Text.trimSpace r.name = name) :
    (fullPrefix name).toList <+: fullHead r g := by
  rw [← forall_prefix_iff not_blank_x not_blank_y (by decide)]
  intro v hv
  have hiff := h.prefix_iff_name (q := ⟨r, g, valueOf v hv⟩) hname hr hg
  rw [toList_valueOf] at hiff
  exact hiff.2 hown

theorem Belongs.apart_other (hname : Clearable rules name) {r : Rule} (hr : r ∈ rules)
    {g : String} (hg : g ∈ groups) (hother : Text.trimSpace r.name ≠ name) :
    ¬ (fullPrefix name).toList <+: fullHead r g ∧
      ¬ Extends Text.isSpace (fullHead r g) (fullPrefix name).toList := by
  rw [← not_or, ← exists_prefix_iff not_blank_x]
  rintro ⟨v, hv, hbegin⟩
  have hiff := h.prefix_iff_name (q := ⟨r, g, valueOf v hv⟩) hname hr hg
  rw [toList_valueOf] at hiff
  exact hother (hiff.1 hbegin)

/-- An entry of any rules there have been, alone in the cache. -/
theorem Belongs.accepts_iff (hname : Clearable rules name) (hk : Full k) :
    m.accepts (fullPrefix name ++ "*").toList k.toList = true ↔
      (fullPrefix name).toList <+: k.toList := by
  have hne : Text.trimSpace name ≠ "" := by
    rw [hname.1]
    exact hname.2.1
  have hbackend := h.backend (Cache.empty.insert k 1 hk) name
  rw [clear_of_clearable hname, clear_of_clearable hname] at hbackend
  have hkeys : k ∈ ((Cache.empty.insert k 1 hk).deleteByPrefix m .redis name).2.keys ↔
      k ∈ ((Cache.empty.insert k 1 hk).deleteByPrefix m .memory name).2.keys := by
    rw [Except.ok.inj hbackend]
  have hmem : k ∈ (Cache.empty.insert k 1 hk).keys := Cache.mem_keys_insert.2 (Or.inl rfl)
  rw [mem_keys_deleteByPrefix hne, mem_keys_deleteByPrefix hne, and_iff_right hmem,
    and_iff_right hmem, ← Bool.not_eq_true, ← Bool.not_eq_true, not_iff_not,
    selects_memory] at hkeys
  exact hkeys

theorem Belongs.apart_plain (hname : Clearable rules name) :
    ∀ x ∈ name.toList, Glob.special x = false := by
  have hne : Text.trimSpace name ≠ "" := by
    rw [hname.1]
    exact hname.2.1
  rw [← plain_fullPrefix_iff hname.1 hname.2.1]
  obtain ⟨u, hu⟩ := base_prefix_fullPrefix hne
  rcases List.eq_nil_or_concat u with rfl | ⟨w, y, rfl⟩
  · rw [← hu, List.append_nil]
    exact base_plain
  · obtain ⟨t, ht⟩ := fullPrefix_colon name
    rw [List.concat_eq_append] at hu
    have hy : y = ':' := by
      rw [ht, ← List.append_assoc] at hu
      exact List.singleton_inj.1 (List.append_inj' hu rfl).2
    subst hy
    have hw := (Glob.forall_accepts_iff m (x := 'x') (w := w) base_plain
      (show Glob.special ':' = false by decide) (by decide)).1 (by
        intro s
        have hfull : Full (String.ofList (base.toList ++ (s ++ ['x']))) := by
          refine ⟨?_, ?_⟩
          · rw [String.toList_ofList]
            exact List.prefix_append _ _
          · rw [String.toList_ofList, ← List.append_assoc]
            refine (trimmed_singleton not_blank_x).prepend fun x hx => ?_
            exact base_not_blank x hx
        have hiff := h.accepts_iff hname hfull
        rw [String.toList_append, ← hu] at hiff
        simp only [String.toList_ofList] at hiff
        exact hiff)
    rw [← hu]
    intro x hx
    rw [List.mem_append, List.mem_append, List.mem_singleton] at hx
    rcases hx with hx | hx | rfl
    · exact base_plain x hx
    · exact hw x hx
    · rfl

end

/-- The entries of the cache belong to one rule, group and value exactly when the names and
the groups are apart. -/
theorem belongs_iff (rules : List Rule) (groups : Set String) :
    Belongs m rules groups ↔ Apart rules groups := by
  constructor
  · intro h
    exact {
      head := fun r₁ hr₁ r₂ hr₂ g₁ hg₁ g₂ hg₂ hn₁ hu₁ hn₂ hu₂ hext =>
        h.apart_head hr₁ hr₂ hg₁ hg₂ hn₁ hu₁ hn₂ hu₂ hext
      own := fun name hname r hr g hg hown => h.apart_own hname hr hg hown
      other := fun name hname r hr g hg hother => h.apart_other hname hr hg hother
      plain := fun name hname => h.apart_plain hname }
  · intro h
    exact {
      key := fun q₁ q₂ hr₁ hr₂ hg₁ hg₂ hn₁ hu₁ hn₂ hu₂ heq =>
        h.belongs_key hr₁ hr₂ hg₁ hg₂ hn₁ hu₁ hn₂ hu₂ heq
      clear := fun b steps name deleted c hsteps hclear k => h.belongs_clear hsteps hclear
      backend := fun c name => h.belongs_backend c name }

/-- The rule of the default setting for one kind of client. -/
def codex : Rule := ⟨"codex cli trace", true, true⟩

/-- With a colon in the name of a group, a value of one group is read as the other group's. -/
theorem vip_shares_key : ¬ ∀ rules groups, Belongs Glob.matcher rules groups := by
  intro h
  have hkey := (h [codex] {"vip", "vip:eu"}).key
    ⟨codex, "vip", ⟨"eu:session", by decide, by decide⟩⟩
    ⟨codex, "vip:eu", ⟨"session", by decide, by decide⟩⟩
    (by simp) (by simp) (Set.mem_insert _ _) (Set.mem_insert_of_mem _ rfl) rfl rfl rfl rfl
    (by decide)
  exact absurd hkey.2.1 (by decide)

/-! ## Plain names -/

/-- A text up to its first colon. -/
theorem append_colon_inj {a b s t : List Char} (ha : ':' ∉ a) (hb : ':' ∉ b)
    (h : a ++ ':' :: s = b ++ ':' :: t) : a = b ∧ s = t := by
  induction a generalizing b with
  | nil =>
      cases b with
      | nil => exact ⟨rfl, (List.cons.inj h).2⟩
      | cons y b => exact absurd (List.mem_cons.2 (Or.inl (List.cons.inj h).1)) hb
  | cons x a ih =>
      rw [List.mem_cons, not_or] at ha
      cases b with
      | nil => exact absurd (List.cons.inj h).1.symm ha.1
      | cons y b =>
          rw [List.mem_cons, not_or] at hb
          obtain ⟨rfl, htail⟩ := List.cons.inj h
          obtain ⟨rfl, rfl⟩ := ih ha.2 hb.2 htail
          exact ⟨rfl, rfl⟩

/-- A rule whose keys have its name and the group, with a name that needs no change. -/
structure PlainRule (r : Rule) : Prop where
  includeRuleName : r.includeRuleName = true
  includeUsingGroup : r.includeUsingGroup = true
  trimmed : Text.trimSpace r.name = r.name
  nonempty : r.name ≠ ""
  colon : ':' ∉ r.name.toList
  plain : ∀ x ∈ r.name.toList, Glob.special x = false

section

variable {r : Rule} {g : String}

theorem PlainRule.fullHead_eq (h : PlainRule r) (hg : g ≠ "") :
    fullHead r g = base.toList ++ (r.name.toList ++ ':' :: (g.toList ++ [':'])) := by
  rw [fullHead, keyHead, h.includeRuleName, h.includeUsingGroup]
  simp [h.nonempty, hg]

theorem PlainRule.fullPrefix_eq (h : PlainRule r) :
    (fullPrefix r.name).toList = base.toList ++ (r.name.toList ++ [':']) := by
  have hbase : Text.hasPrefix r.name base = false := by
    rw [Bool.eq_false_iff, Ne, Text.hasPrefix_iff]
    intro hbegin
    exact h.colon (hbegin.subset (by decide))
  have hkeep : Text.trimLeftChar r.name ':' = r.name := by
    obtain ⟨x, t, hx⟩ := List.exists_cons_of_ne_nil (mt String.toList_eq_nil_iff.1 h.nonempty)
    have hne : ¬ x = ':' := by
      rintro rfl
      exact h.colon (by rw [hx]; exact List.mem_cons_self)
    rw [Text.trimLeftChar, hx, List.dropWhile_cons, if_neg (by simpa using hne), ← hx,
      String.ofList_toList]
  have hfull : fullKey channelAffinityCacheNamespace r.name = base ++ r.name := by
    unfold fullKey
    dsimp only
    rw [h.trimmed, nsPrefix_eq, if_neg h.nonempty, if_neg (by decide), hbase, hkeep]
    rfl
  have hsuffix : Text.hasSuffix (base ++ r.name) ":" = false := by
    rw [Bool.eq_false_iff, Ne, Text.hasSuffix, List.isSuffixOf_iff_suffix, String.toList_append]
    rintro ⟨t, ht⟩
    obtain ⟨s, y, hs⟩ := (List.eq_nil_or_concat r.name.toList).resolve_left
      (mt String.toList_eq_nil_iff.1 h.nonempty)
    rw [List.concat_eq_append] at hs
    rw [hs, ← List.append_assoc] at ht
    have hy : ':' = y := List.singleton_inj.1 (List.append_inj' ht rfl).2
    exact h.colon (by rw [hs, hy]; exact List.mem_append_right _ (List.mem_singleton.2 rfl))
  rw [fullPrefix, hfull, hsuffix, if_neg Bool.false_ne_true, String.toList_append,
    String.toList_append, List.append_assoc]
  rfl

end

/-- Rules with plain names and groups without colons are apart. -/
theorem apart_of_plain {rules : List Rule} {groups : Set String}
    (hrules : ∀ r ∈ rules, PlainRule r) (hgroups : ∀ g ∈ groups, g ≠ "" ∧ ':' ∉ g.toList) :
    Apart rules groups := by
  have hclearable {name : String} (h : Clearable rules name) :
      ∃ r, PlainRule r ∧ r.name = name := by
    obtain ⟨-, -, r, hfind, -⟩ := h
    have hr := hrules r (List.mem_of_find?_eq_some hfind)
    have hname : Text.trimSpace r.name = name := by
      simpa only [decide_eq_true_eq] using List.find?_some hfind
    exact ⟨r, hr, hr.trimmed.symm.trans hname⟩
  constructor
  · rintro r₁ hr₁ r₂ hr₂ g₁ hg₁ g₂ hg₂ - - - - ⟨t, ht, -⟩
    rw [(hrules r₁ hr₁).fullHead_eq (hgroups g₁ hg₁).1,
      (hrules r₂ hr₂).fullHead_eq (hgroups g₂ hg₂).1, List.append_assoc, List.append_assoc,
      List.cons_append, List.append_assoc] at ht
    obtain ⟨hname, hrest⟩ := append_colon_inj (hrules r₂ hr₂).colon (hrules r₁ hr₁).colon
      (List.append_cancel_left ht)
    obtain ⟨hgroup, -⟩ := append_colon_inj (hgroups g₂ hg₂).2 (hgroups g₁ hg₁).2 hrest
    exact ⟨(String.toList_inj.1 hname).symm, (String.toList_inj.1 hgroup).symm⟩
  · intro name hname r hr g hg hown
    obtain ⟨r', hr', rfl⟩ := hclearable hname
    rw [(hrules r hr).trimmed] at hown
    rw [hr'.fullPrefix_eq, (hrules r hr).fullHead_eq (hgroups g hg).1, hown]
    exact (List.prefix_append_right_inj _).2 ((List.prefix_append_right_inj _).2
      (List.cons_prefix_cons.2 ⟨rfl, List.nil_prefix⟩))
  · intro name hname r hr g hg hother
    obtain ⟨r', hr', rfl⟩ := hclearable hname
    rw [(hrules r hr).trimmed] at hother
    rw [hr'.fullPrefix_eq, (hrules r hr).fullHead_eq (hgroups g hg).1]
    refine ⟨?_, ?_⟩
    · rintro ⟨t, ht⟩
      rw [List.append_assoc, List.append_assoc] at ht
      exact hother (String.toList_inj.1
        (append_colon_inj hr'.colon (hrules r hr).colon (List.append_cancel_left ht)).1).symm
    · rintro ⟨t, ht, -⟩
      rw [List.append_assoc, List.append_assoc] at ht
      exact hother (String.toList_inj.1
        (append_colon_inj hr'.colon (hrules r hr).colon (List.append_cancel_left ht)).1).symm
  · intro name hname
    obtain ⟨r, hr, rfl⟩ := hclearable hname
    exact hr.plain

end DazeApi.Channels.Affinity

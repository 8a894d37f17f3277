import DazeApi.Lib.JsonWrite
import DazeApi.Overrides.Instructions

/-!
# Fields and headers in step

`sync_fields` (`relay/common/override.go`) copies the value of one of two targets to the other
if that one has none.  A value comes back as it was written only if it can be written: an object is
no header, and the text of a header is trimmed (`synchronized_of_writable`).
-/

namespace DazeApi.Overrides.SyncFields

open JsonText JsonPath JsonDecode JsonWrite PruneObjects ParamOverride
open Failing (bind_eq_ok)
open Relay hiding syncFieldsBetweenTargets
open Wildcard (getText setText)

/-! ## What is meant -/

/-- The value as a target holds it. -/
def form (env : Env) : SyncTarget → Json → Json
  | .json _, v => v
  | .header _, v => .str (env.text v)

/-- The targets are in step, in whatever order they are named, and stay so. -/
structure Synchronized (env : Env) (doc : Json) (ctx : Context) (fromSpec toSpec : String)
    (source target : SyncTarget) : Prop where
  symmetric : syncFieldsBetweenTargets env doc ctx fromSpec toSpec =
    syncFieldsBetweenTargets env doc ctx toSpec fromSpec
  once : ∃ doc' ctx', syncFieldsBetweenTargets env doc ctx fromSpec toSpec = .ok (doc', ctx') ∧
    (∀ v, readSyncTargetValue env doc ctx source = some v →
      readSyncTargetValue env doc' ctx' source = some v) ∧
    (∀ v, readSyncTargetValue env doc ctx target = some v →
      readSyncTargetValue env doc' ctx' target = some v) ∧
    (∀ v, readSyncTargetValue env doc ctx source = some v →
      readSyncTargetValue env doc ctx target = none →
        readSyncTargetValue env doc' ctx' target = some (form env target v)) ∧
    (∀ v, readSyncTargetValue env doc ctx target = some v →
      readSyncTargetValue env doc ctx source = none →
        readSyncTargetValue env doc' ctx' source = some (form env source v)) ∧
    syncFieldsBetweenTargets env doc' ctx' fromSpec toSpec = .ok (doc', ctx')

/-- The targets do not address each other's subtree. -/
def Independent (doc : Json) : SyncTarget → SyncTarget → Prop
  | .json k, .json l =>
      Apart doc (segments (NegativeIndex.processNegativeIndex doc k))
        (segments (NegativeIndex.processNegativeIndex doc l)) ∧
      Apart doc (segments (NegativeIndex.processNegativeIndex doc l))
        (segments (NegativeIndex.processNegativeIndex doc k))
  | .header m, .header n => normalizeHeaderContextKey m ≠ normalizeHeaderContextKey n
  | _, _ => True

/-! ## When it is -/

/-- No segment of a path begins like a negative index. -/
def Positive : SyncTarget → Prop
  | .json key => ∀ s ∈ segments key, NegativeIndex.negativeDigits s.toList = none
  | .header _ => True

/-- A target can take a value as it is. -/
def CanTake (env : Env) (doc : Json) (ctx : Context) (v : Json) : SyncTarget → Prop
  | .json key => key ≠ "" ∧ Writable doc (segments key)
  | .header name => normalizeHeaderContextKey name ≠ "" ∧ env.text v ≠ "" ∧
      ∃ w, resolveHeaderOverrideValue ctx (normalizeHeaderContextKey name) (env.headerValue v) =
        .ok (some w) ∧ Text.trimSpace w = env.text v

/-- If only one target has a value, the other one can take it; no path of a document that is
written has a negative index. -/
def Ready (env : Env) (doc : Json) (ctx : Context) (source target : SyncTarget) : Prop :=
  ∀ v, readSyncTargetValue env doc ctx source = some v →
    readSyncTargetValue env doc ctx target = none →
      CanTake env doc ctx v target ∧ ∀ key, target = .json key → Positive target ∧ Positive source

section

variable {env : Env} {doc doc' v : Json} {ctx ctx' : Context} {source target : SyncTarget}
  {fromSpec toSpec key : String}

theorem processNegativeIndex_of_positive (h : Positive (.json key)) (doc : Json) :
    NegativeIndex.processNegativeIndex doc key = key := by
  obtain ⟨p, ps, heq, hlist, hdots⟩ := Text.splitAt_spec key '.'
  rw [List.forall_mem_cons] at hdots
  have hnone : NegativeIndex.findNegative key.toList = [] := by
    rw [hlist, NegativeIndex.findNegative_append hdots.1,
      NegativeIndex.findNegative_joinTail hdots.2, List.filterMap_eq_nil_iff]
    exact fun s hs => h s (by rw [segments, heq]; exact .tail _ hs)
  rw [NegativeIndex.processNegativeIndex, hnone, List.foldl_nil, String.ofList_toList]

theorem ne_minus_one_of_positive (h : Positive (.json key)) : ∀ s ∈ segments key, s ≠ "-1" := by
  rintro s hs rfl
  exact absurd (h _ hs) (by decide)

/-- A value that is read is decoded, and is not blank. -/
structure Present (env : Env) (v : Json) : Prop where
  decoded : decode env.nums v = v
  notNull : v ≠ .null
  notBlank : ∀ s, v = .str s → Text.trimSpace s ≠ ""

theorem getHeaderValue_present {name s : String}
    (h : getHeaderValueFromContext ctx name = some s) :
    normalizeHeaderContextKey name ≠ "" ∧ Text.trimSpace s = s ∧ s ≠ "" := by
  simp only [getHeaderValueFromContext] at h
  split at h
  · cases h
  next hname =>
    refine ⟨hname, ?_⟩
    have hvalue {source : Headers} (hs : ((source.lookup (normalizeHeaderContextKey name)).map
        Text.trimSpace).filter (fun v => decide (v ≠ "")) = some s) :
        Text.trimSpace s = s ∧ s ≠ "" := by
      rw [Option.filter_eq_some_iff] at hs
      obtain ⟨hs, hne⟩ := hs
      obtain ⟨t, -, rfl⟩ := Option.map_eq_some_iff.1 hs
      exact ⟨Text.trimSpace_trimSpace t, by simpa using hne⟩
    rcases Option.or_eq_some_iff.1 h with h | ⟨-, h⟩
    · exact hvalue h
    · exact hvalue h

theorem present_of_read (h : readSyncTargetValue env doc ctx source = some v) : Present env v := by
  cases source with
  | json key =>
      rw [readSyncTargetValue] at h
      split at h
      · cases h
      · cases h
      next s _ =>
        split at h
        · cases h
        next hblank =>
          cases h
          exact ⟨rfl, Json.noConfusion, fun t ht => Json.str.inj ht ▸ hblank⟩
      next j hnull hstr _ =>
        cases h
        refine ⟨decode_of_canonical (canonical_decode j), fun h => ?_, fun t ht => ?_⟩
        · cases j with
          | null => exact hnull rfl
          | _ => cases h
        · cases j with
          | str s => exact absurd rfl (hstr s)
          | _ => cases ht
  | header name =>
      rw [readSyncTargetValue] at h
      obtain ⟨s, hs, rfl⟩ := Option.map_eq_some_iff.1 h
      obtain ⟨-, htrim, hne⟩ := getHeaderValue_present hs
      refine ⟨rfl, Json.noConfusion, fun t ht => ?_⟩
      rw [← Json.str.inj ht, htrim]
      exact hne

theorem read_of_present (hv : Present env v)
    (h : getText doc (NegativeIndex.processNegativeIndex doc key) = some v) :
    readSyncTargetValue env doc ctx (.json key) = some v := by
  rw [readSyncTargetValue, h]
  cases v with
  | null => exact absurd rfl hv.notNull
  | str s => exact if_neg (hv.notBlank s rfl)
  | _ => exact congrArg some hv.decoded

/-! ## Writing one target -/

/-- A header is read from the overrides first. -/
theorem getHeaderValue_eq (ctx : Context) {name : String}
    (hname : normalizeHeaderContextKey name ≠ "") :
    getHeaderValueFromContext ctx name =
      (((ctx.headerOverride.lookup (normalizeHeaderContextKey name)).map Text.trimSpace).filter
        (· ≠ "")).or
      (((ctx.requestHeaders.lookup (normalizeHeaderContextKey name)).map Text.trimSpace).filter
        (· ≠ "")) := by
  simp only [getHeaderValueFromContext, if_neg hname]

theorem setHeader_eq (ctx : Context) {name : String} (hname : normalizeHeaderContextKey name ≠ "")
    (value : HeaderValue) :
    setHeaderOverrideInContext ctx name value false =
      (resolveHeaderOverrideValue ctx (normalizeHeaderContextKey name) value).bind fun r =>
        match r with
        | none => .ok { ctx with
            headerOverride := ctx.headerOverride.erase (normalizeHeaderContextKey name) }
        | some v => .ok { ctx with
            headerOverride := ctx.headerOverride.insert (normalizeHeaderContextKey name) v } := by
  simp only [setHeaderOverrideInContext, if_neg hname, Bool.false_eq_true, false_and, if_false]
  rfl

/-- The header of another name is what it was. -/
theorem getHeaderValue_insert {m n w : String}
    (hne : normalizeHeaderContextKey m ≠ normalizeHeaderContextKey n) :
    getHeaderValueFromContext { ctx with
      headerOverride := ctx.headerOverride.insert (normalizeHeaderContextKey n) w } m =
        getHeaderValueFromContext ctx m := by
  by_cases hname : normalizeHeaderContextKey m = ""
  · simp only [getHeaderValueFromContext, if_pos hname]
  · rw [getHeaderValue_eq _ hname, getHeaderValue_eq _ hname, AList.lookup_insert_ne hne]

/-- A value that can be taken is written, and both targets have it then. -/
theorem written (hread : readSyncTargetValue env doc ctx source = some v)
    (htake : CanTake env doc ctx v target)
    (hpositive : ∀ key, target = .json key → Positive target ∧ Positive source)
    (hind : Independent doc source target) :
    ∃ doc' ctx', writeSyncTargetValue env doc ctx v target = .ok (doc', ctx') ∧
      readSyncTargetValue env doc' ctx' source = some v ∧
      readSyncTargetValue env doc' ctx' target = some (form env target v) := by
  have hv := present_of_read hread
  cases target with
  | json key =>
      obtain ⟨hkey, hwritable⟩ := htake
      obtain ⟨hpos, hposSource⟩ := hpositive key rfl
      have hkeep := processNegativeIndex_of_positive hpos
      obtain ⟨doc', hset⟩ := (set_isSome_iff (ne_minus_one_of_positive hpos)).2 hwritable
      refine ⟨doc', ctx, ?_, ?_, ?_⟩
      · rw [writeSyncTargetValue, hkeep, setText, if_neg hkey, hset]
        rfl
      · cases source with
        | header name => exact hread
        | json key' =>
            have hkeep' := processNegativeIndex_of_positive hposSource
            rw [Independent, hkeep, hkeep'] at hind
            rw [readSyncTargetValue, hkeep'] at hread ⊢
            cases hc : getText doc key' with
            | none => rw [hc] at hread; cases hread
            | some c =>
                rw [hc] at hread
                rw [getText, get_of_set_of_apart hind.2 hset hc]
                exact hread
      · refine read_of_present hv ?_
        rw [hkeep]
        exact get_of_set (ne_minus_one_of_positive hpos) hset
  | header name =>
      obtain ⟨hname, htext, w, hw, htrim⟩ := htake
      refine ⟨doc, _, by rw [writeSyncTargetValue, setHeader_eq ctx hname, hw]; rfl, ?_, ?_⟩
      · cases source with
        | json key => exact hread
        | header name' =>
            rw [readSyncTargetValue, getHeaderValue_insert hind]
            exact hread
      · rw [readSyncTargetValue, getHeaderValue_eq _ hname, AList.lookup_insert, Option.map_some,
          htrim, Option.filter_some, if_pos (decide_eq_true htext)]
        rfl

/-- A value that is read as it was written could be taken. -/
theorem canTake_of_written {ctx' : Context} {doc' : Json} (hpos : Positive target)
    (hnone : readSyncTargetValue env doc ctx target = none)
    (hwrite : writeSyncTargetValue env doc ctx v target = .ok (doc', ctx'))
    (hread : readSyncTargetValue env doc' ctx' target = some (form env target v)) :
    CanTake env doc ctx v target := by
  cases target with
  | json key =>
      obtain ⟨d, hset, -⟩ := bind_eq_ok hwrite
      rw [processNegativeIndex_of_positive hpos, setText] at hset
      split at hset
      · cases hset
      next hkey =>
        refine ⟨hkey, (set_isSome_iff (v := v) (ne_minus_one_of_positive hpos)).1 ?_⟩
        cases hd : JsonPath.set doc (segments key) v with
        | none => rw [hd] at hset; cases hset
        | some d' => exact ⟨d', rfl⟩
  | header name =>
      obtain ⟨c, hset, heq⟩ := bind_eq_ok hwrite
      cases heq
      have hname : normalizeHeaderContextKey name ≠ "" := by
        intro hempty
        simp only [setHeaderOverrideInContext, if_pos hempty] at hset
        cases hset
      rw [readSyncTargetValue, Option.map_eq_none_iff, getHeaderValue_eq _ hname,
        Option.or_eq_none_iff] at hnone
      rw [setHeader_eq ctx hname] at hset
      obtain ⟨r, hr, hset⟩ := bind_eq_ok hset
      rw [readSyncTargetValue, form] at hread
      obtain ⟨s, hs, hform⟩ := Option.map_eq_some_iff.1 hread
      rw [getHeaderValue_eq _ hname] at hs
      cases r with
      | none =>
          cases hset
          rw [AList.lookup_erase, Option.map_none, Option.filter_none, hnone.2] at hs
          cases hs
      | some w =>
          cases hset
          rw [hnone.2, Option.or_none, AList.lookup_insert, Option.map_some,
            Option.filter_eq_some_iff] at hs
          have htext : Text.trimSpace w = env.text v :=
            (Option.some.inj hs.1).trans (Json.str.inj hform)
          refine ⟨hname, ?_, w, hr, htext⟩
          rw [← Json.str.inj hform]
          simpa using hs.2

/-! ## Both targets -/

theorem sync_eq (hfrom : parseSyncTarget fromSpec = .ok source)
    (hto : parseSyncTarget toSpec = .ok target) :
    syncFieldsBetweenTargets env doc ctx fromSpec toSpec =
      match readSyncTargetValue env doc ctx source, readSyncTargetValue env doc ctx target with
      | some v, none => writeSyncTargetValue env doc ctx v target
      | none, some v => writeSyncTargetValue env doc ctx v source
      | _, _ => .ok (doc, ctx) := by
  rw [syncFieldsBetweenTargets, hfrom, hto]
  rfl

theorem independent_symm (h : Independent doc source target) : Independent doc target source := by
  cases source <;> cases target
  · exact ⟨h.2, h.1⟩
  · trivial
  · trivial
  · exact h.symm

theorem sync_symm (hfrom : parseSyncTarget fromSpec = .ok source)
    (hto : parseSyncTarget toSpec = .ok target) :
    syncFieldsBetweenTargets env doc ctx fromSpec toSpec =
      syncFieldsBetweenTargets env doc ctx toSpec fromSpec := by
  rw [sync_eq hfrom hto, sync_eq hto hfrom]
  cases readSyncTargetValue env doc ctx source <;> cases readSyncTargetValue env doc ctx target <;>
    rfl

/-- Two targets that are ready are brought in step. -/
theorem synchronized_of_ready (hfrom : parseSyncTarget fromSpec = .ok source)
    (hto : parseSyncTarget toSpec = .ok target) (hind : Independent doc source target)
    (hready : Ready env doc ctx source target) (hready' : Ready env doc ctx target source) :
    Synchronized env doc ctx fromSpec toSpec source target := by
  refine ⟨sync_symm hfrom hto, ?_⟩
  have hsync := @sync_eq env doc ctx source target fromSpec toSpec hfrom hto
  cases hsource : readSyncTargetValue env doc ctx source with
  | none =>
      cases htarget : readSyncTargetValue env doc ctx target with
      | none =>
          rw [hsource, htarget] at hsync
          refine ⟨doc, ctx, hsync, ?_, ?_, ?_, ?_, hsync⟩ <;> intro v h <;> cases h
      | some v =>
          obtain ⟨htake, hpositive⟩ := hready' v htarget hsource
          obtain ⟨doc', ctx', hwrite, hthere, hhere⟩ :=
            written htarget htake hpositive (independent_symm hind)
          rw [hsource, htarget] at hsync
          refine ⟨doc', ctx', hsync.trans hwrite, fun w h => absurd h (Option.some_ne_none w).symm,
            ?_, fun w h => absurd h (Option.some_ne_none w).symm, ?_, ?_⟩
          · rintro w ⟨⟩
            exact hthere
          · rintro w ⟨⟩ -
            exact hhere
          · rw [sync_eq hfrom hto, hthere, hhere]
  | some v =>
      cases htarget : readSyncTargetValue env doc ctx target with
      | none =>
          obtain ⟨htake, hpositive⟩ := hready v hsource htarget
          obtain ⟨doc', ctx', hwrite, hthere, hhere⟩ := written hsource htake hpositive hind
          rw [hsource, htarget] at hsync
          refine ⟨doc', ctx', hsync.trans hwrite, ?_,
            fun w h => absurd h (Option.some_ne_none w).symm, ?_,
            fun w h => absurd h (Option.some_ne_none w).symm, ?_⟩
          · rintro w ⟨⟩
            exact hthere
          · rintro w ⟨⟩ -
            exact hhere
          · rw [sync_eq hfrom hto, hthere, hhere]
      | some w =>
          rw [hsource, htarget] at hsync
          refine ⟨doc, ctx, hsync, ?_, ?_, fun _ _ h => absurd h (Option.some_ne_none w),
            fun _ _ h => absurd h (Option.some_ne_none v), hsync⟩
          · rintro w ⟨⟩
            exact hsource
          · rintro w ⟨⟩
            exact htarget

theorem ready_of_synchronized (hfrom : parseSyncTarget fromSpec = .ok source)
    (hto : parseSyncTarget toSpec = .ok target) (hpos : Positive source) (hpos' : Positive target)
    (h : Synchronized env doc ctx fromSpec toSpec source target) :
    Ready env doc ctx source target ∧ Ready env doc ctx target source := by
  obtain ⟨doc', ctx', hsync, -, -, hforward, hbackward, -⟩ := h.once
  rw [sync_eq hfrom hto] at hsync
  constructor
  · intro v hsource htarget
    have hread := hforward v hsource htarget
    rw [hsource, htarget] at hsync
    exact ⟨canTake_of_written hpos' htarget hsync hread, fun _ _ => ⟨hpos', hpos⟩⟩
  · intro v htarget hsource
    have hread := hbackward v htarget hsource
    rw [hsource, htarget] at hsync
    exact ⟨canTake_of_written hpos hsource hsync hread, fun _ _ => ⟨hpos, hpos'⟩⟩

end

/-- An object is a mapping of header tokens. -/
def mappingEnv : Env :=
  { Instructions.plainEnv with
    headerValue := fun j =>
      match j with
      | .obj ms => .mapping {
          entries := ms.foldl (fun acc m => acc.insert m.1 (.ok [text naturalNumbers m.2])) ∅
          keepOnlyDeclared := false }
      | j => .text (text naturalNumbers j) }

def metadataRequest : Json := .obj [("metadata", .obj [("user_id", .str "u1")])]

end DazeApi.Overrides.SyncFields

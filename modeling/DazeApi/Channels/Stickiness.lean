import DazeApi.Channels.Distributor
import DazeApi.Lib.Decimal
import DazeApi.Lib.Pool

/-!
# Who is sent where it was sent before

The affinity cache answers what its history says (`cacheGet_iff`), and the history is made of
requests that were answered.  From that `affinity_spec`: a request is sent to its preferred channel
exactly when the last record under its key has not expired, and its channel is enabled and serves
the model; the record is that of a request which was answered by that channel; and a request whose
rule forbids retries has been at one channel only.  It also says for which requests the key that is
read is the one that is written.
-/

namespace DazeApi.Channels.Distributor

open Expiring
open Affinity (channelAffinityCacheNamespace fullKey buildChannelAffinityCacheKeySuffix)

/-! ## Keys -/

/-- The suffix begins neither with a blank nor a colon nor with the namespace. -/
def ReadsBack (suffix : String) : Prop :=
  (∀ x, suffix.toList.head? = some x → Text.isSpace x = false ∧ x ≠ ':') ∧
    Text.hasPrefix suffix Affinity.base = false

theorem length_trimSpace_le (s : String) :
    (Text.trimSpace s).toList.length ≤ s.toList.length := by
  rw [Text.trimSpace, String.toList_ofList, List.length_reverse]
  have hright := (List.dropWhile_suffix Text.isSpace
    (l := (s.toList.dropWhile Text.isSpace).reverse)).length_le
  have hleft := (List.dropWhile_suffix Text.isSpace (l := s.toList)).length_le
  rw [List.length_reverse] at hright
  exact Nat.le_trans hright hleft

theorem dropWhile_colon_of_head {l : List Char} (h : ∀ x, l.head? = some x → x ≠ ':') :
    l.dropWhile (· = ':') = l := by
  cases l with
  | nil => rfl
  | cons x t => rw [List.dropWhile_cons, if_neg (by simpa using h x rfl)]

/-- A key without blanks at its end is read back as it is written. -/
theorem fullKey_eq_iff {suffix : String} (hends : ∃ t y, suffix.toList = t ++ [y] ∧
    Text.isSpace y = false) :
    fullKey channelAffinityCacheNamespace suffix = Affinity.base ++ suffix ↔ ReadsBack suffix := by
  obtain ⟨t, y, hend, hy⟩ := hends
  have hlen := length_trimSpace_le suffix
  have hne : suffix ≠ "" := by
    rintro rfl
    simp at hend
  constructor
  · intro heq
    simp only [fullKey, Affinity.nsPrefix_eq] at heq
    split at heq
    next =>
      have := congrArg String.toList heq
      simp [Affinity.base] at this
    next hkey =>
      rw [if_neg (by decide)] at heq
      split at heq
      next =>
        -- a key with the namespace stays as it is, and is too short
        have hl := congrArg (List.length ∘ String.toList) heq
        simp only [Function.comp_apply, String.toList_append, List.length_append] at hl
        have hbase : 0 < Affinity.base.toList.length := by decide
        omega
      next hnotBase =>
        have hl : (Text.trimSpace suffix).toList.dropWhile (· = ':') = suffix.toList := by
          have := congrArg String.toList heq
          simpa [Text.trimLeftChar] using this
        have hdrop := (List.dropWhile_suffix (· = ':') (l := (Text.trimSpace suffix).toList))
        have hself := hdrop.eq_of_length (by have := hdrop.length_le; rw [hl] at this ⊢; omega)
        have htrim : Text.trimSpace suffix = suffix := by
          rw [← String.toList_inj, ← hself, hl]
        rw [htrim] at hnotBase hself
        refine ⟨fun x hx => ?_, Bool.eq_false_iff.2 hnotBase⟩
        have htrimmed := Affinity.trimmed_of_trimSpace_eq htrim hne
        obtain ⟨z, u, hz, hblank⟩ := htrimmed.begins
        rw [hz] at hx hself
        cases hx
        exact ⟨hblank, by simpa using Affinity.eq_false_of_dropWhile hself⟩
  · rintro ⟨hhead, hnotBase⟩
    have htrimmed : Heads.Trimmed Text.isSpace suffix.toList := by
      refine ⟨?_, ⟨t, y, hend, hy⟩⟩
      cases hs : suffix.toList with
      | nil => exact absurd (String.toList_eq_nil_iff.1 hs) hne
      | cons x u => exact ⟨x, u, rfl, (hhead x (by rw [hs]; rfl)).1⟩
    unfold fullKey
    rw [Affinity.trimSpace_eq_of_trimmed htrimmed, Affinity.nsPrefix_eq, if_neg hne,
      if_neg (by decide), if_neg (by simp [hnotBase]), Text.trimLeftChar,
      dropWhile_colon_of_head fun x hx => (hhead x hx).2, String.ofList_toList]

theorem trimSpace_extract (r : Request) (src : KeySource) :
    Text.trimSpace (extractChannelAffinityValue r src) = extractChannelAffinityValue r src := by
  have hempty : Text.trimSpace "" = "" := by decide
  unfold extractChannelAffinityValue
  split
  next =>
    split
    next => exact hempty
    next =>
      refine Text.trimSpace_of_forall fun c hc => Text.isSpace_eq_false_of_isDigit ?_
      rw [Nat.repr, String.toList_ofList] at hc
      exact Decimal.isDigit_of_mem_formatNat hc
  next =>
    split
    next =>
      split
      · exact hempty
      · exact Text.trimSpace_trimSpace _
    next =>
      split
      next =>
        split
        · exact hempty
        · exact Text.trimSpace_trimSpace _
      next => exact hempty

theorem affinityValue_spec {r : Request} {rule : AffinityRule} {value : String}
    (h : affinityValue r rule = some value) : Text.trimSpace value = value ∧ value ≠ "" := by
  have hne := List.find?_some h
  obtain ⟨src, -, rfl⟩ := List.mem_map.1 (List.mem_of_find?_eq_some h)
  exact ⟨trimSpace_extract r src, by simpa using hne⟩

variable {env : Env} {setting : Setting} {r : Request} {m : Meta} {s s' : State} {a : Act}

theorem findRule_spec {rules : List AffinityRule} {found : AffinityRule × String}
    (h : findRule env r rules = some found) : affinityValue r found.1 = some found.2 := by
  induction rules with
  | nil => cases h
  | cons rule rules ih =>
      rw [findRule] at h
      split at h
      · exact ih h
      · split at h
        · exact ih h
        · next value hvalue =>
            split at h
            · exact ih h
            · cases h
              exact hvalue

/-- The key of a request as the cache module has it. -/
theorem metaOf_spec (h : metaOf env setting r = some m) :
    ∃ q : Affinity.Request, m.cacheKeySuffix =
      buildChannelAffinityCacheKeySuffix q.rule q.usingGroup q.value.text := by
  unfold metaOf at h
  split at h
  · cases h
  · obtain ⟨found, hfound, rfl⟩ := Option.map_eq_some_iff.1 h
    obtain ⟨htrim, hne⟩ := affinityValue_spec (findRule_spec hfound)
    exact ⟨⟨found.1.toRule, r.relay.tokenGroup, ⟨found.2, htrim, hne⟩⟩, rfl⟩

theorem writtenKey_eq (h : metaOf env setting r = some m) :
    m.writtenKey = Affinity.base ++ m.cacheKeySuffix := by
  obtain ⟨q, hq⟩ := metaOf_spec h
  have hfull := (Affinity.full_cacheKeyFull q).fullKey_eq
  rw [Affinity.Request.cacheKeyFull, ← hq] at hfull
  exact hfull

/-- The key that is read is the key that is written, with these exceptions. -/
theorem readKey_eq_iff (h : metaOf env setting r = some m) :
    m.readKey = m.writtenKey ↔ ReadsBack m.cacheKeySuffix := by
  rw [writtenKey_eq h, Meta.readKey]
  refine fullKey_eq_iff ?_
  obtain ⟨q, hq⟩ := metaOf_spec h
  obtain ⟨t, y, ht, hy⟩ := q.value.isTrimmed.ends
  refine ⟨(Affinity.keyHead q.rule q.usingGroup).toList ++ t, y, ?_, hy⟩
  rw [hq, Affinity.suffix_eq, String.toList_append, ht, List.append_assoc]

/-! ## What the distributor does -/

section

variable {f : Flight} {sel : Selected} {c : Channel} {g : String} {id : Int} {fails : Bool}

theorem usePreferred_eq_some {t : Index.Cache} :
    usePreferred t r m id = .ok (some (c, g)) ↔
      t.channelsIDM id = some c ∧ c.enabled = true ∧ servingGroup t r c.id = some g := by
  unfold usePreferred Selection.cachedChannel
  cases t.channelsIDM id with
  | none => simp
  | some d =>
      by_cases hd : d.enabled = true
      · simp only [hd, Bool.not_true, Bool.false_eq_true, if_false, Except.ok.injEq,
          Option.map_eq_some_iff, Prod.mk.injEq, Option.some.injEq]
        constructor
        · rintro ⟨k, hk, rfl, rfl⟩
          exact ⟨rfl, hd, hk⟩
        · rintro ⟨rfl, -, hk⟩
          exact ⟨g, hk, rfl, rfl⟩
      · cases hskip : m.skipRetry <;> simp [hd] <;> rintro rfl <;> simp [hd]

theorem getPreferred_eq_some :
    getPreferredChannelByAffinity env s fails r = (some m, some id) ↔
      metaOf env s.setting r = some m ∧ fails = false ∧ s.cacheGet m.readKey = some id := by
  unfold getPreferredChannelByAffinity
  cases metaOf env s.setting r with
  | none => simp
  | some n =>
      cases fails
      · simp only [Prod.mk.injEq, Option.some.injEq, Bool.false_eq_true, if_false, true_and]
        constructor
        · rintro ⟨rfl, h⟩
          exact ⟨rfl, h⟩
        · rintro ⟨rfl, h⟩
          exact ⟨rfl, h⟩
      · simp

theorem getPreferred_fst : (getPreferredChannelByAffinity env s fails r).1 = metaOf env s.setting r := by
  unfold getPreferredChannelByAffinity
  split
  next h => exact h.symm
  next h => exact h.symm

/-- A selected channel is the preferred one, or that one does not serve and another was drawn. -/
theorem select_cases {a : Answers} (h : select env s r a = .ok sel) :
    (∃ m id c g, getPreferredChannelByAffinity env s a.readFails r = (some m, some id) ∧
      usePreferred s.channels r m id = .ok (some (c, g)) ∧
      sel = ⟨some m, some c, g, some m.skipRetry⟩) ∨
    (sel.info = metaOf env s.setting r ∧ sel.used = none ∧
      ∀ m id, getPreferredChannelByAffinity env s a.readFails r = (some m, some id) →
        usePreferred s.channels r m id = .ok none) := by
  unfold select at h
  have hfst : (getPreferredChannelByAffinity env s a.readFails r).1 = metaOf env s.setting r :=
    getPreferred_fst
  generalize getPreferredChannelByAffinity env s a.readFails r = found at h hfst ⊢
  obtain ⟨info, id⟩ := found
  simp only at h hfst
  split at h
  next => cases h
  next used hused =>
    split at hused
    next m id =>
      cases h
      obtain ⟨c, g⟩ := used
      exact .inl ⟨m, id, c, g, rfl, hused, rfl⟩
    next => cases hused
  next hnone =>
    split at h
    next =>
      cases h
      refine .inr ⟨hfst, rfl, fun m i hmi => ?_⟩
      cases hmi
      exact hnone
    next => cases h

/-- Whose token names a channel, or who needs none, has nothing to do with the cache. -/
theorem distribute_cases {a : Answers} (h : distribute env s r a = .ok sel) :
    (sel.info = none ∧ sel.used = none ∧ ¬ (r.tokenChannel = none ∧ r.shouldSelectChannel = true)) ∨
    (r.tokenChannel = none ∧ r.shouldSelectChannel = true ∧ select env s r a = .ok sel) := by
  unfold distribute at h
  split at h
  next => cases h
  next sel' hsel =>
    split at h
    · cases h
    · cases h
      unfold selectChannel at hsel
      split at hsel
      next id htoken =>
        have hne : ¬ (r.tokenChannel = none ∧ r.shouldSelectChannel = true) := by simp [htoken]
        split at hsel
        · cases hsel
        · split at hsel
          · cases hsel
          · cases hsel
            exact .inl ⟨rfl, rfl, hne⟩
      next htoken =>
        split at hsel
        next hselect =>
          cases hsel
          exact .inl ⟨rfl, rfl, fun hboth => by simp [hboth.2] at hselect⟩
        next hselect =>
          split at hsel
          · cases hsel
          · exact .inr ⟨htoken, by simpa using hselect, hsel⟩

end

/-! ## Runs -/

/-- What a request was given when it came, and that it was not sent on where that is forbidden. -/
structure Flight.Kept (env : Env) (f : Flight) : Prop where
  info : ∀ m, f.info = some m → ∃ setting, metaOf env setting f.request = some m
  used : ∀ skip, f.used = some skip → skip = f.info.any (·.skipRetry)
  bound : f.info.any (·.skipRetry) = true → f.tried = [f.first]

section

variable {f : Flight} {sel : Selected} {proc : Proc} {p : Nat}

theorem Flight.Kept.skips (h : f.Kept env) :
    f.shouldSkipRetryAfterChannelAffinityFailure = f.info.any (·.skipRetry) := by
  unfold Flight.shouldSkipRetryAfterChannelAffinityFailure
  split
  next hused => exact h.used _ hused
  next => rfl

theorem Flight.Kept.retried (h : f.Kept env) {e : Types.NewAPIError} {n : Int}
    (hretry : f.shouldRetry e n = true) (id : Int) :
    Flight.Kept env { f with tried := id :: f.tried } where
  info := h.info
  used := h.used
  bound hskip := by
    have hskips : f.shouldSkipRetryAfterChannelAffinityFailure = true := h.skips.trans hskip
    simp [Flight.shouldRetry, Relay.shouldRetry, hskips] at hretry

theorem Flight.Kept.arrived {a : Answers} (h : distribute env s r a = .ok sel) (id : Int) :
    Flight.Kept env ⟨r, sel.info, sel.used, id, [id]⟩ where
  info m hm := by
    obtain ⟨hinfo, -⟩ | ⟨-, -, hselect⟩ := distribute_cases h
    · exact absurd (hinfo.symm.trans hm) nofun
    · obtain ⟨n, i, c, g, hpref, -, rfl⟩ | ⟨hinfo, -⟩ := select_cases hselect
      · cases hm
        exact ⟨s.setting, (getPreferred_eq_some.1 hpref).1⟩
      · exact ⟨s.setting, hinfo.symm.trans hm⟩
  used skip hused := by
    obtain ⟨-, hnone, -⟩ | ⟨-, -, hselect⟩ := distribute_cases h
    · exact absurd (hnone.symm.trans hused) nofun
    · obtain ⟨n, i, c, g, -, -, rfl⟩ | ⟨-, hnone, -⟩ := select_cases hselect
      · cases hused
        rfl
      · exact absurd (hnone.symm.trans hused) nofun
  bound _ := rfl

/-- The cache agrees with its history, which answered requests have made. -/
structure Inv (env : Env) (s : State) : Prop where
  agrees : Agrees (fun time => decide (s.clock < time)) s.entries s.events
  recorded : ∀ e, Event.put e ∈ s.events → ∃ f time setting,
    Proc.answered f time setting ∈ s.procs ∧ time ≤ s.clock ∧
      f.recordChannelAffinity setting time = some e
  kept : ∀ proc ∈ s.procs, proc.flight.Kept env

theorem inv_initial (channels : Index.Cache) : Inv env (initial setting channels) where
  agrees := .nil
  recorded _ he := absurd he List.not_mem_nil
  kept _ hp := absurd hp List.not_mem_nil

/-- A request that flies goes on, and those that were answered stay. -/
theorem Inv.goto (h : Inv env s) (hp : s.procs[p]? = some (.flying f))
    (hproc : proc.flight.Kept env) : Inv env (s.goto p proc) where
  agrees := h.agrees
  recorded e he := by
    obtain ⟨g, time, setting, hmem, htime, hrec⟩ := h.recorded e he
    obtain ⟨q, hq, rfl⟩ := Pool.exists_set (P := (· = .answered g time setting)) (q := proc) hp nofun
      ⟨_, hmem, rfl⟩
    exact ⟨g, time, setting, hq, htime, hrec⟩
  kept := Pool.forall_set h.kept hproc

theorem Inv.answer (h : Inv env s) (hp : s.procs[p]? = some (.flying f)) :
    Inv env (s.answer p f) := by
  have hkept : f.Kept env := h.kept _ (List.mem_of_getElem? hp)
  have hgoto : Inv env (s.goto p (.answered f s.clock s.setting)) := h.goto hp hkept
  unfold State.answer
  simp only
  split
  next => exact hgoto
  next e hrec =>
    have hlt : p < s.procs.length := (List.getElem?_eq_some_iff.1 hp).1
    refine ⟨hgoto.agrees.put e, fun d hd => ?_, hgoto.kept⟩
    obtain heq | hd := List.mem_cons.1 hd
    · cases heq
      exact ⟨f, s.clock, s.setting, List.mem_set hlt _, Nat.le_refl _, hrec⟩
    · exact hgoto.recorded d hd

theorem inv_step (h : Inv env s) {a : Act} (hs : step env s a = some s') : Inv env s' := by
  cases a with
  | tick d =>
      cases hs
      refine ⟨h.agrees.older fun n hn => ?_, fun e he => ?_, h.kept⟩
      · simp only [decide_eq_true_eq] at hn ⊢
        omega
      · obtain ⟨f, time, setting, hmem, htime, hrec⟩ := h.recorded e he
        exact ⟨f, time, setting, hmem, Nat.le_trans htime (Nat.le_add_right _ _), hrec⟩
  | setChannels channels =>
      cases hs
      exact ⟨h.agrees, h.recorded, h.kept⟩
  | setSetting setting =>
      cases hs
      exact ⟨h.agrees, h.recorded, h.kept⟩
  | forget key =>
      cases hs
      refine ⟨h.agrees.erase key, fun e he => ?_, h.kept⟩
      obtain heq | he := List.mem_cons.1 he
      · cases heq
      · exact h.recorded e he
  | arrive r a =>
      simp only [step] at hs
      split at hs
      next =>
        cases hs
        exact h
      next sel hsel =>
        split at hs
        next =>
          cases hs
          exact h
        next c hc =>
          cases hs
          refine ⟨h.agrees, fun e he => ?_, Pool.forall_start h.kept (.arrived hsel c.id)⟩
          obtain ⟨f, time, setting, hmem, htime, hrec⟩ := h.recorded e he
          exact ⟨f, time, setting, List.mem_append_left _ hmem, htime, hrec⟩
  | retry p e n id =>
      simp only [step] at hs
      split at hs
      next f hp =>
        split at hs
        next hretry =>
          cases hs
          exact h.goto hp ((h.kept _ (List.mem_of_getElem? hp)).retried hretry id)
        next => cases hs
      next => cases hs
  | finish p ok =>
      simp only [step] at hs
      split at hs
      next f hp =>
        have hkept : f.Kept env := h.kept _ (List.mem_of_getElem? hp)
        cases hs
        split
        · exact h.answer hp
        · exact h.goto hp hkept
      next => cases hs

theorem inv_exec {channels : Index.Cache} {acts : List Act}
    (h : Run.exec (step env) (initial setting channels) acts = some s) : Inv env s :=
  Run.exec_always (fun _ _ _ hI hs => inv_step hI hs) (inv_initial channels) h

/-! ## The cache and its history -/

theorem lifetime_pos (setting : Setting) (m : Meta) : 0 < lifetime setting m := by
  unfold lifetime
  refine Nat.mul_pos ?_ (by decide)
  split <;> omega

theorem of_recordChannelAffinity {f : Flight} {time : Nat} {e : Entry String Int}
    (h : f.recordChannelAffinity setting time = some e) :
    ∃ m, f.info = some m ∧ e.key = m.writtenKey ∧ e.key ≠ "" ∧ time < e.time ∧
      e.value = if setting.switchOnSuccess ∧ 0 < f.channelId then f.channelId else f.first := by
  unfold Flight.recordChannelAffinity at h
  split at h
  · cases h
  · split at h
    · cases h
    · next m hinfo =>
        -- the key is not to be computed
        generalize hwritten : m.writtenKey = key at h
        simp only at h
        split at h
        · cases h
        · next hkey =>
            cases h
            exact ⟨m, hinfo, hwritten.symm, hkey, Nat.lt_add_of_pos_right (lifetime_pos setting m),
              rfl⟩

theorem cacheGet_iff (h : Inv env s) {k : String} {id : Int} :
    s.cacheGet k = some id ↔
      ∃ e, newest s.events k = some e ∧ s.clock < e.time ∧ e.value = id := by
  have hget := h.agrees.get_iff (k := k) (p := fun e => e.value = id)
  simp only [decide_eq_true_eq] at hget
  rw [← hget, State.cacheGet]
  split
  next hk =>
    -- no entry is put under the empty key
    refine ⟨nofun, fun hex => ?_⟩
    obtain ⟨e, hnew, -⟩ := hget.1 hex
    obtain ⟨hkey, hput⟩ := key_of_newest hnew
    obtain ⟨f, time, setting, -, -, hrec⟩ := h.recorded e hput
    obtain ⟨m, -, -, hne, -⟩ := of_recordChannelAffinity hrec
    exact absurd (hkey.trans hk) hne
  next =>
    cases get s.entries k with
    | none => simp
    | some e => simp

/-- The last record under the key of a request has not expired, and its channel serves the model. -/
def Prefers (s : State) (r : Request) (m : Meta) (c : Channel) (g : String) : Prop :=
  ∃ e, newest s.events m.readKey = some e ∧ s.clock < e.time ∧
    s.channels.channelsIDM e.value = some c ∧ c.enabled = true ∧
    servingGroup s.channels r c.id = some g

theorem prefers_iff (h : Inv env s) {c : Channel} {g : String} :
    Prefers s r m c g ↔ ∃ id, s.cacheGet m.readKey = some id ∧
      usePreferred s.channels r m id = .ok (some (c, g)) := by
  constructor
  · rintro ⟨e, hnew, hlt, hserves⟩
    exact ⟨e.value, (cacheGet_iff h).2 ⟨e, hnew, hlt, rfl⟩, usePreferred_eq_some.2 hserves⟩
  · rintro ⟨id, hget, huse⟩
    obtain ⟨e, hnew, hlt, rfl⟩ := (cacheGet_iff h).1 hget
    exact ⟨e, hnew, hlt, usePreferred_eq_some.1 huse⟩

/-- A preferred channel that is used is the one of the last record. -/
theorem used_channel (hinv : Inv env s) {a : Answers} (h : distribute env s r a = .ok sel)
    (hused : sel.used.isSome = true) :
    r.tokenChannel = none ∧ r.shouldSelectChannel = true ∧ a.readFails = false ∧
      ∃ m c g, metaOf env s.setting r = some m ∧ Prefers s r m c g ∧
        sel = ⟨some m, some c, g, some m.skipRetry⟩ := by
  obtain ⟨-, hnone, -⟩ | ⟨htoken, hshould, hselect⟩ := distribute_cases h
  · simp [hnone] at hused
  · obtain ⟨m, id, c, g, hpref, huse, rfl⟩ | ⟨-, hnone, -⟩ := select_cases hselect
    · obtain ⟨hmeta, hfails, hget⟩ := getPreferred_eq_some.1 hpref
      exact ⟨htoken, hshould, hfails, m, c, g, hmeta, (prefers_iff hinv).2 ⟨id, hget, huse⟩, rfl⟩
    · simp [hnone] at hused

theorem used_of_prefers (hinv : Inv env s) {a : Answers} (h : distribute env s r a = .ok sel)
    (htoken : r.tokenChannel = none) (hshould : r.shouldSelectChannel = true)
    (hfails : a.readFails = false) (hmeta : metaOf env s.setting r = some m) {c : Channel}
    {g : String} (hpref : Prefers s r m c g) : sel.used.isSome = true := by
  obtain ⟨id, hget, huse⟩ := (prefers_iff hinv).1 hpref
  have hfound := getPreferred_eq_some.2 ⟨hmeta, hfails, hget⟩
  obtain ⟨-, -, hneither⟩ | ⟨-, -, hselect⟩ := distribute_cases h
  · exact absurd ⟨htoken, hshould⟩ hneither
  · obtain ⟨n, i, d, k, -, -, rfl⟩ | ⟨-, -, hdrawn⟩ := select_cases hselect
    · rfl
    · exact absurd (huse.symm.trans (hdrawn m id hfound)) (by simp)

/-- In every run a request is sent by affinity exactly where the last record under its key has not
expired and its channel is enabled and serves the model, and then to that channel.  The record is
that of an answered request under its own key, with the channel that answered it, or the first one
if the setting does not switch.  Where its rule forbids retries a request is at one channel only.
What a request records it finds again unless its key begins with a blank, a colon or the
namespace. -/
theorem affinity_spec {channels : Index.Cache} {acts : List Act}
    (h : Run.exec (step env) (initial setting channels) acts = some s) :
    (∀ r a sel, distribute env s r a = .ok sel →
      (sel.used.isSome = true ↔
        r.tokenChannel = none ∧ r.shouldSelectChannel = true ∧ a.readFails = false ∧
          ∃ m c g, metaOf env s.setting r = some m ∧ Prefers s r m c g) ∧
      (sel.used.isSome = true → ∃ m c g, Prefers s r m c g ∧
        sel = ⟨some m, some c, g, some m.skipRetry⟩)) ∧
    (∀ k e, newest s.events k = some e → ∃ f time setting m,
      Proc.answered f time setting ∈ s.procs ∧ time ≤ s.clock ∧ time < e.time ∧
        f.info = some m ∧ m.writtenKey = k ∧
        (e.value = if setting.switchOnSuccess ∧ 0 < f.channelId then f.channelId else f.first) ∧
        (m.skipRetry = true → e.value = f.first)) ∧
    (∀ proc ∈ s.procs, ∀ m, proc.flight.info = some m →
      (m.skipRetry = true → proc.flight.tried = [proc.flight.first]) ∧
      (m.readKey = m.writtenKey ↔ ReadsBack m.cacheKeySuffix)) := by
  have hinv := inv_exec h
  refine ⟨fun r a sel hsel => ⟨⟨fun hused => ?_, ?_⟩, fun hused => ?_⟩, fun k e hnew => ?_,
    fun proc hproc m hm => ⟨fun hskip => ?_, ?_⟩⟩
  · obtain ⟨htoken, hshould, hfails, m, c, g, hmeta, hpref, -⟩ := used_channel hinv hsel hused
    exact ⟨htoken, hshould, hfails, m, c, g, hmeta, hpref⟩
  · rintro ⟨htoken, hshould, hfails, m, c, g, hmeta, hpref⟩
    exact used_of_prefers hinv hsel htoken hshould hfails hmeta hpref
  · obtain ⟨-, -, -, m, c, g, -, hpref, heq⟩ := used_channel hinv hsel hused
    exact ⟨m, c, g, hpref, heq⟩
  · obtain ⟨hkey, hput⟩ := key_of_newest hnew
    obtain ⟨f, time, setting, hmem, htime, hrec⟩ := hinv.recorded e hput
    obtain ⟨m, hm, hwritten, -, hlt, hvalue⟩ := of_recordChannelAffinity hrec
    refine ⟨f, time, setting, m, hmem, htime, hlt, hm, hwritten.symm.trans hkey, hvalue,
      fun hskip => ?_⟩
    have htried := (hinv.kept _ hmem).bound (by simpa [Proc.flight, hm] using hskip)
    have hid : f.channelId = f.first := by
      rw [Flight.channelId]
      exact (congrArg (·.headD 0) htried).trans rfl
    rw [hvalue, hid, ite_self]
  · exact (hinv.kept proc hproc).bound (by simpa [hm] using hskip)
  · obtain ⟨setting', hmeta⟩ := (hinv.kept proc hproc).info m hm
    exact readKey_eq_iff hmeta

/-- A pattern matches itself only. -/
def equality : Env := ⟨fun pattern => some fun text => text = pattern⟩

def traceRule : AffinityRule where
  name := "codex"
  includeUsingGroup := true
  includeRuleName := true
  modelRegex := ["gpt"]
  pathRegex := []
  userAgentInclude := []
  keySources := [⟨"gjson", "", "prompt_cache_key"⟩]
  valueRegex := ""
  ttlSeconds := 0
  skipRetryOnFailure := true

def traced : Request where
  relay := ⟨3, [], false, false, false, false, [], "default", "gpt", 0⟩
  tokenChannel := none
  shouldSelectChannel := true
  path := ""
  userAgent := ""
  contextInt _ := 0
  contextString _ := ""
  gjson _ := some "session"

def oneChannel : Index.Cache where
  group2model2channels _ _ := [7]
  channelsIDM _ := some (Index.exampleChannel 7 "gpt" .zero)

def calm : Answers := ⟨none, false, .const 0 1 (by decide), true⟩

/-- The second request is sent where the first one was answered. -/
theorem affinity_spec_sentAgain :
    ∃ s, Run.exec (step equality) (initial ⟨true, true, 3600, [traceRule]⟩ oneChannel)
        [.arrive traced calm, .finish 0 true, .arrive traced calm] = some s ∧
      s.procs.map (·.flight.used) = [none, some true] ∧
      ∀ k e, newest s.events k = some e →
        ∃ f time setting, Proc.answered f time setting ∈ s.procs ∧ time < e.time := by
  obtain ⟨s, hs, hused⟩ := Run.exists_of_any (step equality)
    (initial ⟨true, true, 3600, [traceRule]⟩ oneChannel)
    [.arrive traced calm, .finish 0 true, .arrive traced calm]
    (fun s => s.procs.map (·.flight.used) = [none, some true]) (by decide)
  have hspec := affinity_spec hs
  refine ⟨s, hs, of_decide_eq_true hused, fun k e he => ?_⟩
  obtain ⟨f, time, setting, m, hmem, -, hlt, -⟩ := hspec.2.1 k e he
  exact ⟨f, time, setting, hmem, hlt⟩

end

end DazeApi.Channels.Distributor

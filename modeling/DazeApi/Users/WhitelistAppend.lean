import DazeApi.Users.AdminPermission

/-!
# Appends to a whitelist

Transactions that call `AppendUserToManageWhitelist` for one administrator, under READ COMMITTED: a
transaction reads what is committed, a write holds the row until its transaction ends, and what is
written was made of what was read.
-/

namespace DazeApi.Admin

open JsonText JsonDecode

variable {nums : Numbers}

/-- The ids that a column restricts to. -/
def whitelist (nums : Numbers) (stored : Column) : Option (List Int) :=
  idWhitelist (parseAdminPermission nums stored).manageUsers

/-- What `AppendUserToManageWhitelist` makes of the permission it has read, if it writes. -/
def appendUser (p : AdminPermission nums) (newUserId : Int) : Option (AdminPermission nums) :=
  (idWhitelist p.manageUsers).bind fun ids =>
    if newUserId ∈ ids then none
    else some { p with manageUsers := .ints (some (ids ++ [newUserId])) }

inductive Pos where
  | called (newUserId : Int)
  | found (newUserId : Int) (stored : Column)
  | wrote (newUserId : Int) (value : Column)
  /-- There was nothing to write. -/
  | kept (newUserId : Int)
  | committed (newUserId : Int)
  | rolledBack

structure State where
  column : Column
  /-- The transaction whose write holds the row. -/
  lock : Option Nat
  procs : List Pos
  /-- The new ids of the committed transactions. -/
  added : List Int

inductive Act where
  | start (newUserId : Int)
  | run (i : Nat)
  | rollback (i : Nat)

def initial (stored : Column) : State := ⟨stored, none, [], []⟩

/-- An id of zero is no user. -/
def addId (id : Int) (added : List Int) : List Int := if id = 0 then added else added ++ [id]

/-- The next statement of transaction `i`. -/
def next (nums : Numbers) (s : State) (i : Nat) : Pos → Option (State × Pos)
  | .called newUserId =>
      some (s, if newUserId = 0 then .kept newUserId else .found newUserId s.column)
  | .found newUserId stored =>
      match appendUser (parseAdminPermission nums stored) newUserId with
      | none => some (s, .kept newUserId)
      | some p =>
          if s.lock = none then
            some ({ s with lock := some i }, .wrote newUserId (some (serializeAdminPermission p)))
          else none
  | .wrote newUserId value =>
      some ({ s with column := value, lock := none, added := addId newUserId s.added },
        .committed newUserId)
  | .kept newUserId => some ({ s with added := addId newUserId s.added }, .committed newUserId)
  | .committed _ | .rolledBack => none

/-- The end of a transaction that does not commit. -/
def rollback (s : State) : Pos → Option (State × Pos)
  | .called _ | .found _ _ | .kept _ => some (s, .rolledBack)
  | .wrote _ _ => some ({ s with lock := none }, .rolledBack)
  | .committed _ | .rolledBack => none

def step (nums : Numbers) (s : State) : Act → Option State
  | .start newUserId => some { s with procs := s.procs ++ [.called newUserId] }
  | .run i =>
      s.procs[i]?.bind fun p =>
        (next nums s i p).map fun x => { x.1 with procs := s.procs.set i x.2 }
  | .rollback i =>
      s.procs[i]?.bind fun p =>
        (rollback s p).map fun x => { x.1 with procs := s.procs.set i x.2 }

/-- What is written was made of what the column has still, and `float64` has the new id. -/
def UpToDate (nums : Numbers) (s : State) : Act → Prop
  | .run i => ∀ newUserId stored, s.procs[i]? = some (.found newUserId stored) →
      (appendUser (parseAdminPermission nums stored) newUserId).isSome = true →
        s.column = stored ∧ readId nums newUserId = newUserId
  | _ => True

/-- The column has the whitelist that it had at first, and the ids that were added. -/
def Kept (nums : Numbers) (first : Column) (s : State) : Prop :=
  match whitelist nums first with
  | none => whitelist nums s.column = none
  | some ids => ∃ ids', whitelist nums s.column = some ids' ∧
      ∀ id, id ∈ ids' ↔ id ∈ ids ∨ id ∈ s.added

/-- A whitelist that stays away, or grows. -/
def Grows (nums : Numbers) (stored stored' : Column) : Prop :=
  (whitelist nums stored = none ∧ whitelist nums stored' = none) ∨
    ∃ ids ids', whitelist nums stored = some ids ∧ whitelist nums stored' = some ids' ∧ ids ⊆ ids'

/-- What is known of a transaction by its position. -/
def Knows (nums : Numbers) (s : State) (i : Nat) : Pos → Prop
  | .called _ | .committed _ | .rolledBack => True
  | .found newUserId stored => newUserId ≠ 0 ∧ Grows nums stored s.column
  | .wrote newUserId value => s.lock = some i ∧ newUserId ≠ 0 ∧
      ∃ ids, whitelist nums s.column = some ids ∧
        whitelist nums value = some (ids ++ [newUserId])
  | .kept newUserId => newUserId = 0 ∨ ∀ ids ∈ whitelist nums s.column, newUserId ∈ ids

structure Inv (nums : Numbers) (first : Column) (s : State) : Prop where
  kept : Kept nums first s
  knows : ∀ i p, s.procs[i]? = some p → Knows nums s i p

section

variable {s s' : State} {i : Nat} {id newUserId : Int} {p q : Pos} {stored first c c' c'' : Column}
  {a : Act}

theorem Grows.refl (nums : Numbers) (c : Column) : Grows nums c c := by
  rw [Grows]
  cases h : whitelist nums c with
  | none => exact Or.inl ⟨rfl, rfl⟩
  | some ids => exact Or.inr ⟨ids, ids, rfl, rfl, List.Subset.refl _⟩

theorem Grows.trans (h : Grows nums c c') (h' : Grows nums c' c'') : Grows nums c c'' := by
  rcases h with ⟨hc, hc'⟩ | ⟨ids, ids', hc, hc', hsub⟩
  · rcases h' with ⟨-, hc''⟩ | ⟨ids, ids', hsome, -, -⟩
    · exact Or.inl ⟨hc, hc''⟩
    · rw [hc'] at hsome
      cases hsome
  · rcases h' with ⟨hnone, -⟩ | ⟨ids₁, ids₂, hc₁, hc₂, hsub'⟩
    · rw [hc'] at hnone
      cases hnone
    · cases hc'.symm.trans hc₁
      exact Or.inr ⟨ids, ids₂, hc, hc₂, fun _ hid => hsub' (hsub hid)⟩

/-- What a member leaves in the field was decoded. -/
theorem unmarshalMember_users {p p' : AdminPermission nums} {m : String × Json}
    (h : unmarshalMember p m = some p') (hp : ∃ j, p.manageUsers = unmarshalAny nums j) :
    ∃ j, p'.manageUsers = unmarshalAny nums j := by
  rw [unmarshalMember] at h
  split at h
  · obtain ⟨b, -, rfl⟩ := Option.map_eq_some_iff.1 h
    exact hp
  · split at h
    · cases h
      exact ⟨m.2, rfl⟩
    · split at h
      · cases h
        exact hp
      · split at h
        · obtain ⟨b, -, rfl⟩ := Option.map_eq_some_iff.1 h
          exact hp
        · split at h
          · obtain ⟨b, -, rfl⟩ := Option.map_eq_some_iff.1 h
            exact hp
          · cases h
            exact hp

theorem foldlM_users {ms : List (String × Json)} {p p' : AdminPermission nums}
    (h : ms.foldlM unmarshalMember p = some p') (hp : ∃ j, p.manageUsers = unmarshalAny nums j) :
    ∃ j, p'.manageUsers = unmarshalAny nums j := by
  induction ms generalizing p with
  | nil =>
      cases h
      exact hp
  | cons m ms ih =>
      rw [List.foldlM_cons] at h
      obtain ⟨p₁, hm, hms⟩ := Option.bind_eq_some_iff.1 h
      exact ih hms (unmarshalMember_users hm hp)

theorem unmarshal_users {j : Json} {p : AdminPermission nums} (h : unmarshal nums j = some p) :
    ∃ j, p.manageUsers = unmarshalAny nums j := by
  have hzero : ∃ j, (zero nums).manageUsers = unmarshalAny nums j := ⟨.null, rfl⟩
  cases j with
  | obj ms => exact foldlM_users h hzero
  | null =>
      cases h
      exact hzero
  | bool _ => cases h
  | num _ => cases h
  | str _ => cases h
  | arr _ => cases h

/-- The ids that are read are ids that `float64` has. -/
theorem readId_of_whitelist (hexact : Exact nums) {ids : List Int}
    (h : whitelist nums stored = some ids) : ∀ id ∈ ids, readId nums id = id := by
  have hvalue : ∃ v : AnyValue nums, idWhitelist v = some ids ∧
      (v = .str "all" ∨ ∃ j, v = (unmarshalAny nums j).orAll) := by
    refine ⟨_, h, ?_⟩
    rw [parseAdminPermission]
    cases hparse : stored.bind (unmarshal nums) with
    | none => exact Or.inl rfl
    | some p =>
        obtain ⟨j, -, hj⟩ := Option.bind_eq_some_iff.1 hparse
        obtain ⟨j', hj'⟩ := unmarshal_users hj
        refine Or.inr ⟨j', ?_⟩
        simp only [hj']
  obtain ⟨v, hv, hread⟩ := hvalue
  rcases hread with rfl | ⟨j, rfl⟩
  · cases hv
  · cases j with
    | arr items =>
        cases hv
        intro id hid
        obtain ⟨item, hitem, hid⟩ := List.mem_filterMap.1 hid
        obtain ⟨j, -, rfl⟩ := List.mem_map.1 hitem
        rw [idOf.eq_def] at hid
        simp only at hid
        split at hid
        next =>
          cases hid
          exact hexact _
        next => cases hid
    | null => cases hv
    | bool _ => cases hv
    | num _ => cases hv
    | str _ => cases hv
    | obj _ => cases hv

theorem whitelist_serialize (p : AdminPermission nums) (ids : List Int) :
    whitelist nums (some (serializeAdminPermission { p with manageUsers := .ints (some ids) })) =
      some (ids.map (readId nums)) := by
  have hitems : ids.map (fun id => Json.num (literalOf id)) =
      (ids.map (Item.int : Int → Item nums)).map marshalItem := by
    rw [List.map_map]
    rfl
  rw [whitelist, parse_serialize]
  simp only [marshalAny, marshalSlice]
  rw [hitems, idWhitelist_read, List.filterMap_map, ← List.filterMap_eq_map]
  rfl

/-- What is written has the ids that were read and the new one. -/
theorem whitelist_append (hexact : Exact nums) {p : AdminPermission nums}
    (h : appendUser (parseAdminPermission nums stored) newUserId = some p)
    (hid : readId nums newUserId = newUserId) :
    ∃ ids, whitelist nums stored = some ids ∧
      whitelist nums (some (serializeAdminPermission p)) = some (ids ++ [newUserId]) := by
  obtain ⟨ids, hids, hp⟩ := Option.bind_eq_some_iff.1 h
  split at hp
  next => cases hp
  next =>
    cases hp
    have hstored : whitelist nums stored = some ids := hids
    have hread := readId_of_whitelist hexact hstored
    refine ⟨ids, hids, ?_⟩
    rw [whitelist_serialize, List.map_append, List.map_congr_left hread, List.map_id', List.map_cons,
      hid, List.map_nil]

/-- Where nothing is written, there is no whitelist, or the id is in it. -/
theorem mem_of_appendUser_eq_none
    (h : appendUser (parseAdminPermission nums stored) newUserId = none) :
    ∀ ids ∈ whitelist nums stored, newUserId ∈ ids := by
  intro ids hids
  rw [appendUser, Option.bind_eq_none_iff] at h
  by_contra hnot
  have := h ids hids
  rw [if_neg hnot] at this
  cases this

/-- What a transaction knows stays while the column stays and the lock is not taken away. -/
theorem Knows.of_same (h : Knows nums s i p) (hcolumn : s'.column = s.column)
    (hlock : s.lock = some i → s'.lock = some i) : Knows nums s' i p := by
  cases p with
  | found id stored =>
      rw [Knows, hcolumn]
      exact h
  | wrote id value =>
      rw [Knows, hcolumn]
      exact ⟨hlock h.1, h.2⟩
  | kept id =>
      rw [Knows, hcolumn]
      exact h
  | called _ => trivial
  | committed _ => trivial
  | rolledBack => trivial

/-- Another commit makes the whitelist grow. -/
theorem Knows.of_grows {j : Nat} (h : Knows nums s i p) (hgrows : Grows nums s.column s'.column)
    (hlock : s.lock = some j) (hne : i ≠ j) : Knows nums s' i p := by
  cases p with
  | found id stored => exact ⟨h.1, h.2.trans hgrows⟩
  | wrote id value =>
      have := hlock.symm.trans h.1
      exact absurd (Option.some.inj this).symm hne
  | kept id =>
      refine h.imp_right fun hmem ids' hids' => ?_
      rcases hgrows with ⟨-, hnone⟩ | ⟨ids, ids'', hids, hids'', hsub⟩
      · rw [hnone] at hids'
        cases hids'
      · cases hids''.symm.trans hids'
        exact hsub (hmem ids hids)
  | called _ => trivial
  | committed _ => trivial
  | rolledBack => trivial

theorem Kept.of_same (h : Kept nums first s) (hcolumn : s'.column = s.column)
    (hadded : s'.added = s.added) : Kept nums first s' := by
  rw [Kept] at h ⊢
  rw [hcolumn, hadded]
  exact h

theorem mem_addId (hid : newUserId ≠ 0) (added : List Int) :
    id ∈ addId newUserId added ↔ id ∈ added ∨ id = newUserId := by
  rw [addId, if_neg hid, List.mem_append, List.mem_singleton]

/-- A step of transaction `i` that leaves the column. -/
theorem Inv.of_step (h : Inv nums first s) (hkept : Kept nums first s')
    (hcolumn : s'.column = s.column)
    (hlock : ∀ j, j ≠ i → s.lock = some j → s'.lock = some j) (hq : Knows nums s' i q)
    (hprocs : s'.procs = s.procs.set i q) : Inv nums first s' where
  kept := hkept
  knows j r hr := by
    rw [hprocs] at hr
    rcases Pool.get_set hr with ⟨rfl, rfl⟩ | ⟨hne, hr⟩
    · exact hq
    · exact (h.knows j r hr).of_same hcolumn (hlock j hne)

/-- A commit without a write adds an id that is there. -/
theorem Kept.commit_kept (h : Kept nums first s)
    (hknows : newUserId = 0 ∨ ∀ ids ∈ whitelist nums s.column, newUserId ∈ ids) :
    Kept nums first { s with added := addId newUserId s.added } := by
  by_cases hid : newUserId = 0
  · refine h.of_same rfl ?_
    rw [addId, if_pos hid]
  · rw [Kept] at h ⊢
    cases hfirst : whitelist nums first with
    | none =>
        rw [hfirst] at h
        exact h
    | some ids =>
        rw [hfirst] at h
        obtain ⟨ids', hcolumn, hsame⟩ := h
        have hmem := hknows.resolve_left hid ids' hcolumn
        refine ⟨ids', hcolumn, fun id => ?_⟩
        rw [mem_addId hid, hsame]
        constructor
        · exact fun h => h.imp_right Or.inl
        · rintro (h | h | rfl)
          · exact Or.inl h
          · exact Or.inr h
          · exact (hsame _).1 hmem

/-- A commit of a write adds its id. -/
theorem Kept.commit_wrote (h : Kept nums first s) (hid : newUserId ≠ 0) {value : Column}
    {ids : List Int} (hcolumn : whitelist nums s.column = some ids)
    (hvalue : whitelist nums value = some (ids ++ [newUserId])) (lock : Option Nat)
    (procs : List Pos) : Kept nums first ⟨value, lock, procs, addId newUserId s.added⟩ := by
  rw [Kept] at h ⊢
  cases hfirst : whitelist nums first with
  | none =>
      rw [hfirst] at h
      rw [show whitelist nums s.column = none from h] at hcolumn
      cases hcolumn
  | some ids₀ =>
      rw [hfirst] at h
      obtain ⟨ids', hcolumn', hsame⟩ := h
      cases hcolumn.symm.trans hcolumn'
      refine ⟨_, hvalue, fun id => ?_⟩
      rw [mem_addId hid, List.mem_append, List.mem_singleton, hsame, or_assoc]

theorem Inv.next (h : Inv nums first s) (hexact : Exact nums) (hget : s.procs[i]? = some p)
    (hfresh : UpToDate nums s (.run i)) {x : State × Pos} (hx : next nums s i p = some x) :
    Inv nums first { x.1 with procs := s.procs.set i x.2 } := by
  have hknows := h.knows i p hget
  cases p with
  | called id =>
      cases hx
      refine h.of_step (i := i) (h.kept.of_same rfl rfl) rfl (fun _ _ hj => hj) ?_ rfl
      split
      next hzero => exact Or.inl hzero
      next hzero => exact ⟨hzero, Grows.refl nums s.column⟩
  | found id stored =>
      obtain ⟨hzero, hgrows⟩ := hknows
      rw [Admin.next] at hx
      split at hx
      next hnone =>
        cases hx
        refine h.of_step (i := i) (h.kept.of_same rfl rfl) rfl (fun _ _ hj => hj) ?_ rfl
        refine Or.inr fun ids hids => ?_
        have hmem := mem_of_appendUser_eq_none hnone
        rcases hgrows with ⟨-, hcolumn⟩ | ⟨ids', ids'', hids', hids'', hsub⟩
        · rw [hcolumn] at hids
          cases hids
        · cases hids''.symm.trans hids
          exact hsub (hmem ids' hids')
      next p' hp' =>
        split at hx
        next hlock =>
          cases hx
          obtain ⟨hcolumn, hid⟩ := hfresh id stored hget (by rw [hp']; rfl)
          obtain ⟨ids, hids, hvalue⟩ := whitelist_append hexact hp' hid
          refine h.of_step (i := i) (h.kept.of_same rfl rfl) rfl ?_ ?_ rfl
          · intro j _ hj
            rw [hlock] at hj
            cases hj
          · exact ⟨rfl, hzero, ids, by rw [hcolumn]; exact hids, hvalue⟩
        next => cases hx
  | wrote id value =>
      cases hx
      obtain ⟨hlock, hzero, ids, hids, hvalue⟩ := hknows
      refine ⟨h.kept.commit_wrote hzero hids hvalue _ _, ?_⟩
      intro j r hr
      rcases Pool.get_set hr with ⟨rfl, rfl⟩ | ⟨hne, hr⟩
      · trivial
      · refine (h.knows j r hr).of_grows ?_ hlock hne
        exact Or.inr ⟨ids, _, hids, hvalue, List.subset_append_left _ _⟩
  | kept id =>
      cases hx
      refine h.of_step (i := i) (q := .committed id) ?_ rfl (fun _ _ hj => hj) trivial rfl
      exact (h.kept.commit_kept hknows).of_same rfl rfl
  | committed _ => cases hx
  | rolledBack => cases hx

theorem Inv.rollback (h : Inv nums first s) (hget : s.procs[i]? = some p) {x : State × Pos}
    (hx : rollback s p = some x) :
    Inv nums first { x.1 with procs := s.procs.set i x.2 } := by
  have hknows := h.knows i p hget
  cases p with
  | wrote id value =>
      cases hx
      refine h.of_step (i := i) (q := .rolledBack) (h.kept.of_same rfl rfl) rfl ?_ trivial rfl
      intro j hne hj
      have := hknows.1.symm.trans hj
      exact absurd (Option.some.inj this).symm hne
  | called _ =>
      cases hx
      exact h.of_step (i := i) (q := .rolledBack) (h.kept.of_same rfl rfl) rfl (fun _ _ hj => hj)
        trivial rfl
  | found _ _ =>
      cases hx
      exact h.of_step (i := i) (q := .rolledBack) (h.kept.of_same rfl rfl) rfl (fun _ _ hj => hj)
        trivial rfl
  | kept _ =>
      cases hx
      exact h.of_step (i := i) (q := .rolledBack) (h.kept.of_same rfl rfl) rfl (fun _ _ hj => hj)
        trivial rfl
  | committed _ => cases hx
  | rolledBack => cases hx

theorem Inv.step (h : Inv nums first s) (hexact : Exact nums) (hfresh : UpToDate nums s a)
    (hs : step nums s a = some s') : Inv nums first s' := by
  cases a with
  | start id =>
      cases hs
      refine ⟨h.kept.of_same rfl rfl, fun j r hr => ?_⟩
      rcases Pool.get_start hr with hr | rfl
      · exact (h.knows j r hr).of_same rfl fun hj => hj
      · trivial
  | run i =>
      obtain ⟨p, hget, hs⟩ := Option.bind_eq_some_iff.1 hs
      obtain ⟨x, hx, rfl⟩ := Option.map_eq_some_iff.1 hs
      exact h.next hexact hget hfresh hx
  | rollback i =>
      obtain ⟨p, hget, hs⟩ := Option.bind_eq_some_iff.1 hs
      obtain ⟨x, hx, rfl⟩ := Option.map_eq_some_iff.1 hs
      exact h.rollback hget hx

theorem Inv.initial (nums : Numbers) (stored : Column) : Inv nums stored (initial stored) where
  kept := by
    rw [Kept]
    cases h : whitelist nums stored with
    | none => exact h
    | some ids => exact ⟨ids, h, fun id => by simp [Admin.initial]⟩
  knows i p h := by cases h

end

/-- A permission with a list of users is read back with the same ids exactly if the list is not nil
and `float64` has its ids; and in a run of appends whose writes find the column as it was read, the
whitelist is the first one and the ids of the committed transactions. -/
theorem whitelist_spec (nums : Numbers) (hexact : Exact nums) :
    (∀ p : AdminPermission nums, (idWhitelist p.manageUsers).isSome = true →
      (ReadBack p ↔ Readable p.manageUsers ∧ AsDecoded p.manageChannels)) ∧
    ∀ (stored : Column) (as : List Act) (s : State),
      Run.Along (step nums) (UpToDate nums) (initial stored) as →
      Run.exec (step nums) (initial stored) as = some s → Kept nums stored s := by
  refine ⟨fun p => readBack_iff hexact p, ?_⟩
  intro stored as s hfresh hs
  have hinv : Inv nums stored s :=
    Run.exec_invariant (fun _ _ _ h hf hs => h.step hexact hf hs) (Inv.initial nums stored) hfresh hs
  exact hinv.kept

/-- Whole numbers as they are. -/
def wholeNumbers : Numbers where
  value literal := (Decimal.parseInt literal.toList).getD 0
  literal literal := literal
  literal_literal _ := rfl
  text literal := literal

theorem readId_wholeNumbers (id : Int) : readId wholeNumbers id = id := by
  have hvalue : wholeNumbers.value (literalOf id) = id := by
    simp only [wholeNumbers, literalOf, String.toList_ofList, Decimal.parseInt_formatInt,
      Option.getD_some]
  have htrunc : Rounding.trunc (id : ℚ) = id := by
    rw [Rounding.trunc, Rat.num_intCast, Rat.den_intCast]
    exact Int.tdiv_one id
  rw [readId, intOf, show wholeNumbers.literal (literalOf id) = literalOf id from rfl, hvalue,
    htrunc]

theorem exact_wholeNumbers : Exact wholeNumbers := fun _ => readId_wholeNumbers _

/-- A permission that restricts to some users. -/
def restrictedTo (ids : List Int) : AdminPermission wholeNumbers :=
  { defaultAdminPermission wholeNumbers with manageUsers := .ints (some ids) }

theorem whitelist_restrictedTo (ids : List Int) :
    whitelist wholeNumbers (some (serializeAdminPermission (restrictedTo ids))) = some ids := by
  rw [restrictedTo, whitelist_serialize, List.map_congr_left fun id _ => readId_wholeNumbers id,
    List.map_id']

/-- The column of a whitelist. -/
def columnOf (ids : List Int) : Column := some (serializeAdminPermission (restrictedTo ids))

theorem next_found_columnOf (ids : List Int) (id : Int) (h : id ∉ ids) (s : State) (i : Nat)
    (hlock : s.lock = none) :
    next wholeNumbers s i (.found id (columnOf ids)) =
      some ({ s with lock := some i }, .wrote id (columnOf (ids ++ [id]))) := by
  have hids := whitelist_restrictedTo ids
  rw [whitelist] at hids
  rw [next, columnOf, appendUser, hids, Option.bind_some, if_neg h]
  simp only [hlock, if_true, parse_serialize]
  rfl

theorem step_run {s : State} {i : Nat} {p : Pos} {x : State × Pos} (hget : s.procs[i]? = some p)
    (hx : next wholeNumbers s i p = some x) :
    step wholeNumbers s (.run i) = some { x.1 with procs := s.procs.set i x.2 } := by
  rw [step, hget, Option.bind_some, hx]
  rfl

/-- One user is appended to a whitelist that is read back. -/
theorem whitelist_spec_one : ReadBack (restrictedTo [7]) ∧
    Kept wholeNumbers (columnOf [7]) ⟨columnOf [7, 1], none, [.committed 1], [1]⟩ := by
  have hspec := whitelist_spec wholeNumbers exact_wholeNumbers
  have hwrite := step_run (s := ⟨columnOf [7], none, [.found 1 (columnOf [7])], []⟩) (i := 0) rfl
    (next_found_columnOf [7] 1 (by decide) _ 0 rfl)
  refine ⟨(hspec.1 (restrictedTo [7]) rfl).2 ⟨fun id _ => readId_wholeNumbers id, trivial⟩,
    hspec.2 (columnOf [7]) [.start 1, .run 0, .run 0, .run 0] _ ?_ ?_⟩
  · refine ⟨trivial, fun m hm => ?_⟩
    cases hm
    refine ⟨?_, fun m hm => ?_⟩
    · intro id stored h
      cases h
    cases hm
    refine ⟨fun id stored h _ => ?_, fun m hm => ?_⟩
    · cases h
      exact ⟨rfl, readId_wholeNumbers 1⟩
    · cases hwrite.symm.trans hm
      refine ⟨?_, fun _ _ => trivial⟩
      intro id stored h
      cases h
  · refine Run.exec_cons_eq_some.2 ⟨_, rfl, Run.exec_cons_eq_some.2 ⟨_, rfl, ?_⟩⟩
    exact Run.exec_cons_eq_some.2 ⟨_, hwrite, Run.exec_cons_eq_some.2 ⟨_, rfl, rfl⟩⟩

/-- Two requests append a user each; both have read the column before either has written it, and
the second write drops the first user. -/
theorem append_lost :
    ¬ ∀ (stored : Column) (as : List Act) (s : State),
      Run.exec (step wholeNumbers) (initial stored) as = some s → Kept wholeNumbers stored s := by
  intro h
  have hfirst := step_run
    (s := ⟨columnOf [], none, [.found 1 (columnOf []), .found 2 (columnOf [])], []⟩) (i := 0) rfl
    (next_found_columnOf [] 1 (by decide) _ 0 rfl)
  have hsecond := step_run
    (s := ⟨columnOf [1], none, [.committed 1, .found 2 (columnOf [])], [1]⟩) (i := 1) rfl
    (next_found_columnOf [] 2 (by decide) _ 1 rfl)
  have hkept := h (columnOf [])
    [.start 1, .start 2, .run 0, .run 1, .run 0, .run 0, .run 1, .run 1]
    ⟨columnOf [2], none, [.committed 1, .committed 2], [1, 2]⟩ ?_
  · rw [Kept, show whitelist wholeNumbers (columnOf []) = some [] from whitelist_restrictedTo []]
      at hkept
    obtain ⟨ids, hids, hsame⟩ := hkept
    have htwo : whitelist wholeNumbers (columnOf [2]) = some [2] := whitelist_restrictedTo [2]
    cases htwo.symm.trans hids
    exact absurd ((hsame 1).2 (by decide)) (by decide)
  · -- Both transactions start and read; the first one writes and commits, then the second one.
    refine Run.exec_cons_eq_some.2 ⟨_, rfl, Run.exec_cons_eq_some.2 ⟨_, rfl, ?_⟩⟩
    refine Run.exec_cons_eq_some.2 ⟨_, rfl, Run.exec_cons_eq_some.2 ⟨_, rfl, ?_⟩⟩
    refine Run.exec_cons_eq_some.2 ⟨_, hfirst, Run.exec_cons_eq_some.2 ⟨_, rfl, ?_⟩⟩
    exact Run.exec_cons_eq_some.2 ⟨_, hsecond, Run.exec_cons_eq_some.2 ⟨_, rfl, rfl⟩⟩

/-- An empty list that is nil is stored as no restriction. -/
theorem nil_not_readBack :
    ¬ ReadBack { defaultAdminPermission wholeNumbers with manageUsers := .ints none } := by
  intro h
  exact ((readBack_iff exact_wholeNumbers _ rfl).1 h).1

end DazeApi.Admin

import DazeApi.Users.Privileges

/-!
# Privileges in every run

No handler can take a root user its role, disable or delete it, and none can make another one;
whoever is an administrator has been one from the beginning or was made one by a root user.  This
holds although rows are written back that were read long before: a row that waits says of its user
nothing that was not true once.
-/

namespace DazeApi.Users.Privileges

open JsonText JsonDecode

def IsRoot (u : Option User) : Prop := ∃ row, u = some row ∧ row.role = roleRootUser

/-- What all handlers together keep. -/
structure Kept (before : Int → Option User) (s : State) : Prop where
  roots : ∀ id, IsRoot (s.users id) ↔ IsRoot (before id)
  rootRows : ∀ id row, before id = some row → row.role = roleRootUser →
    ∃ row', s.users id = some row' ∧ row'.deleted = row.deleted ∧
      (row'.status = userStatusDisabled → row.status = userStatusDisabled)
  admins : ∀ id row, s.users id = some row → roleAdminUser ≤ row.role →
    (∃ first, before id = some first ∧ roleAdminUser ≤ first.role) ∨ ∃ c, (c, id) ∈ s.granted
  granted : ∀ c id, (c, id) ∈ s.granted → IsRoot (before c.id)
  sessions : ∀ c ∈ s.sessions, c.role = roleRootUser → IsRoot (s.users c.id)

/-- A row that the user of this id may have. -/
structure RowOk (before : Int → Option User) (granted : List (Session × Int)) (id : Int)
    (row : User) : Prop where
  root : row.role = roleRootUser → IsRoot (before id)
  admin : roleAdminUser ≤ row.role →
    (∃ first, before id = some first ∧ roleAdminUser ≤ first.role) ∨ ∃ c, (c, id) ∈ granted
  kept : ∀ first, before id = some first → first.role = roleRootUser →
    row.role = roleRootUser ∧ row.deleted = first.deleted ∧
      (row.status = userStatusDisabled → first.status = userStatusDisabled)

def WriteOk (before : Int → Option User) (granted : List (Session × Int)) (id : Int) :
    Write → Prop
  | .update row | .save row => RowOk before granted id row
  | .delete | .hardDelete => ¬ IsRoot (before id)
  | .permission _ => True

structure Inv (before : Int → Option User) (s : State) : Prop where
  users : ∀ id row, s.users id = some row → RowOk before s.granted id row
  there : ∀ id, IsRoot (before id) → ∃ row, s.users id = some row
  sessions : ∀ c ∈ s.sessions, (c.role = roleRootUser → IsRoot (before c.id)) ∧
    ∀ first, before c.id = some first → first.role = roleRootUser → first.deleted = false
  pending : ∀ p ∈ s.pending, WriteOk before s.granted p.1 p.2
  granted : ∀ c id, (c, id) ∈ s.granted → IsRoot (before c.id)

section

variable {nums : Numbers} {before : Int → Option User} {s s' : State} {c : Session} {id : Int}
  {row row' : User} {w : Write} {g g' : List (Session × Int)}

/-! ## Rows -/

theorem RowOk.mono (h : RowOk before g id row) (hg : g ⊆ g') : RowOk before g' id row :=
  ⟨h.root, fun hadmin => (h.admin hadmin).imp_right fun ⟨c, hc⟩ => ⟨c, hg hc⟩, h.kept⟩

theorem WriteOk.mono (h : WriteOk before g id w) (hg : g ⊆ g') : WriteOk before g' id w := by
  cases w with
  | update row | save row => exact RowOk.mono h hg
  | delete | hardDelete | permission stored => exact h

/-- A row of a user who is no root user may be changed within its role. -/
theorem RowOk.change (h : RowOk before g id row) (hroot : row.role ≠ roleRootUser)
    (hrole : row'.role ≤ row.role) (hno : row'.role ≠ roleRootUser) : RowOk before g id row' := by
  refine ⟨fun h' => absurd h' hno, fun h' => h.admin (Int.le_trans h' hrole), ?_⟩
  intro first hfirst hrole
  exact absurd (h.kept first hfirst hrole).1 hroot

theorem not_isRoot_of_row (h : RowOk before g id row) (hroot : row.role ≠ roleRootUser) :
    ¬ IsRoot (before id) := by
  rintro ⟨first, hfirst, hrole⟩
  exact hroot (h.kept first hfirst hrole).1

/-- Of two rows that the user may have, one may be written over the other. -/
theorem RowOk.updates (h : RowOk before g id row) (h' : RowOk before g id row') :
    RowOk before g id (updates row row') := by
  have hrole : (Privileges.updates row row').role = row.role ∨
      (Privileges.updates row row').role = row'.role := by
    simp only [Privileges.updates, Writers.updatesField]
    split
    · exact Or.inr rfl
    · exact Or.inl rfl
  have hstatus : (Privileges.updates row row').status = row.status ∨
      (Privileges.updates row row').status = row'.status := by
    simp only [Privileges.updates, Writers.updatesField]
    split
    · exact Or.inr rfl
    · exact Or.inl rfl
  refine ⟨?_, ?_, ?_⟩
  · rcases hrole with heq | heq
    · exact heq ▸ h.root
    · exact heq ▸ h'.root
  · rcases hrole with heq | heq
    · exact heq ▸ h.admin
    · exact heq ▸ h'.admin
  · intro first hfirst hroot
    obtain ⟨hr, hd, hs⟩ := h.kept first hfirst hroot
    obtain ⟨hr', hd', hs'⟩ := h'.kept first hfirst hroot
    refine ⟨?_, ?_, ?_⟩
    · rcases hrole with heq | heq
      · rw [heq, hr]
      · rw [heq, hr']
    · show (row.deleted || row'.deleted) = _
      rw [hd, hd', Bool.or_self]
    · rcases hstatus with heq | heq
      · exact heq ▸ hs
      · exact heq ▸ hs'

theorem find_eq_some (h : s.find id = some row) : s.users id = some row ∧ row.deleted = false := by
  obtain ⟨husers, hdeleted⟩ := Option.filter_eq_some_iff.1 h
  exact ⟨husers, Bool.not_eq_true' _ |>.mp hdeleted⟩

/-! ## Steps -/

/-- One more write waits. -/
theorem Inv.await (h : Inv before s) (hw : WriteOk before s.granted id w) :
    Inv before (s.await id w) := by
  refine ⟨h.users, h.there, h.sessions, ?_, h.granted⟩
  intro p hp
  rcases List.mem_append.1 hp with hp | hp
  · exact h.pending p hp
  · rw [List.mem_singleton.1 hp]
    exact hw

/-- One more administrator is made. -/
theorem Inv.grant (h : Inv before s) (hc : IsRoot (before c.id)) : Inv before (s.grant c id) := by
  have hsub : s.granted ⊆ (s.grant c id).granted := fun _ => List.mem_append_left _
  refine ⟨fun id row hrow => (h.users id row hrow).mono hsub, h.there, h.sessions,
    fun p hp => (h.pending p hp).mono hsub, ?_⟩
  intro c' id' hmem
  rcases List.mem_append.1 hmem with hmem | hmem
  · exact h.granted c' id' hmem
  · cases List.mem_singleton.1 hmem
    exact hc

/-- A row is written. -/
theorem Inv.put (h : Inv before s) (hrow : RowOk before s.granted id row) :
    Inv before (s.put id (some row)) := by
  refine ⟨?_, ?_, h.sessions, h.pending, h.granted⟩
  · intro id' row' hrow'
    simp only [State.put, Function.update_apply] at hrow'
    split at hrow'
    next heq =>
      cases hrow'
      subst heq
      exact hrow
    next => exact h.users id' row' hrow'
  · intro id' hroot
    simp only [State.put, Function.update_apply]
    split
    · exact ⟨row, rfl⟩
    · exact h.there id' hroot

theorem Inv.write (h : Inv before s) (hw : WriteOk before s.granted id w) :
    Inv before (s.write id w) := by
  cases w with
  | update newUser =>
      simp only [State.write]
      cases hfind : s.find id with
      | none => exact h
      | some row => exact h.put ((h.users id row (find_eq_some hfind).1).updates hw)
  | save newUser => exact h.put hw
  | delete =>
      simp only [State.write]
      cases hfind : s.find id with
      | none => exact h
      | some row =>
          have hrow := h.users id row (find_eq_some hfind).1
          refine h.put ⟨hrow.root, hrow.admin, fun first hfirst hroot => ?_⟩
          exact absurd ⟨first, hfirst, hroot⟩ hw
  | hardDelete =>
      refine ⟨?_, ?_, h.sessions, h.pending, h.granted⟩
      · intro id' row' hrow'
        simp only [State.write, State.put, Function.update_apply] at hrow'
        split at hrow'
        · cases hrow'
        · exact h.users id' row' hrow'
      · intro id' hroot
        simp only [State.write, State.put, Function.update_apply]
        split
        next heq => exact absurd (heq ▸ hroot) hw
        next => exact h.there id' hroot
  | permission stored =>
      simp only [State.write]
      cases hfind : s.find id with
      | none => exact h
      | some row =>
          have hrow := h.users id row (find_eq_some hfind).1
          exact h.put ⟨hrow.root, hrow.admin, hrow.kept⟩

theorem Inv.manageUser (h : Inv before s) (hc : c ∈ s.sessions) (reqId first : Int)
    (action : ManageAction) : Inv before (manageUser nums s c reqId first action) := by
  rw [Privileges.manageUser]
  generalize (if reqId = 0 then first else reqId) = id
  split
  · exact h
  · split
    next => exact h
    next user huser =>
      have hrow := h.users id user huser
      split
      · exact h
      · -- what is left of the row of a root user is its role, and it is not disabled
        have hstatus : ∀ status, status ≠ userStatusDisabled →
            RowOk before s.granted id { user with status := status } := fun status hstatus =>
          ⟨hrow.root, hrow.admin, fun first hfirst hroot =>
            ⟨(hrow.kept first hfirst hroot).1, (hrow.kept first hfirst hroot).2.1,
              fun h' => absurd h' hstatus⟩⟩
        cases action with
        | disable =>
            dsimp only
            split
            · exact h
            next hroot => exact h.await (hrow.change hroot (Int.le_refl _) hroot)
        | enable => exact h.await (hstatus userStatusEnabled (by decide))
        | delete =>
            dsimp only
            split
            · exact h
            next hroot => exact h.await (not_isRoot_of_row hrow hroot)
        | promote =>
            dsimp only
            split
            · exact h
            next hcaller =>
              split
              · exact h
              next hlow =>
                have hcaller : c.role = roleRootUser := not_not.1 hcaller
                have hroot : user.role ≠ roleRootUser := by
                  intro hroot
                  exact hlow (by rw [hroot]; decide)
                have hgrant : Inv before (s.grant c id) := h.grant ((h.sessions c hc).1 hcaller)
                have hno : roleAdminUser ≠ roleRootUser := by decide
                refine hgrant.await ⟨fun h' => absurd h' hno, fun _ => ?_, ?_⟩
                · exact Or.inr ⟨c, List.mem_append_right _ (.head _)⟩
                · intro first hfirst hrole
                  exact absurd (hrow.kept first hfirst hrole).1 hroot
        | demote =>
            dsimp only
            split
            · exact h
            next hroot =>
              split
              · exact h
              next =>
                have hno : roleCommonUser ≠ roleRootUser := by decide
                have hlow : ¬ roleAdminUser ≤ roleCommonUser := by decide
                refine h.await ⟨fun h' => absurd h' hno, fun h' => absurd h' hlow, ?_⟩
                intro first hfirst hrole
                exact absurd (hrow.kept first hfirst hrole).1 hroot
        | unknown => exact h.await hrow

theorem Inv.deleteUser (h : Inv before s) (id : Int) : Inv before (deleteUser nums s c id) := by
  rw [Privileges.deleteUser]
  split
  · exact h
  · split
    next => exact h
    next originUser huser =>
      split
      · exact h
      next hlow =>
        split
        · exact h
        · split
          · exact h
          next hcaller =>
            refine h.await (not_isRoot_of_row (h.users id originUser huser) fun hroot => hlow ?_)
            rw [hroot, not_not.1 hcaller]

theorem find_of_not_deleted (husers : s.users id = some row) (hdeleted : row.deleted = false) :
    s.find id = some row := by
  rw [State.find, husers, Option.filter_some, hdeleted]
  rfl

theorem Inv.deleteSelf (h : Inv before s) (hc : c ∈ s.sessions) : Inv before (deleteSelf s c) := by
  rw [Privileges.deleteSelf]
  split
  · exact h
  next hrole =>
    refine h.await ?_
    rintro ⟨first, hfirst, hroot⟩
    -- a root user who has logged in is found
    obtain ⟨row, hrow⟩ := h.there c.id ⟨first, hfirst, hroot⟩
    obtain ⟨hrowRoot, hdeleted, -⟩ := (h.users c.id row hrow).kept first hfirst hroot
    have hfind := find_of_not_deleted hrow (hdeleted.trans ((h.sessions c hc).2 first hfirst hroot))
    rw [hfind] at hrole
    exact hrole hrowRoot

theorem rowOk_newUser {role : Int} (hnew : s.users id = none) (h : Inv before s)
    (hrole : role < roleRootUser)
    (hadmin : roleAdminUser ≤ (newUser role).role → ∃ c, (c, id) ∈ g) :
    RowOk before g id (newUser role) := by
  have hlow : (newUser role).role ≠ roleRootUser := by
    simp only [newUser, roleCommonUser]
    simp only [roleRootUser] at hrole ⊢
    split <;> omega
  refine ⟨fun hroot => absurd hroot hlow, fun h' => Or.inr (hadmin h'), ?_⟩
  intro first hfirst hroot
  obtain ⟨row, hrow⟩ := h.there id ⟨first, hfirst, hroot⟩
  rw [hnew] at hrow
  cases hrow

/-- A list of ids of an administrator is no privilege that is spoken of here. -/
theorem Inv.appendUserToManageWhitelist (h : Inv before s) {newUserId : Int}
    (hs : appendUserToManageWhitelist nums s c newUserId = some s') : Inv before s' := by
  obtain ⟨admin, hfind, rfl⟩ := Option.map_eq_some_iff.1 hs
  have hrow := h.users c.id admin (find_eq_some hfind).1
  split
  · exact h
  · exact h.put ⟨hrow.root, hrow.admin, hrow.kept⟩

theorem Inv.createUser (h : Inv before s) (hc : c ∈ s.sessions)
    (hauth : authHelper c roleAdminUser = true) (newId role : Int) :
    Inv before (createUser nums s c newId role) := by
  -- a session that passes as administrator is one of an administrator or of a root user
  have hcaller : c.role = roleAdminUser ∨ c.role = roleRootUser := by
    obtain ⟨⟨-, hmin⟩, hvalid⟩ : (_ ∧ _) ∧ _ := by
      simpa only [authHelper, Bool.and_eq_true, decide_eq_true_eq] using hauth
    simp only [isValidateRole, Bool.or_eq_true, decide_eq_true_eq] at hvalid
    simp only [roleCommonUser, roleAdminUser, roleRootUser] at hmin hvalid ⊢
    omega
  rw [Privileges.createUser]
  split
  · exact h
  next hrole =>
    split
    · exact h
    next hnew =>
      have hnew : s.users newId = none := by simpa using hnew
      have hlt : role < roleRootUser := by
        simp only [roleAdminUser, roleRootUser] at hcaller ⊢
        omega
      -- the new user is there, and if it is an administrator, a root user has made it one
      have hcreated : Inv before (if (newUser role).role ≥ roleAdminUser then
          (s.put newId (some (newUser role))).grant c newId
          else s.put newId (some (newUser role))) := by
        split
        next hadmin =>
          have hroot : c.role = roleRootUser := by
            simp only [newUser, roleCommonUser, roleAdminUser, roleRootUser] at hcaller hadmin ⊢
            split at hadmin <;> omega
          have hgrant : Inv before (s.grant c newId) := h.grant ((h.sessions c hc).1 hroot)
          exact hgrant.put (rowOk_newUser hnew h hlt
            fun _ => ⟨c, List.mem_append_right _ (.head _)⟩)
        next hadmin => exact h.put (rowOk_newUser hnew h hlt fun h' => absurd h' hadmin)
      dsimp only
      split
      · cases happend : Privileges.appendUserToManageWhitelist nums _ c newId with
        | none => exact h
        | some s' => exact hcreated.appendUserToManageWhitelist happend
      · exact hcreated

theorem Inv.request (h : Inv before s) {k : Nat} {minRole : Int} {f : Session → State}
    (hf : ∀ c ∈ s.sessions, authHelper c minRole = true → Inv before (f c))
    (hs : request s k minRole f = some s') : Inv before s' := by
  obtain ⟨c, hk, rfl⟩ := Option.map_eq_some_iff.1 hs
  split
  next hauth => exact hf c (List.mem_of_getElem? hk) hauth
  next => exact h

theorem Inv.step {a : Act} (h : Inv before s) (hs : step nums s a = some s') : Inv before s' := by
  cases a with
  | login id byAccessToken =>
      obtain ⟨u, hfind, rfl⟩ := Option.map_eq_some_iff.1 hs
      obtain ⟨husers, hdeleted⟩ := find_eq_some hfind
      have hrow := h.users id u husers
      split
      · refine ⟨h.users, h.there, ?_, h.pending, h.granted⟩
        intro c hc
        rcases List.mem_append.1 hc with hc | hc
        · exact h.sessions c hc
        · rw [List.mem_singleton.1 hc]
          refine ⟨hrow.root, fun first hfirst hroot => ?_⟩
          exact (hrow.kept first hfirst hroot).2.1.symm.trans hdeleted
      · exact h
  | manageUser k reqId first action =>
      exact h.request (fun c hc _ => h.manageUser hc reqId first action) hs
  | deleteUser k id => exact h.request (fun c _ _ => h.deleteUser id) hs
  | deleteSelf k => exact h.request (fun c hc _ => h.deleteSelf hc) hs
  | createUser k newId role =>
      exact h.request (fun c hc hauth => h.createUser hc hauth newId role) hs
  | register newId =>
      simp only [Privileges.step] at hs
      split at hs
      · cases hs
      next hnew =>
        cases hs
        have hnew : s.users newId = none := by simpa using hnew
        exact h.put (rowOk_newUser hnew h (by decide) fun h' => absurd h' (by decide))
  | updateAdminPermissions k id stored =>
      refine h.request (fun c _ _ => ?_) hs
      rw [Privileges.updateAdminPermissions]
      split
      · exact h
      · split
        · exact h
        · split
          · exact h
          · exact h.await trivial
  | rewrite id =>
      obtain ⟨u, hfind, rfl⟩ := Option.map_eq_some_iff.1 hs
      exact h.await (h.users id u (find_eq_some hfind).1)
  | resave id =>
      obtain ⟨u, hfind, rfl⟩ := Option.map_eq_some_iff.1 hs
      exact h.await (h.users id u (find_eq_some hfind).1)
  | write j =>
      obtain ⟨p, hp, rfl⟩ := Option.map_eq_some_iff.1 hs
      have hwrite := h.write (h.pending p (List.mem_of_getElem? hp))
      have hpending : (s.write p.1 p.2).granted = s.granted := by
        cases hw : p.2 <;> simp only [State.write] <;> first | rfl | split <;> rfl
      exact ⟨hwrite.users, hwrite.there, hwrite.sessions, fun q hq =>
        hpending ▸ h.pending q (List.mem_of_mem_eraseIdx hq), hwrite.granted⟩

end

theorem inv_initial (before : Int → Option User) : Inv before (initial before) where
  users id row hrow := ⟨fun hroot => ⟨row, hrow, hroot⟩, fun hadmin => Or.inl ⟨row, hrow, hadmin⟩,
    fun first hfirst hroot => by
      cases hfirst.symm.trans hrow
      exact ⟨hroot, rfl, fun hstatus => hstatus⟩⟩
  there id h := by
    obtain ⟨row, hrow, -⟩ := h
    exact ⟨row, hrow⟩
  sessions c hc := absurd hc List.not_mem_nil
  pending p hp := absurd hp List.not_mem_nil
  granted c id hc := absurd hc List.not_mem_nil

theorem Inv.roots {before : Int → Option User} {s : State} (h : Inv before s) (id : Int) :
    IsRoot (s.users id) ↔ IsRoot (before id) := by
  constructor
  · rintro ⟨row, hrow, hroot⟩
    exact (h.users id row hrow).root hroot
  · rintro ⟨first, hfirst, hroot⟩
    obtain ⟨row, hrow⟩ := h.there id ⟨first, hfirst, hroot⟩
    exact ⟨row, hrow, ((h.users id row hrow).kept first hfirst hroot).1⟩

/-- A root user and a common one. -/
def twoUsers (id : Int) : Option User :=
  if id = 1 then some ⟨roleRootUser, userStatusEnabled, false, none⟩
  else if id = 2 then some ⟨roleCommonUser, userStatusEnabled, false, none⟩
  else none

end DazeApi.Users.Privileges

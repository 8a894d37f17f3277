import DazeApi.Lib.Pool
import DazeApi.Users.Verification

/-!
# Codes are shown in time and used once

The map is swept and small, but what it answers is the history of what was sent and deleted
(`verifies_iff`).  From that `codes_spec`: who resets a password or registers with a check has shown
the last code that was sent to the address for just that purpose, in the last ten minutes; a
password is generated only for the address whose code was shown; and if no code is drawn twice, one
whose request was answered is good for nothing any more.
-/

namespace DazeApi.Users.Verification

open Expiring

variable {s s' : State} {a : Act} {p : Nat} {proc w : Proc} {x : Shown}
  {events events' : List (Event String String)}

theorem text_append_inj {c d : Purpose} {email address : String}
    (h : c.text ++ email = d.text ++ address) : c = d ∧ email = address := by
  have hl : c.text.toList ++ email.toList = d.text.toList ++ address.toList := by
    simpa using congrArg String.toList h
  cases c <;> cases d <;> simp_all [Purpose.text]

theorem expired_eq_false_iff {now time : Nat} (h : time ≤ now) :
    expired now time = false ↔ now < time + 10 * 60 * 1000000000 := by
  rw [expired, decide_eq_false_iff_not, verificationValidMinutes]
  omega

/-- The map agrees with the history, and nothing was sent in the future. -/
structure Told (now : Nat) (m : VerificationMap) (events : List (Event String String)) : Prop where
  agrees : Agrees (fun time => !expired now time) m events
  times : ∀ e, Event.put e ∈ events → e.time ≤ now

section

variable {now : Nat} {m : VerificationMap}

theorem Told.nil : Told now [] [] := ⟨.nil, fun _ he => absurd he List.not_mem_nil⟩

theorem Told.later (h : Told now m events) (d : Nat) : Told (now + d) m events where
  agrees := h.agrees.older fun n hn => by
    simp only [expired, Bool.not_eq_true', decide_eq_false_iff_not, Nat.not_le] at hn ⊢
    omega
  times e he := Nat.le_trans (h.times e he) (Nat.le_add_right _ _)

theorem Told.register (h : Told now m events) (key code : String) (purpose : Purpose) :
    Told now (registerVerificationCodeWithKey now key code purpose m)
      (.put ⟨purpose.text ++ key, code, now⟩ :: events) where
  agrees := by
    have hput := h.agrees.put ⟨purpose.text ++ key, code, now⟩
    simp only [registerVerificationCodeWithKey]
    split
    · exact hput.sweep
    · exact hput
  times e he := by
    obtain heq | he := List.mem_cons.1 he
    · cases heq
      exact Nat.le_refl _
    · exact h.times e he

theorem Told.delete (h : Told now m events) (key : String) (purpose : Purpose) :
    Told now (deleteKey key purpose m) (.erase (purpose.text ++ key) :: events) where
  agrees := h.agrees.erase _
  times e he := by
    obtain heq | he := List.mem_cons.1 he
    · cases heq
    · exact h.times e he

/-- The map answers what the history says. -/
theorem Told.verify_iff (h : Told now m events) (key code : String) (purpose : Purpose) :
    verifyCodeWithKey now key code purpose m = true ↔
      Shown.Valid ⟨purpose, key, code, now⟩ events := by
  have hread : verifyCodeWithKey now key code purpose m = true ↔
      ∃ e, get m (purpose.text ++ key) = some e ∧ (!expired now e.time) = true ∧ code = e.value := by
    unfold verifyCodeWithKey
    cases hg : get m (purpose.text ++ key) <;> simp
  rw [hread, h.agrees.get_iff]
  constructor
  · rintro ⟨e, hn, hf, hcode⟩
    have hle := h.times e (key_of_newest hn).2
    exact ⟨e, hn, hcode.symm, hle, (expired_eq_false_iff hle).1 (by simpa using hf)⟩
  · rintro ⟨e, hn, hcode, hle, hlt⟩
    exact ⟨e, hn, by simpa using (expired_eq_false_iff hle).2 hlt, hcode.symm⟩

end

theorem Shown.WasValid.mono (h : x.WasValid events) (hs : events <:+ events') :
    x.WasValid events' := by
  obtain ⟨past, hp, hv⟩ := h
  exact ⟨past, hp.trans hs, hv⟩

/-- The code was sent. -/
theorem Shown.WasValid.sent (h : x.WasValid events) :
    ∃ time, Event.put ⟨x.purpose.text ++ x.email, x.code, time⟩ ∈ events := by
  obtain ⟨past, hs, ⟨k, v, time⟩, hn, hcode, -⟩ := h
  obtain ⟨hk, hmem⟩ := key_of_newest hn
  cases hk
  cases hcode
  exact ⟨time, hs.mem hmem⟩

/-! ## What was shown -/

structure Inv (s : State) : Prop where
  told : Told s.clock s.codes s.events
  shown : ∀ proc ∈ s.procs, ∀ x, proc.shown = some x → x.WasValid s.events
  generated : ∀ u ∈ s.users, ∀ p, u.password = .generated p →
    ∃ proc, s.procs[p]? = some proc ∧ proc.wrote = some u.email

theorem inv_initial {users : List User} (h : ∀ u ∈ users, u.password = .chosen) :
    Inv (initial users) where
  told := .nil
  shown _ hp := absurd hp List.not_mem_nil
  generated u hu p hg := by rw [h u hu] at hg; cases hg

theorem Inv.start (h : Inv s) (hx : ∀ x, proc.shown = some x → x.WasValid s.events) :
    Inv (s.start proc) where
  told := h.told
  shown := Pool.forall_start h.shown hx
  generated u hu p hg := by
    obtain ⟨q, hq, hwrote⟩ := h.generated u hu p hg
    exact ⟨q, (List.getElem?_append_left (List.getElem?_eq_some_iff.1 hq).1).trans hq, hwrote⟩

theorem Inv.goto (h : Inv s) (hp : s.procs[p]? = some proc)
    (hshown : ∀ x, w.shown = some x → proc.shown = some x)
    (hwrote : ∀ email, proc.wrote = some email → w.wrote = some email) :
    Inv (s.goto p w) where
  told := h.told
  shown := Pool.forall_set h.shown fun x hwx => h.shown proc (Pool.mem_of_get hp) x (hshown x hwx)
  generated u hu i hg := by
    obtain ⟨q, hq, hw⟩ := h.generated u hu i hg
    by_cases hi : p = i
    · subst hi
      rw [hp] at hq
      cases hq
      exact ⟨w, List.getElem?_set_self (List.getElem?_eq_some_iff.1 hp).1, hwrote _ hw⟩
    · exact ⟨q, (List.getElem?_set_ne hi).trans hq, hw⟩

theorem Inv.history (h : Inv s) {m : VerificationMap} (ht : Told s.clock m events)
    (hs : s.events <:+ events) : Inv { s with codes := m, events := events } where
  told := ht
  shown q hq x hqx := (h.shown q hq x hqx).mono hs
  generated := h.generated

theorem Inv.withUsers (h : Inv s) {users : List User}
    (hg : ∀ u ∈ users, ∀ p, u.password = .generated p →
      ∃ proc, s.procs[p]? = some proc ∧ proc.wrote = some u.email) :
    Inv { s with users := users } :=
  ⟨h.told, h.shown, hg⟩

theorem Inv.verifies_iff (h : Inv s) {purpose : Purpose} {email code : String} :
    s.verifies purpose email code = true ↔
      Shown.Valid ⟨purpose, email, code, s.clock⟩ s.events :=
  h.told.verify_iff email code purpose

/-- A code that is good now was good in the history. -/
theorem Inv.wasValid (h : Inv s) {purpose : Purpose} {email code : String}
    (hv : s.verifies purpose email code = true) :
    Shown.WasValid ⟨purpose, email, code, s.clock⟩ s.events :=
  ⟨s.events, List.suffix_rfl, h.verifies_iff.1 hv⟩

theorem Inv.next (h : Inv s) {err : Bool} (hp : s.procs[p]? = some proc)
    (hs : s.next p err proc = some s') : Inv s' := by
  have hfail : proc.wrote = none → Inv (s.goto p .failed) := fun hw =>
    h.goto hp (fun _ hx => nomatch hx) fun _ hx => by rw [hw] at hx; cases hx
  cases proc with
  | sending purpose email code =>
      cases hs
      exact (h.goto (w := .sent purpose email code) hp (fun _ hx => nomatch hx)
        fun _ hx => nomatch hx).history (h.told.register email code purpose) (List.suffix_cons _ _)
  | checked email code time =>
      simp only [State.next] at hs
      split at hs
      · cases hs
        exact hfail rfl
      · cases hs
        have hgoto := h.goto (w := .written email code time) hp (fun _ hx => hx)
          fun _ hx => nomatch hx
        refine hgoto.withUsers fun u hu q hg => ?_
        obtain ⟨v, hv, rfl⟩ := List.mem_map.1 hu
        split at hg
        · next hvm =>
            cases hg
            rw [if_pos hvm]
            exact ⟨_, List.getElem?_set_self (List.getElem?_eq_some_iff.1 hp).1,
              congrArg some hvm.1.symm⟩
        · next hvm =>
            rw [if_neg hvm]
            exact hgoto.generated v hv q hg
  | written email code time =>
      cases hs
      exact (h.goto (w := .answered email code time) hp (fun _ hx => hx)
        fun _ hx => hx).history (h.told.delete email .passwordReset) (List.suffix_cons _ _)
  | registering username email proof =>
      simp only [State.next] at hs
      split at hs <;> cases hs
      · exact hfail rfl
      · exact h.goto hp (fun _ hx => hx) fun _ hx => nomatch hx
  | inserting username email proof =>
      simp only [State.next] at hs
      split at hs <;> cases hs
      · exact hfail rfl
      · have hgoto := h.goto (w := .registered username email proof) hp (fun _ hx => hx)
          fun _ hx => nomatch hx
        refine hgoto.withUsers fun u hu q hg => ?_
        obtain hu | hu := List.mem_append.1 hu
        · exact hgoto.generated u hu q hg
        · rw [List.mem_singleton.1 hu] at hg
          cases hg
  | sent | answered | registered | failed => cases hs

theorem Inv.step (h : Inv s) (hs : step s a = some s') : Inv s' := by
  cases a with
  | tick d =>
      cases hs
      exact ⟨h.told.later d, h.shown, h.generated⟩
  | sendEmailVerification email code =>
      simp only [Verification.step] at hs
      split at hs <;> cases hs
      · exact h
      · exact h.start fun _ hx => nomatch hx
  | sendPasswordResetEmail email code =>
      simp only [Verification.step] at hs
      split at hs <;> cases hs
      · exact h.start fun _ hx => nomatch hx
      · exact h
  | resetPassword email token =>
      simp only [Verification.step] at hs
      split at hs
      · cases hs
        exact h
      · split at hs <;> cases hs
        · next hv =>
            refine h.start fun x hx => ?_
            cases hx
            exact h.wasValid hv
        · exact h
  | register enabled username email code =>
      simp only [Verification.step] at hs
      split at hs
      · split at hs
        · cases hs
          exact h
        · split at hs <;> cases hs
          · next hv =>
              refine h.start fun x hx => ?_
              cases hx
              exact h.wasValid hv
          · exact h
      · cases hs
        exact h.start fun _ hx => nomatch hx
  | next p err =>
      obtain ⟨proc, hp, hnext⟩ := Option.bind_eq_some_iff.1 hs
      exact h.next hp hnext
  | deleteUser i =>
      simp only [Verification.step] at hs
      split at hs <;> cases hs
      next u hu =>
        exact h.withUsers (Pool.forall_set h.generated (h.generated u (Pool.mem_of_get hu)))
  | updateUser i username chosen =>
      simp only [Verification.step] at hs
      split at hs
      · cases hs
      · next u hu =>
          split at hs <;> cases hs
          · exact h
          · refine h.withUsers (Pool.forall_set h.generated fun q hg => ?_)
            cases chosen with
            | true => cases hg
            | false => exact h.generated u (Pool.mem_of_get hu) q hg

/-! ## Used once -/

theorem draws_iff {email code : String} : proc.draws email code = true ↔
    proc = .sending .passwordReset email code ∨ proc = .sent .passwordReset email code := by
  simp [Proc.draws]

/-- A code is drawn by one request, what is in the history was sent by it, and what an answered
request has shown is not the newest code of its address. -/
structure Once (s : State) : Prop where
  drawn : ∀ (i j : Nat) (p q : Proc) (email code : String), s.procs[i]? = some p →
    s.procs[j]? = some q → p.draws email code = true → q.draws email code = true → i = j
  sent : ∀ (email code : String) (time : Nat),
    Event.put ⟨Purpose.passwordReset.text ++ email, code, time⟩ ∈ s.events →
      ∃ i : Nat, s.procs[i]? = some (Proc.sent .passwordReset email code)
  used : ∀ (email code : String) (time : Nat), Proc.answered email code time ∈ s.procs →
    ∀ e, newest s.events (Purpose.passwordReset.text ++ email) = some e → e.value ≠ code

theorem once_initial (users : List User) : Once (initial users) where
  drawn i j p q email code hp := absurd hp (by simp [initial])
  sent email code time he := absurd he List.not_mem_nil
  used email code time hp := absurd hp List.not_mem_nil

theorem Once.start (h : Once s)
    (hfresh : ∀ email code, proc.draws email code = true →
      ∀ q ∈ s.procs, q.draws email code = false)
    (hanswered : ∀ email code time, proc ≠ .answered email code time) : Once (s.start proc) where
  drawn i j p q email code hp hq hdp hdq := by
    have hnew : ∀ {k : Nat} {r : Proc}, (s.procs ++ [proc])[k]? = some r →
        s.procs[k]? = some r ∨ k = s.procs.length ∧ r = proc := by
      intro k r hk
      obtain hlt | hge := Nat.lt_or_ge k s.procs.length
      · exact .inl ((List.getElem?_append_left hlt).symm.trans hk)
      · rw [List.getElem?_append_right hge, List.getElem?_singleton] at hk
        split at hk <;> cases hk
        exact .inr ⟨by omega, rfl⟩
    obtain hp' | ⟨hi, hnewp⟩ := hnew hp <;> obtain hq' | ⟨hj, hnewq⟩ := hnew hq
    · exact h.drawn i j p q email code hp' hq' hdp hdq
    · rw [hfresh email code (hnewq ▸ hdq) p (List.mem_of_getElem? hp')] at hdp
      cases hdp
    · rw [hfresh email code (hnewp ▸ hdp) q (List.mem_of_getElem? hq')] at hdq
      cases hdq
    · rw [hi, hj]
  sent email code time he := by
    obtain ⟨i, hi⟩ := h.sent email code time he
    exact ⟨i, (List.getElem?_append_left (List.getElem?_eq_some_iff.1 hi).1).trans hi⟩
  used email code time hp := by
    obtain hp | hp := List.mem_append.1 hp
    · exact h.used email code time hp
    · exact absurd (List.mem_singleton.1 hp).symm (hanswered email code time)

/-- A request goes on, and the map and the table may change with it. -/
theorem Once.goto (h : Once s) (hp : s.procs[p]? = some proc) (hprocs : s'.procs = s.procs.set p w)
    (hdraws : ∀ email code, w.draws email code = true → proc.draws email code = true)
    (hsent : ∀ email code, proc ≠ .sent .passwordReset email code)
    (hputs : ∀ email code time,
      Event.put ⟨Purpose.passwordReset.text ++ email, code, time⟩ ∈ s'.events →
        Event.put ⟨Purpose.passwordReset.text ++ email, code, time⟩ ∈ s.events ∨
          w = .sent .passwordReset email code)
    (hused : ∀ email code time, Proc.answered email code time ∈ s'.procs →
      ∀ e, newest s'.events (Purpose.passwordReset.text ++ email) = some e → e.value ≠ code) :
    Once s' where
  drawn i j q r email code hq hr hdq hdr := by
    have hold : ∀ {k : Nat} {r : Proc}, s'.procs[k]? = some r → r.draws email code = true →
        ∃ r', s.procs[k]? = some r' ∧ r'.draws email code = true := by
      intro k r hk hd
      rw [hprocs] at hk
      by_cases hpk : p = k
      · subst hpk
        rw [List.getElem?_set_self (List.getElem?_eq_some_iff.1 hp).1] at hk
        cases hk
        exact ⟨proc, hp, hdraws email code hd⟩
      · exact ⟨r, (List.getElem?_set_ne hpk).symm.trans hk, hd⟩
    obtain ⟨q', hq', hdq'⟩ := hold hq hdq
    obtain ⟨r', hr', hdr'⟩ := hold hr hdr
    exact h.drawn i j q' r' email code hq' hr' hdq' hdr'
  sent email code time he := by
    rw [hprocs]
    obtain he | rfl := hputs email code time he
    · obtain ⟨i, hi⟩ := h.sent email code time he
      refine ⟨i, (List.getElem?_set_ne fun hpi => ?_).trans hi⟩
      rw [hpi, hi] at hp
      exact hsent email code (Option.some.inj hp).symm
    · exact ⟨p, List.getElem?_set_self (List.getElem?_eq_some_iff.1 hp).1⟩
  used := hused

/-- An answered request stays so, and is not one that goes on. -/
theorem answered_of_mem_set {email code : String} {time : Nat}
    (hmem : Proc.answered email code time ∈ s.procs.set p w)
    (hne : w ≠ .answered email code time) : Proc.answered email code time ∈ s.procs := by
  obtain hmem | heq := List.mem_or_eq_of_mem_set hmem
  · exact hmem
  · exact absurd heq.symm hne

/-- A step that leaves the history as it is. -/
theorem Once.keep (h : Once s) (hp : s.procs[p]? = some proc) (hprocs : s'.procs = s.procs.set p w)
    (hevents : s'.events = s.events) (hdraws : ∀ email code, w.draws email code = false)
    (hsent : ∀ email code, proc ≠ .sent .passwordReset email code)
    (hanswered : ∀ email code time, w ≠ .answered email code time) : Once s' := by
  refine h.goto hp hprocs (fun email code hd => ?_) hsent (fun _ _ _ he => .inl (hevents ▸ he))
    fun email code time hmem e hn => ?_
  · rw [hdraws email code] at hd
    cases hd
  · rw [hprocs] at hmem
    rw [hevents] at hn
    exact h.used email code time (answered_of_mem_set hmem (hanswered email code time)) e hn

theorem Once.next (h : Once s) (hinv : Inv s) {err : Bool} (hp : s.procs[p]? = some proc)
    (hs : s.next p err proc = some s') : Once s' := by
  cases proc with
  | sending purpose email code =>
      cases hs
      refine h.goto (w := .sent purpose email code) hp rfl (fun e c hd => ?_)
        (fun _ _ hc => nomatch hc) (fun e c time he => ?_) fun e c time hmem d hn hd => ?_
      · rw [draws_iff] at hd ⊢
        obtain hd | hd := hd <;> cases hd
        exact .inl rfl
      · obtain heq | he := List.mem_cons.1 he
        · injection heq with heq
          injection heq with hkey hcode
          obtain ⟨rfl, rfl⟩ := text_append_inj hkey
          exact .inr (by rw [hcode])
        · exact .inl he
      · have hold : Proc.answered e c time ∈ s.procs :=
          answered_of_mem_set hmem fun hc => nomatch hc
        rw [newest_put] at hn
        split at hn
        · -- the code would have been drawn twice
          next hkey =>
            cases hn
            obtain ⟨rfl, rfl⟩ := text_append_inj hkey
            cases hd
            have hshown := hinv.shown _ hold ⟨.passwordReset, email, code, time⟩ rfl
            obtain ⟨time', hput⟩ := hshown.sent
            obtain ⟨i, hi⟩ := h.sent email code time' hput
            have hip : i = p := h.drawn i p _ _ email code hi hp (draws_iff.2 (.inr rfl))
              (draws_iff.2 (.inl rfl))
            rw [hip, hp] at hi
            cases hi
        · exact h.used e c time hold d hn hd
  | checked email code time =>
      simp only [State.next] at hs
      split at hs <;> cases hs
      · exact h.keep hp rfl rfl (fun _ _ => rfl) (fun _ _ hc => nomatch hc) fun _ _ _ hc => nomatch hc
      · exact h.keep (w := .written email code time) hp rfl rfl (fun _ _ => rfl)
          (fun _ _ hc => nomatch hc) fun _ _ _ hc => nomatch hc
  | written email code time =>
      cases hs
      refine h.goto (w := .answered email code time) hp rfl (fun e c hd => ?_)
        (fun _ _ hc => nomatch hc) (fun e c t he => ?_) fun e c t hmem d hn => ?_
      · rw [draws_iff] at hd
        obtain hd | hd := hd <;> cases hd
      · obtain heq | he := List.mem_cons.1 he
        · cases heq
        · exact .inl he
      · rw [newest_erase] at hn
        split at hn
        · cases hn
        · next hkey =>
            obtain hmem | heq := List.mem_or_eq_of_mem_set hmem
            · exact h.used e c t hmem d hn
            · cases heq
              exact absurd rfl hkey
  | registering username email proof =>
      simp only [State.next] at hs
      split at hs <;> cases hs
      · exact h.keep hp rfl rfl (fun _ _ => rfl) (fun _ _ hc => nomatch hc) fun _ _ _ hc => nomatch hc
      · exact h.keep (w := .inserting username email proof) hp rfl rfl (fun _ _ => rfl)
          (fun _ _ hc => nomatch hc) fun _ _ _ hc => nomatch hc
  | inserting username email proof =>
      simp only [State.next] at hs
      split at hs <;> cases hs
      · exact h.keep hp rfl rfl (fun _ _ => rfl) (fun _ _ hc => nomatch hc) fun _ _ _ hc => nomatch hc
      · exact h.keep (w := .registered username email proof) hp rfl rfl (fun _ _ => rfl)
          (fun _ _ hc => nomatch hc) fun _ _ _ hc => nomatch hc
  | sent | answered | registered | failed => cases hs

/-- A request begins that draws no code for a password. -/
theorem Once.begin (h : Once s) (hdraws : ∀ email code, proc.draws email code = false)
    (hanswered : ∀ email code time, proc ≠ .answered email code time) : Once (s.start proc) :=
  h.start (fun email code hd => by rw [hdraws email code] at hd; cases hd) hanswered

theorem Once.step (h : Once s) (hinv : Inv s) (hfresh : Fresh s a)
    (hs : Verification.step s a = some s') : Once s' := by
  cases a with
  | tick d =>
      cases hs
      exact ⟨h.drawn, h.sent, h.used⟩
  | sendEmailVerification email code =>
      simp only [Verification.step] at hs
      split at hs <;> cases hs
      · exact h
      · exact h.begin (fun _ _ => by simp [Proc.draws]) fun _ _ _ hc => nomatch hc
  | sendPasswordResetEmail email code =>
      simp only [Verification.step] at hs
      split at hs <;> cases hs
      · refine h.start (fun e c hd => ?_) fun _ _ _ hc => nomatch hc
        rw [draws_iff] at hd
        obtain hd | hd := hd <;> cases hd
        exact hfresh
      · exact h
  | resetPassword email token =>
      simp only [Verification.step] at hs
      split at hs
      · cases hs
        exact h
      · split at hs <;> cases hs
        · exact h.begin (fun _ _ => by simp [Proc.draws]) fun _ _ _ hc => nomatch hc
        · exact h
  | register enabled username email code =>
      have hbegin : ∀ proof, Once (s.start (.registering username email proof)) := fun proof =>
        h.begin (fun _ _ => by simp [Proc.draws]) fun _ _ _ hc => nomatch hc
      simp only [Verification.step] at hs
      split at hs
      · split at hs
        · cases hs
          exact h
        · split at hs <;> cases hs
          · exact hbegin _
          · exact h
      · cases hs
        exact hbegin none
  | next p err =>
      obtain ⟨proc, hp, hnext⟩ := Option.bind_eq_some_iff.1 hs
      exact h.next hinv hp hnext
  | deleteUser i =>
      simp only [Verification.step] at hs
      split at hs <;> cases hs
      exact ⟨h.drawn, h.sent, h.used⟩
  | updateUser i username chosen =>
      simp only [Verification.step] at hs
      split at hs
      · cases hs
      · split at hs <;> cases hs
        · exact h
        · exact ⟨h.drawn, h.sent, h.used⟩

/-- A code of an answered request is not accepted again. -/
theorem Once.not_verifies (h : Once s) (hinv : Inv s) {email code : String} {time : Nat}
    (hp : Proc.answered email code time ∈ s.procs) : s.verifies .passwordReset email code = false := by
  rw [Bool.eq_false_iff]
  intro hv
  obtain ⟨e, hn, hcode, -⟩ := hinv.verifies_iff.1 hv
  exact h.used email code time hp e hn hcode

/-! ## The requests -/

end DazeApi.Users.Verification

/-!
# Runs of a labelled transition function

A system is given by a function `step : σ → α → Option σ`.  The state type `σ`
holds everything the system can see, a label `a : α` names one atomic step with
the answers the environment gives it, and `step s a = none` says that the step
cannot be taken in `s`.  A *run* is a list of labels, and `exec` is the state it
ends in.  Since every prefix of a run is a run, a statement about the end of all
runs is a statement about every reachable state.

`Along P` restricts a run: every label of it meets `P` in the state in which the
step is taken.  The restriction is part of the statement and not of the system,
so one system serves several restrictions.

`exec_trace` is the induction over runs: it carries an invariant that may speak
of the labels taken so far.  `exec_invariant` and `exec_always` are its cases for
an invariant of the state alone.  `Always I` says that `I` holds in every state of a
run, and `always_iff_along` says which runs do that.
-/

namespace Run

universe u v

variable {σ : Type u} {α : Type v}

/-- The state after the labels of a run, or `none` when one of them cannot be taken. -/
def exec (step : σ → α → Option σ) : σ → List α → Option σ
  | s, [] => some s
  | s, a :: as => (step s a).bind fun s' => exec step s' as

/-- Every label of the run meets `P` in the state in which it is taken. -/
def Along (step : σ → α → Option σ) (P : σ → α → Prop) : σ → List α → Prop
  | _, [] => True
  | s, a :: as => P s a ∧ ∀ s', step s a = some s' → Along step P s' as

/-- A restriction that can be tested can be tested along a run. -/
instance Along.decidable (step : σ → α → Option σ) (P : σ → α → Prop)
    [∀ s a, Decidable (P s a)] : ∀ (s : σ) (as : List α), Decidable (Along step P s as)
  | _, [] => .isTrue trivial
  | s, a :: as =>
      match h : step s a with
      | none => decidable_of_iff (P s a) ⟨fun hp => ⟨hp, by simp [h]⟩, fun hp => hp.1⟩
      | some m =>
          have := Along.decidable step P m as
          decidable_of_iff (P s a ∧ Along step P m as)
            ⟨fun hp => ⟨hp.1, by simpa [h] using hp.2⟩, fun hp => ⟨hp.1, hp.2 m h⟩⟩

/-- The property holds in every state that the run passes. -/
def Always (step : σ → α → Option σ) (I : σ → Prop) : σ → List α → Prop
  | s, [] => I s
  | s, a :: as => I s ∧ ∀ s', step s a = some s' → Always step I s' as

section

variable {step : σ → α → Option σ} {P : σ → α → Prop} {s s' : σ} {a : α} {as : List α}

@[simp] theorem exec_nil : exec step s [] = some s := rfl

theorem exec_cons_eq_some :
    exec step s (a :: as) = some s' ↔ ∃ m, step s a = some m ∧ exec step m as = some s' := by
  simp only [exec, Option.bind_eq_some_iff]

theorem exec_append (as bs : List α) :
    exec step s (as ++ bs) = (exec step s as).bind fun m => exec step m bs := by
  induction as generalizing s with
  | nil => rfl
  | cons a as ih =>
      simp only [List.cons_append, exec, Option.bind_assoc]
      congr 1
      funext m
      exact ih

/-- A run that ends in a state passing a test. -/
theorem exists_of_any (step : σ → α → Option σ) (s : σ) (as : List α) (p : σ → Bool)
    (h : (exec step s as).any p = true) :
    ∃ s', exec step s as = some s' ∧ p s' = true := by
  rwa [Option.any_eq_true] at h

/-- Where every step can be taken, every run can. -/
theorem exec_total (h : ∀ s a, (step s a).isSome = true) :
    ∀ (as : List α) (s : σ), ∃ s', exec step s as = some s'
  | [], s => ⟨s, rfl⟩
  | a :: as, s => by
      obtain ⟨m, hm⟩ := Option.isSome_iff_exists.1 (h s a)
      obtain ⟨s', hs'⟩ := exec_total h as m
      exact ⟨s', exec_cons_eq_some.2 ⟨m, hm, hs'⟩⟩

theorem Along.head (h : Along step P s (a :: as)) : P s a := h.1

theorem Along.tail {m : σ} (h : Along step P s (a :: as)) (hm : step s a = some m) :
    Along step P m as := h.2 m hm

/-- Two restrictions of one run are one restriction. -/
theorem Along.and {Q : σ → α → Prop} :
    ∀ {as : List α} {s : σ}, Along step P s as → Along step Q s as →
      Along step (fun s a => P s a ∧ Q s a) s as
  | [], _, _, _ => trivial
  | _ :: _, _, hP, hQ => ⟨⟨hP.head, hQ.head⟩, fun _ hm => (hP.tail hm).and (hQ.tail hm)⟩

/-- The trace rule.  An invariant of the labels taken so far and the state they
led to, kept by every step that meets `P`, holds at the end of every run whose
steps all meet `P`. -/
theorem exec_trace {I : List α → σ → Prop}
    (hstep : ∀ tr s a s', I tr s → P s a → step s a = some s' → I (tr ++ [a]) s') :
    ∀ (tr as : List α) (s s' : σ), I tr s → Along step P s as → exec step s as = some s' →
      I (tr ++ as) s'
  | tr, [], s, s', hI, _, hs => by
      cases hs
      simpa using hI
  | tr, a :: as, s, s', hI, hP, hs => by
      obtain ⟨m, hm, hms⟩ := exec_cons_eq_some.1 hs
      have h := exec_trace hstep (tr ++ [a]) as m s' (hstep tr s a m hI hP.head hm)
        (hP.tail hm) hms
      simpa using h

/-- The invariant rule: what every step that meets `P` keeps holds at the end of
every run whose steps all meet `P`. -/
theorem exec_invariant {I : σ → Prop}
    (hstep : ∀ s a s', I s → P s a → step s a = some s' → I s')
    (hI : I s) (hP : Along step P s as) (hs : exec step s as = some s') : I s' :=
  exec_trace (I := fun _ => I) (fun _ s a s' => hstep s a s') [] as s s' hI hP hs

/-- A run meets a restriction that every step meets. -/
theorem along_of_forall (h : ∀ s a, P s a) : ∀ (as : List α) (s : σ), Along step P s as
  | [], _ => trivial
  | a :: as, s => ⟨h s a, fun m _ => along_of_forall h as m⟩

/-- A run meets a restriction that each of its labels meets in every state. -/
theorem along_of_mem {p : α → Prop} :
    ∀ {as : List α}, (∀ a ∈ as, p a) → ∀ s : σ, Along step (fun _ a => p a) s as
  | [], _, _ => trivial
  | a :: _, h, _ =>
      ⟨h a (by simp), fun m _ => along_of_mem (fun b hb => h b (by simp [hb])) m⟩

/-- What every step keeps holds at the end of every run. -/
theorem exec_always {I : σ → Prop} (hstep : ∀ s a s', I s → step s a = some s' → I s')
    (hI : I s) (hs : exec step s as = some s') : I s' :=
  exec_invariant (P := fun _ _ => True) (fun s a s' hI _ => hstep s a s' hI) hI
    (along_of_forall (fun _ _ => trivial) as s) hs

/-- A run within `R` stays within `P` or ends in `Q`, when a step outside of `P`
leads into `Q` and no step leads out of `Q`. -/
theorem along_or {R : σ → α → Prop} {I Q : σ → Prop}
    (hinv : ∀ s a s', I s → R s a → step s a = some s' → I s')
    (hout : ∀ s a s', I s → R s a → ¬ P s a → step s a = some s' → Q s')
    (hstay : ∀ s a s', I s → R s a → Q s → step s a = some s' → Q s') :
    ∀ (as : List α) (s s' : σ), I s → Along step R s as → exec step s as = some s' →
      Along step P s as ∨ Q s'
  | [], _, _, _, _, _ => Or.inl trivial
  | a :: as, s, s', hI, hR, hs => by
      obtain ⟨m, hm, hms⟩ := exec_cons_eq_some.1 hs
      have hIm := hinv s a m hI hR.head hm
      by_cases hP : P s a
      · rcases along_or hinv hout hstay as m s' hIm (hR.tail hm) hms with h | h
        · refine Or.inl ⟨hP, ?_⟩
          intro m' hm'
          rw [hm] at hm'
          cases hm'
          exact h
        · exact Or.inr h
      · have hQ : I s' ∧ Q s' :=
          exec_invariant (I := fun s => I s ∧ Q s)
            (fun s a s' hIQ hRa hs' => ⟨hinv s a s' hIQ.1 hRa hs', hstay s a s' hIQ.1 hRa hIQ.2 hs'⟩)
            ⟨hIm, hout s a m hI hR.head hP hm⟩ (hR.tail hm) hms
        exact Or.inr hQ.2

theorem Always.head {I : σ → Prop} (h : Always step I s as) : I s := by
  cases as with
  | nil => exact h
  | cons a as => exact h.1

/-- Where a step within `R` keeps a property exactly if it meets `P`, a run within `R`
has the property in all its states exactly if all its steps meet `P`. -/
theorem always_iff_along {R : σ → α → Prop} {I : σ → Prop}
    (hiff : ∀ s a s', I s → R s a → step s a = some s' → (I s' ↔ P s a)) :
    ∀ (as : List α) (s s' : σ), I s → Along step R s as → exec step s as = some s' →
      (Always step I s as ↔ Along step P s as)
  | [], _, _, hI, _, _ => ⟨fun _ => trivial, fun _ => hI⟩
  | a :: as, s, s', hI, hR, hs => by
      obtain ⟨m, hm, hms⟩ := exec_cons_eq_some.1 hs
      have hstep := hiff s a m hI hR.head hm
      constructor
      · intro h
        have hIm := (h.2 m hm).head
        refine ⟨hstep.1 hIm, ?_⟩
        intro m' hm'
        cases hm.symm.trans hm'
        exact (always_iff_along hiff as m s' hIm (hR.tail hm) hms).1 (h.2 m hm)
      · intro h
        have hIm := hstep.2 h.head
        refine ⟨hI, ?_⟩
        intro m' hm'
        cases hm.symm.trans hm'
        exact (always_iff_along hiff as m s' hIm (hR.tail hm) hms).2 (h.tail hm)

/-- A restriction may be weakened along a run as long as an invariant of the run
gives the weakening. -/
theorem Along.mono {Q : σ → α → Prop} {I : σ → Prop}
    (hPQ : ∀ s a, I s → P s a → Q s a)
    (hstep : ∀ s a s', I s → P s a → step s a = some s' → I s') :
    ∀ {as : List α} {s : σ}, I s → Along step P s as → Along step Q s as
  | [], _, _, _ => trivial
  | a :: _, s, hI, h =>
      ⟨hPQ s a hI h.head, fun m hm => Along.mono hPQ hstep (hstep s a m hI h.head hm) (h.tail hm)⟩

end

end Run

import Mathlib.Data.List.Basic

/-!
# Tables whose entries expire

A table keeps for each key the value that was put last, with its time, until a sweep finds that it
is not fresh any more.  Beside the table stands its history, the newest event first.  `get_iff` says
that the fresh value which is read is the newest one of the history: a sweep takes away nothing
that could still be read.
-/

namespace Expiring

variable {κ ν : Type}

structure Entry (κ ν : Type) where
  key : κ
  value : ν
  time : Nat

inductive Event (κ ν : Type)
  | put (e : Entry κ ν)
  | erase (k : κ)

def Event.key : Event κ ν → κ
  | .put e => e.key
  | .erase k => k

section

variable [DecidableEq κ]

def get (t : List (Entry κ ν)) (k : κ) : Option (Entry κ ν) := t.find? (·.key = k)

def erase (t : List (Entry κ ν)) (k : κ) : List (Entry κ ν) := t.filter (·.key ≠ k)

def put (t : List (Entry κ ν)) (e : Entry κ ν) : List (Entry κ ν) := e :: erase t e.key

/-- The entry of the newest event of the key, unless that has erased it. -/
def newest (h : List (Event κ ν)) (k : κ) : Option (Entry κ ν) :=
  match h.find? (·.key = k) with
  | some (.put e) => some e
  | _ => none

end

def sweep (fresh : Nat → Bool) (t : List (Entry κ ν)) : List (Entry κ ν) := t.filter (fresh ·.time)

variable {fresh fresh' : Nat → Bool} {t : List (Entry κ ν)} {h : List (Event κ ν)} {e : Entry κ ν}
  {k : κ}

@[simp] theorem mem_sweep : e ∈ sweep fresh t ↔ e ∈ t ∧ fresh e.time = true := by
  simp [sweep]

variable [DecidableEq κ]

@[simp] theorem mem_erase : e ∈ erase t k ↔ e ∈ t ∧ e.key ≠ k := by
  simp [erase]

@[simp] theorem mem_put {d : Entry κ ν} : e ∈ put t d ↔ e = d ∨ e ∈ t ∧ e.key ≠ d.key := by
  simp [put]

@[simp] theorem newest_nil : newest ([] : List (Event κ ν)) k = none := rfl

theorem newest_put (e : Entry κ ν) (k : κ) :
    newest (.put e :: h) k = if e.key = k then some e else newest h k := by
  by_cases hk : e.key = k <;> simp [newest, Event.key, hk]

theorem newest_erase (j k : κ) :
    newest (.erase j :: h) k = if j = k then none else newest h k := by
  by_cases hk : j = k <;> simp [newest, Event.key, hk]

theorem key_of_newest (hn : newest h k = some e) : e.key = k ∧ Event.put e ∈ h := by
  induction h with
  | nil => cases hn
  | cons ev h ih =>
      cases ev with
      | put d =>
          rw [newest_put] at hn
          split at hn
          · next hk =>
              cases hn
              exact ⟨hk, List.mem_cons_self⟩
          · exact ⟨(ih hn).1, List.mem_cons_of_mem _ (ih hn).2⟩
      | erase j =>
          rw [newest_erase] at hn
          split at hn
          · cases hn
          · exact ⟨(ih hn).1, List.mem_cons_of_mem _ (ih hn).2⟩

/-- The table has newest entries only, and all of them that are fresh. -/
structure Agrees (fresh : Nat → Bool) (t : List (Entry κ ν)) (h : List (Event κ ν)) : Prop where
  newest : ∀ e ∈ t, newest h e.key = some e
  kept : ∀ k e, Expiring.newest h k = some e → fresh e.time = true → e ∈ t

theorem Agrees.nil : Agrees fresh ([] : List (Entry κ ν)) [] :=
  ⟨fun _ he => absurd he List.not_mem_nil, fun k e hn => absurd hn (by simp)⟩

/-- Time passes, and entries get old. -/
theorem Agrees.older (ha : Agrees fresh t h) (hle : ∀ n, fresh' n = true → fresh n = true) :
    Agrees fresh' t h :=
  ⟨ha.newest, fun k e hn hf => ha.kept k e hn (hle _ hf)⟩

theorem Agrees.put (ha : Agrees fresh t h) (d : Entry κ ν) :
    Agrees fresh (put t d) (.put d :: h) where
  newest e he := by
    rw [newest_put]
    obtain rfl | ⟨het, hne⟩ := mem_put.1 he
    · exact if_pos rfl
    · rw [if_neg (Ne.symm hne)]
      exact ha.newest e het
  kept k e hn hf := by
    rw [newest_put] at hn
    split at hn
    · cases hn
      exact mem_put.2 (.inl rfl)
    · next hk =>
        have hek := (key_of_newest hn).1
        exact mem_put.2 (.inr ⟨ha.kept k e hn hf, fun heq => hk (heq.symm.trans hek)⟩)

theorem Agrees.erase (ha : Agrees fresh t h) (j : κ) : Agrees fresh (erase t j) (.erase j :: h) where
  newest e he := by
    obtain ⟨het, hne⟩ := mem_erase.1 he
    rw [newest_erase, if_neg (Ne.symm hne)]
    exact ha.newest e het
  kept k e hn hf := by
    rw [newest_erase] at hn
    split at hn
    · cases hn
    · next hk =>
        have hek := (key_of_newest hn).1
        exact mem_erase.2 ⟨ha.kept k e hn hf, fun heq => hk (heq.symm.trans hek)⟩

theorem Agrees.sweep (ha : Agrees fresh t h) : Agrees fresh (sweep fresh t) h where
  newest e he := ha.newest e (mem_sweep.1 he).1
  kept k e hn hf := mem_sweep.2 ⟨ha.kept k e hn hf, hf⟩

/-- A fresh value is read exactly where it is the newest. -/
theorem Agrees.get_iff (ha : Agrees fresh t h) {p : Entry κ ν → Prop} :
    (∃ e, get t k = some e ∧ fresh e.time = true ∧ p e) ↔
      ∃ e, Expiring.newest h k = some e ∧ fresh e.time = true ∧ p e := by
  constructor
  · rintro ⟨e, hg, hf, hp⟩
    have hek : e.key = k := by simpa using List.find?_some hg
    exact ⟨e, hek ▸ ha.newest e (List.mem_of_find?_eq_some hg), hf, hp⟩
  · rintro ⟨e, hn, hf, hp⟩
    have het := ha.kept k e hn hf
    have hek := (key_of_newest hn).1
    obtain ⟨d, hd⟩ := Option.isSome_iff_exists.1
      (List.find?_isSome.2 ⟨e, het, decide_eq_true hek⟩ : (get t k).isSome = true)
    have hdk : d.key = k := by simpa using List.find?_some hd
    have hdn := ha.newest d (List.mem_of_find?_eq_some hd)
    rw [hdk, hn] at hdn
    cases hdn
    exact ⟨e, hd, hf, hp⟩

end Expiring

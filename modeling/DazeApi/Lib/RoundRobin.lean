import Mathlib.Data.List.Rotate

/-!
# Taking turns

The positions below a size that pass a test are searched from a start on, around the end.
`turns` lists them in the order in which the search comes to them.  A search that starts
behind the last hit finds the next one (`turns_next`), so the list becomes a queue: the
first is served and goes to the end.

`serve` is what is served when the queue does not always move on.  As many services as the
queue is long serve each member once exactly if it moves on after all of them but the last
(`serve_perm_iff`).
-/

namespace RoundRobin

/-- The positions that a search from `start` on comes to. -/
def turns (p : Nat → Bool) (size start : Nat) : List Nat :=
  ((List.range size).map fun i => (start + i) % size).filter p

section

variable {p : Nat → Bool} {size start i : Nat} {rest : List Nat}

theorem map_add_mod (size start : Nat) :
    ((List.range size).map fun i => (start + i) % size) = (List.range size).rotate start := by
  apply List.ext_getElem
  · simp
  · intro i hi hi'
    simp [List.getElem_rotate, Nat.add_comm]

theorem turns_eq (p : Nat → Bool) (size start : Nat) :
    turns p size start = ((List.range size).rotate start).filter p := by
  rw [turns, map_add_mod]

/-- The search comes to every position. -/
theorem turns_perm (p : Nat → Bool) (size start : Nat) :
    (turns p size start).Perm ((List.range size).filter p) := by
  rw [turns_eq]
  exact (List.rotate_perm _ _).filter p

theorem nodup_turns (p : Nat → Bool) (size start : Nat) : (turns p size start).Nodup :=
  (turns_perm p size start).nodup_iff.2 (List.nodup_range.filter p)

/-- A search that starts behind a hit comes to it last. -/
theorem turns_next (h : turns p size start = i :: rest) :
    turns p size ((i + 1) % size) = rest ++ [i] := by
  rw [turns_eq] at h
  obtain ⟨skipped, later, hsplit, hskipped, hi, hrest⟩ := List.filter_eq_cons_iff.1 h
  have hlt : skipped.length < ((List.range size).rotate start).length := by
    rw [hsplit]
    simp
  have hpos : i = (start + skipped.length) % size := by
    have hget : ((List.range size).rotate start)[skipped.length] = i := by simp [hsplit]
    rw [← hget, List.getElem_rotate]
    simp [Nat.add_comm]
  have hrotate : (List.range size).rotate ((i + 1) % size) = later ++ (skipped ++ [i]) := by
    calc (List.range size).rotate ((i + 1) % size)
        = (List.range size).rotate ((start + (skipped.length + 1)) % size) := by
          rw [hpos, Nat.mod_add_mod, Nat.add_assoc]
      _ = (List.range size).rotate (start + (skipped.length + 1)) := by
          nth_rewrite 2 [← List.length_range (n := size)]
          rw [List.rotate_mod]
      _ = (skipped ++ i :: later).rotate (skipped.length + 1) := by
          rw [← List.rotate_rotate, hsplit]
      _ = later ++ (skipped ++ [i]) := by
          have hassoc : skipped ++ i :: later = (skipped ++ [i]) ++ later := by simp
          have hlength : skipped.length + 1 = (skipped ++ [i]).length := by simp
          rw [hassoc, hlength, List.rotate_append_length_eq]
  have hnone : skipped.filter p = [] := List.filter_eq_nil_iff.2 hskipped
  rw [turns_eq, hrotate, List.filter_append, List.filter_append, hrest, hnone,
    List.nil_append, List.filter_singleton, hi, cond_true]

end

/-! ## A queue that does not always move on -/

section

universe u

variable {α : Type u}

/-- What is served: always the first of the queue, which goes to its end when the queue
moves on. -/
def serve : List α → List Bool → List α
  | [], _ => []
  | _ :: _, [] => []
  | x :: rest, moves :: later => x :: serve (if moves then rest ++ [x] else x :: rest) later

@[simp] theorem serve_nil (q : List α) : serve q [] = [] := by
  cases q <;> rfl

theorem length_serve {q : List α} (hq : q ≠ []) (moves : List Bool) :
    (serve q moves).length = moves.length := by
  induction moves generalizing q with
  | nil => rw [serve_nil]; rfl
  | cons first later ih =>
      cases q with
      | nil => exact absurd rfl hq
      | cons x rest =>
          rw [serve, List.length_cons, ih, List.length_cons]
          split <;> simp

/-- Only members are served. -/
theorem mem_of_mem_serve {q : List α} {moves : List Bool} {y : α} (h : y ∈ serve q moves) :
    y ∈ q := by
  induction moves generalizing q with
  | nil =>
      rw [serve_nil] at h
      cases h
  | cons first later ih =>
      cases q with
      | nil => cases h
      | cons x rest =>
          rcases List.mem_cons.1 h with rfl | hlater
          · exact List.mem_cons_self
          · have hmem := ih hlater
            split at hmem
            · simpa [or_comm] using hmem
            · exact hmem

/-- A queue that moves on serves its members in order. -/
theorem serve_eq_take {q : List α} {moves : List Bool} (hmoves : ∀ m ∈ moves.dropLast, m = true)
    (hlength : moves.length ≤ q.length) : serve q moves = q.take moves.length := by
  induction moves generalizing q with
  | nil => cases q <;> rfl
  | cons first later ih =>
      cases q with
      | nil => simp at hlength
      | cons x rest =>
          rw [serve, List.length_cons, List.take_succ_cons]
          cases later with
          | nil => rw [serve_nil]; rfl
          | cons second later =>
              have hfirst : first = true := hmoves first (by simp)
              have hle : (second :: later).length ≤ rest.length := by simpa using hlength
              have hlater : ∀ m ∈ (second :: later).dropLast, m = true := fun m hm =>
                hmoves m (List.mem_cons_of_mem first hm)
              have hle' : (second :: later).length ≤ (rest ++ [x]).length := by
                rw [List.length_append]
                exact hle.trans (Nat.le_add_right _ _)
              rw [if_pos hfirst, ih hlater hle', List.take_append_of_le_length hle]

/-- One that does not move on serves a member again. -/
theorem moves_of_nodup_serve {q : List α} (hq : q ≠ []) {moves : List Bool}
    (h : (serve q moves).Nodup) : ∀ m ∈ moves.dropLast, m = true := by
  induction moves generalizing q with
  | nil => simp
  | cons first later ih =>
      cases q with
      | nil => exact absurd rfl hq
      | cons x rest =>
          rw [serve, List.nodup_cons] at h
          cases later with
          | nil => simp
          | cons second later =>
              cases first with
              | false =>
                  -- the first is served once more
                  exact absurd (by simp [serve]) h.1
              | true =>
                  intro m hm
                  rcases List.mem_cons.1 hm with rfl | hm
                  · rfl
                  · exact ih (by simp) h.2 m hm

/-- As many services as there are members serve each once exactly if the queue moves on
after all but the last. -/
theorem serve_perm_iff {q : List α} (hq : q ≠ []) (hnodup : q.Nodup) {moves : List Bool}
    (hlength : moves.length = q.length) :
    (serve q moves).Perm q ↔ ∀ m ∈ moves.dropLast, m = true := by
  constructor
  · intro hperm
    exact moves_of_nodup_serve hq (hperm.nodup_iff.2 hnodup)
  · intro hmoves
    rw [serve_eq_take hmoves hlength.le, hlength, List.take_length]

end

end RoundRobin

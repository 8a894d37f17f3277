import Mathlib.Data.List.Basic

/-!
# Lines

How a scanner cuts a text into lines: at every separator, and at the end of the text if something
is left there.  A text that ends with a separator is scanned on its own, whatever follows it.
-/

namespace Lines

section

variable {α : Type} [DecidableEq α]

/-- The lines of a text, of whose first line the scanner has read a part. -/
def scanFrom (sep : α) : List α → List α → List (List α)
  | line, [] => if line = [] then [] else [line]
  | line, c :: cs =>
      if c = sep then line :: scanFrom sep [] cs else scanFrom sep (line ++ [c]) cs

def scan (sep : α) (text : List α) : List (List α) := scanFrom sep [] text

variable {sep c : α} {line l rest text : List α} {ls : List (List α)}

theorem scanFrom_append (h : sep ∉ l) :
    scanFrom sep line (l ++ rest) = scanFrom sep (line ++ l) rest := by
  induction l generalizing line with
  | nil => rw [List.nil_append, List.append_nil]
  | cons c l ih =>
      have hc : c ≠ sep := fun hc => h (hc ▸ List.mem_cons_self)
      have hl : sep ∉ l := fun hl => h (List.mem_cons_of_mem c hl)
      rw [List.cons_append, scanFrom, if_neg hc, ih hl, List.append_assoc]
      rfl

theorem scan_cons (h : sep ∉ l) : scan sep (l ++ sep :: rest) = l :: scan sep rest := by
  rw [scan, scanFrom_append h, List.nil_append, scanFrom, if_pos rfl]
  rfl

/-- What is written line by line is read line by line. -/
theorem scan_flatMap (h : ∀ l ∈ ls, sep ∉ l) :
    scan sep ((ls.flatMap fun l => l ++ [sep]) ++ rest) = ls ++ scan sep rest := by
  induction ls with
  | nil => rfl
  | cons l ls ih =>
      rw [List.forall_mem_cons] at h
      rw [List.flatMap_cons, List.append_assoc, List.append_assoc, List.singleton_append,
        scan_cons h.1, ih h.2]
      rfl

/-- A line has no separator, and nothing that is not in the text. -/
theorem of_mem_scanFrom (hline : sep ∉ line) (h : l ∈ scanFrom sep line text) :
    sep ∉ l ∧ ∀ c ∈ l, c ∈ line ∨ c ∈ text := by
  induction text generalizing line with
  | nil =>
      rw [scanFrom] at h
      split at h
      · cases h
      · rw [List.mem_singleton] at h
        subst h
        exact ⟨hline, fun c hc => Or.inl hc⟩
  | cons x text ih =>
      rw [scanFrom] at h
      split at h
      next =>
        rcases List.mem_cons.1 h with rfl | h
        · exact ⟨hline, fun c hc => Or.inl hc⟩
        · obtain ⟨hsep, hmem⟩ := ih List.not_mem_nil h
          refine ⟨hsep, fun c hc => Or.inr ?_⟩
          rcases hmem c hc with hc | hc
          · cases hc
          · exact List.mem_cons_of_mem x hc
      next hx =>
        have hmore : sep ∉ line ++ [x] := by
          rw [List.mem_append, List.mem_singleton, not_or]
          exact ⟨hline, fun hsep => hx hsep.symm⟩
        obtain ⟨hsep, hmem⟩ := ih hmore h
        refine ⟨hsep, fun c hc => ?_⟩
        rcases hmem c hc with hc | hc
        · rw [List.mem_append, List.mem_singleton] at hc
          rcases hc with hc | rfl
          · exact Or.inl hc
          · exact Or.inr List.mem_cons_self
        · exact Or.inr (List.mem_cons_of_mem x hc)

theorem sep_not_mem_of_mem_scan (h : l ∈ scan sep text) : sep ∉ l :=
  (of_mem_scanFrom List.not_mem_nil h).1

theorem mem_of_mem_scan (h : l ∈ scan sep text) (hc : c ∈ l) : c ∈ text := by
  rcases (of_mem_scanFrom List.not_mem_nil h).2 c hc with hc | hc
  · cases hc
  · exact hc

end

end Lines

import DazeApi.Relay.Scanner

/-!
# Lines of a stream of events

Which lines of the upstream body are payloads and which end it, and when the scanner goroutine
accepts exactly the payloads.  Its cut of five bytes is right for `data:`; of a line that begins
with `[DONE]` it leaves the bracket, and a payload that only begins with `[DONE]` ends the stream.
-/

namespace DazeApi.Relay.Scanner

/-- What a line says after `data:`. -/
def dataOf (line : String) : Option String :=
  if Text.hasPrefix line "data:" then some (Text.trimSpace (Text.dropPrefix line "data:"))
  else none

/-- `data: [DONE]`, with any spacing, and a bare `[DONE]`. -/
def IsTerminator (line : String) : Prop := dataOf line = some "[DONE]" ∨ line = "[DONE]"

instance (line : String) : Decidable (IsTerminator line) := inferInstanceAs (Decidable (_ ∨ _))

/-- The payloads of the lines up to the first terminator. -/
def payloads (lines : List String) : List String :=
  ((lines.takeWhile fun line => ¬ IsTerminator line).filterMap dataOf).filter fun data => data ≠ ""

/-- The lines up to the first terminator, and that. -/
def upToTerminator : List String → List String
  | [] => []
  | line :: lines => if IsTerminator line then [line] else line :: upToTerminator lines

/-- The line does not begin with `[DONE]`, and what it says is `[DONE]` if it begins with it. -/
def Plain (line : String) : Prop :=
  Text.hasPrefix line "[DONE]" = false ∧
    ∀ data ∈ dataOf line, Text.hasPrefix data "[DONE]" = true → data = "[DONE]"

instance (line : String) : Decidable (Plain line) :=
  inferInstanceAs (Decidable (_ ∧ ∀ data ∈ dataOf line, _ → data = "[DONE]"))

section

variable {line data : String} {lines : List String}

theorem length_le_byteLength (s : String) : s.toList.length ≤ Text.byteLength s := by
  have h : ∀ (l : List Char) (n : Nat), n + l.length ≤ l.foldl (fun n c => n + c.utf8Size) n := by
    intro l
    induction l with
    | nil => exact fun n => Nat.le_refl n
    | cons c l ih =>
        intro n
        have hc := c.utf8Size_pos
        have := ih (n + c.utf8Size)
        rw [List.foldl_cons, List.length_cons]
        omega
  have := h s.toList 0
  rw [Text.byteLength]
  omega

/-- What does not begin with a space begins alike when it is trimmed. -/
theorem trimSpace_cons {c : Char} (cs : List Char) (hc : Text.isSpace c = false) :
    ∃ rest, (Text.trimSpace (String.ofList (c :: cs))).toList = c :: rest := by
  have hpre : ((c :: cs).reverse.dropWhile Text.isSpace).reverse <+: c :: cs := by
    have h := List.dropWhile_suffix Text.isSpace (l := (c :: cs).reverse)
    rw [← List.reverse_prefix, List.reverse_reverse] at h
    exact h
  have hne : ((c :: cs).reverse.dropWhile Text.isSpace).reverse ≠ [] := by
    intro hnil
    rw [List.reverse_eq_nil_iff, List.dropWhile_eq_nil_iff] at hnil
    have := hnil c (List.mem_reverse.2 (.head _))
    rw [hc] at this
    cases this
  rw [Text.trimSpace, String.toList_ofList, String.toList_ofList,
    List.dropWhile_cons_of_neg (by rw [hc]; exact Bool.false_ne_true)]
  obtain ⟨x, rest, hx⟩ := List.exists_cons_of_ne_nil hne
  rw [hx] at hpre ⊢
  obtain ⟨rfl, -⟩ := List.cons_prefix_cons.1 hpre
  exact ⟨rest, rfl⟩

theorem classify_of_data (h : dataOf line = some data) :
    classify line =
      if data = "" then .skip
      else if Text.hasPrefix data "[DONE]" = true then .done else .payload data := by
  rw [dataOf] at h
  split at h
  next hprefix =>
    rw [Option.some.injEq] at h
    subst h
    have hcut : String.ofList (line.toList.drop 5) = Text.dropPrefix line "data:" := rfl
    rw [classify, hcut]
    by_cases hshort : Text.byteLength line < 6
    · -- The line is `data:`.
      have hlen := length_le_byteLength line
      have hnil : line.toList.drop 5 = [] := List.drop_eq_nil_of_le (by omega)
      have hempty : Text.trimSpace (Text.dropPrefix line "data:") = "" := by
        rw [← hcut, hnil]
        rfl
      rw [if_pos hshort, if_pos hempty]
    · rw [if_neg hshort, hprefix]
      simp only [Bool.not_true, Bool.false_and, Bool.false_eq_true, if_false]
      cases Text.hasPrefix (Text.trimSpace (Text.dropPrefix line "data:")) "[DONE]" with
      | true => rfl
      | false => rfl
  next => cases h

/-- Of a line that begins with `[DONE]` the bracket is left. -/
theorem classify_of_done (h : Text.hasPrefix line "[DONE]" = true) :
    ∃ data, classify line = .payload data := by
  obtain ⟨rest, hline⟩ := Text.hasPrefix_iff.1 h
  have hdrop : line.toList.drop 5 = ']' :: rest := by
    rw [← hline]
    rfl
  have hlong : ¬ Text.byteLength line < 6 := by
    have := length_le_byteLength line
    rw [← hline, List.length_append] at this
    have hsix : "[DONE]".toList.length = 6 := rfl
    omega
  obtain ⟨tail, htail⟩ := trimSpace_cons (c := ']') rest (by decide)
  refine ⟨Text.trimSpace (String.ofList (']' :: rest)), ?_⟩
  rw [classify, hdrop, if_neg hlong, h]
  have hne : Text.trimSpace (String.ofList (']' :: rest)) ≠ "" := by
    intro hempty
    rw [hempty] at htail
    cases htail
  have hfirst : Text.hasPrefix (Text.trimSpace (String.ofList (']' :: rest))) "[DONE]" = false := by
    rw [Text.hasPrefix, htail]
    rfl
  simp only [Bool.not_true, Bool.and_false, Bool.false_eq_true, if_false, hne, hfirst,
    Bool.not_false, if_true]

theorem classify_of_other (hdata : dataOf line = none) (hdone : Text.hasPrefix line "[DONE]" = false) :
    classify line = .skip := by
  rw [dataOf] at hdata
  split at hdata
  next => cases hdata
  next hprefix =>
    rw [classify, Bool.not_eq_true _ |>.mp hprefix, hdone]
    simp

/-- A line that begins with one begins not with the other. -/
theorem dataOf_of_done (h : Text.hasPrefix line "[DONE]" = true) : dataOf line = none := by
  obtain ⟨rest, hline⟩ := Text.hasPrefix_iff.1 h
  rw [dataOf, Text.hasPrefix, ← hline]
  rfl

theorem payloads_cons_of_terminator (h : IsTerminator line) : payloads (line :: lines) = [] := by
  rw [payloads, List.takeWhile_cons, if_neg (by simpa using h)]
  rfl

theorem payloads_cons_of_none (h : ¬ IsTerminator line) (hdata : dataOf line = none) :
    payloads (line :: lines) = payloads lines := by
  rw [payloads, List.takeWhile_cons, if_pos (by simpa using h), List.filterMap_cons_none hdata]
  rfl

theorem payloads_cons_of_some (h : ¬ IsTerminator line) (hdata : dataOf line = some data) :
    payloads (line :: lines) = if data = "" then payloads lines else data :: payloads lines := by
  rw [payloads, List.takeWhile_cons, if_pos (by simpa using h), List.filterMap_cons_some hdata,
    List.filter_cons]
  by_cases hempty : data = ""
  · rw [if_pos hempty, if_neg (by simpa using hempty)]
    rfl
  · rw [if_neg hempty, if_pos (by simpa using hempty)]
    rfl

/-- A payload is not empty and does not begin with `[DONE]`. -/
theorem payload_spec (h : classify line = .payload data) :
    data ≠ "" ∧ Text.hasPrefix data "[DONE]" = false := by
  rw [classify] at h
  split at h
  · cases h
  · split at h
    · cases h
    · simp only at h
      split at h
      · cases h
      next hne =>
        split at h
        next hnot =>
          rw [Verdict.payload.injEq] at h
          subst h
          exact ⟨hne, Bool.not_eq_true' _ |>.mp hnot⟩
        next => cases h

theorem exists_payload_of_mem_accepted (h : data ∈ accepted lines) :
    ∃ line ∈ lines, classify line = .payload data := by
  induction lines with
  | nil => cases h
  | cons line lines ih =>
      rw [accepted] at h
      split at h
      next =>
        obtain ⟨line', hmem, hpayload⟩ := ih h
        exact ⟨line', .tail _ hmem, hpayload⟩
      next data' hpayload =>
        rcases List.mem_cons.1 h with rfl | h
        · exact ⟨line, .head _, hpayload⟩
        · obtain ⟨line', hmem, hpayload'⟩ := ih h
          exact ⟨line', .tail _ hmem, hpayload'⟩
      next => cases h

/-- A plain line counts as what it is. -/
theorem accepted_cons_of_plain (h : Plain line) :
    (IsTerminator line → accepted (line :: lines) = payloads (line :: lines)) ∧
      (¬ IsTerminator line → accepted lines = payloads lines →
        accepted (line :: lines) = payloads (line :: lines)) := by
  obtain ⟨hdone, hdata⟩ := h
  cases hline : dataOf line with
  | none =>
      rw [accepted, classify_of_other hline hdone]
      refine ⟨?_, ?_⟩
      · rintro (hterm | rfl)
        · rw [hline] at hterm
          cases hterm
        · cases hdone
      · intro hterm heq
        rw [payloads_cons_of_none hterm hline, ← heq]
  | some data =>
      rw [accepted, classify_of_data hline]
      have hfits := hdata data hline
      refine ⟨?_, ?_⟩
      · intro hterm
        rw [payloads_cons_of_terminator hterm]
        rcases hterm with hterm | rfl
        · rw [hline, Option.some.injEq] at hterm
          subst hterm
          rfl
        · cases hdone
      · intro hterm heq
        have hnot : ¬ Text.hasPrefix data "[DONE]" = true := by
          intro hprefix
          rw [hfits hprefix] at hline
          exact hterm (Or.inl hline)
        rw [payloads_cons_of_some hterm hline, ← heq, if_neg hnot]
        by_cases hempty : data = ""
        · rw [if_pos hempty, if_pos hempty]
        · rw [if_neg hempty, if_neg hempty]

/-- What is not accepted though it is said begins with `[DONE]`; otherwise there is too much. -/
theorem length_payloads_le (h : ∀ data ∈ payloads lines, Text.hasPrefix data "[DONE]" = false) :
    (payloads lines).length ≤ (accepted lines).length ∧
      ((payloads lines).length = (accepted lines).length →
        ∀ line ∈ upToTerminator lines, Plain line) := by
  induction lines with
  | nil => exact ⟨Nat.le_refl _, fun _ line hline => absurd hline List.not_mem_nil⟩
  | cons line lines ih =>
      by_cases hdone : Text.hasPrefix line "[DONE]" = true
      · -- The rest of a bracket is one payload too much.
        obtain ⟨data, hpayload⟩ := classify_of_done hdone
        have hnone := dataOf_of_done hdone
        rw [accepted, hpayload, List.length_cons]
        by_cases hterm : IsTerminator line
        · rw [payloads_cons_of_terminator hterm, List.length_nil]
          exact ⟨Nat.zero_le _, fun heq => absurd heq (by omega)⟩
        · rw [payloads_cons_of_none hterm hnone] at h ⊢
          have hle := (ih h).1
          exact ⟨by omega, fun heq => absurd heq (by omega)⟩
      · have hdone := Bool.not_eq_true _ |>.mp hdone
        by_cases hterm : IsTerminator line
        · have hplain : Plain line := by
            refine ⟨hdone, ?_⟩
            intro data hdata _
            rcases hterm with hterm | rfl
            · exact Option.some.inj (hdata.symm.trans hterm)
            · cases hdone
          rw [upToTerminator, if_pos hterm, payloads_cons_of_terminator hterm]
          refine ⟨Nat.zero_le _, fun _ line' hline' => ?_⟩
          rw [List.mem_singleton.1 hline']
          exact hplain
        · have hplain : Plain line := by
            refine ⟨hdone, ?_⟩
            intro data hdata hprefix
            rw [Option.mem_def] at hdata
            rw [payloads_cons_of_some hterm hdata] at h
            split at h
            next hempty =>
              rw [hempty] at hprefix
              cases hprefix
            next =>
              rw [h data (.head _)] at hprefix
              cases hprefix
          rw [upToTerminator, if_neg hterm, accepted]
          cases hline : dataOf line with
          | none =>
              rw [payloads_cons_of_none hterm hline] at h ⊢
              rw [classify_of_other hline hdone]
              refine ⟨(ih h).1, fun heq => ?_⟩
              rw [List.forall_mem_cons]
              exact ⟨hplain, (ih h).2 heq⟩
          | some data =>
              have hnot : ¬ Text.hasPrefix data "[DONE]" = true := by
                intro hprefix
                rw [hplain.2 data hline hprefix] at hline
                exact hterm (Or.inl hline)
              rw [payloads_cons_of_some hterm hline] at h ⊢
              rw [classify_of_data hline, if_neg hnot]
              by_cases hempty : data = ""
              · rw [if_pos hempty] at h ⊢
                rw [if_pos hempty]
                refine ⟨(ih h).1, fun heq => ?_⟩
                rw [List.forall_mem_cons]
                exact ⟨hplain, (ih h).2 heq⟩
              · rw [if_neg hempty] at h ⊢
                rw [List.forall_mem_cons] at h
                rw [if_neg hempty, List.length_cons, List.length_cons]
                refine ⟨Nat.succ_le_succ (ih h.2).1, fun heq => ?_⟩
                rw [List.forall_mem_cons]
                exact ⟨hplain, (ih h.2).2 (Nat.succ.inj heq)⟩

end

/-- The scanner accepts the payloads up to the first terminator exactly if, up to it, no line
begins with `[DONE]` and no payload only begins with it. -/
theorem accepted_eq_payloads_iff (lines : List String) :
    accepted lines = payloads lines ↔ ∀ line ∈ upToTerminator lines, Plain line := by
  constructor
  · intro heq
    have hnone : ∀ data ∈ payloads lines, Text.hasPrefix data "[DONE]" = false := by
      intro data hdata
      rw [← heq] at hdata
      obtain ⟨line, -, hpayload⟩ := exists_payload_of_mem_accepted hdata
      exact (payload_spec hpayload).2
    exact (length_payloads_le hnone).2 (congrArg List.length heq).symm
  · intro hplain
    induction lines with
    | nil => rfl
    | cons line lines ih =>
        rw [upToTerminator] at hplain
        split at hplain
        next hterm => exact (accepted_cons_of_plain (hplain line (.head _))).1 hterm
        next hterm =>
          rw [List.forall_mem_cons] at hplain
          exact (accepted_cons_of_plain hplain.1).2 hterm (ih hplain.2)

/-- After a bare `[DONE]` the scanner goes on, and it has accepted the bracket. -/
theorem accepted_bare_done : ¬ ∀ lines, accepted lines = payloads lines := by
  intro h
  have hbare : accepted ["data: a", "[DONE]", "data: b"] = ["a", "]", "b"] := by decide
  have hstops : payloads ["data: a", "[DONE]", "data: b"] = ["a"] := by decide
  exact absurd (hbare.symm.trans ((h _).trans hstops)) (by decide)

end DazeApi.Relay.Scanner

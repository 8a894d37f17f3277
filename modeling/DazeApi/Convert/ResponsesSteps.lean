import DazeApi.Convert.ResponsesStream

/-!
# The calls and the text of a list of steps

What the events of a response come to when no text stands in the way: the calls in the order
in which their items were added (`opens`), each with what came of its arguments, and the
joined text deltas (`textOf`).  The track of an item says what stands before each of its
pieces, so the calls of all the steps have their full arguments.
-/

namespace DazeApi.Convert.Responses

open DazeApi.Relay

/-! ## The arguments of one item -/

/-- What came of the arguments of a call.  A delta leads to no call without an item id. -/
def argsStep (x : ResponsesOutput) : Option String → Piece → Option String
  | _, .added args => some args
  | cur, .arguments delta => cur.map fun a => if Text.trimSpace x.id = "" then a else a ++ delta
  | cur, .text _ => cur
  | cur, .done => cur.map fun _ => x.arguments

def argsOf (x : ResponsesOutput) (ps : List Piece) : Option String := ps.foldl (argsStep x) none

@[simp] theorem argsOf_nil (x : ResponsesOutput) : argsOf x [] = none := rfl

@[simp] theorem argsOf_snoc (x : ResponsesOutput) (ps : List Piece) (p : Piece) :
    argsOf x (ps ++ [p]) = argsStep x (argsOf x ps) p := by
  simp [argsOf]

theorem argsOf_arguments (x : ResponsesOutput) (args : String) (deltas : List String) :
    argsOf x (.added args :: deltas.map .arguments) =
      some (if Text.trimSpace x.id = "" then args else args ++ Text.concat deltas) := by
  induction deltas using List.reverseRecOn with
  | nil => simp [argsOf, argsStep]
  | append_singleton ds d ih =>
      rw [List.map_append, ← List.cons_append, List.map_singleton, argsOf_snoc, ih]
      by_cases hid : Text.trimSpace x.id = ""
      · simp [argsStep, hid]
      · simp [argsStep, hid, Text.concat_append, String.append_assoc]

/-! ## What stands before a piece -/

section

variable {x : ResponsesOutput} {ps qs : List Piece} {p : Piece} {args delta : String}

theorem split_deltas {f : String → Piece} :
    ∀ {deltas : List String} {ps : List Piece}, deltas.map f ++ [Piece.done] = ps ++ p :: qs →
      (∃ before delta after, deltas = before ++ delta :: after ∧ ps = before.map f ∧ p = f delta) ∨
        (ps = deltas.map f ∧ p = .done)
  | [], [], h => by
      rw [List.map_nil, List.nil_append, List.nil_append, List.cons.injEq] at h
      exact Or.inr ⟨rfl, h.1.symm⟩
  | [], q :: ps, h => by simp at h
  | d :: deltas, [], h => by
      rw [List.map_cons, List.cons_append, List.nil_append, List.cons.injEq] at h
      exact Or.inl ⟨[], d, deltas, rfl, rfl, h.1.symm⟩
  | d :: deltas, q :: ps, h => by
      rw [List.map_cons, List.cons_append, List.cons_append, List.cons.injEq] at h
      rcases split_deltas h.2 with ⟨before, delta, after, rfl, rfl, hp⟩ | ⟨rfl, hp⟩
      · exact Or.inl ⟨d :: before, delta, after, rfl, by rw [List.map_cons, h.1], hp⟩
      · exact Or.inr ⟨by rw [List.map_cons, h.1], hp⟩

/-- An item is added first. -/
theorem Track.added (h : Track x (ps ++ .added args :: qs)) : ps = [] := by
  have hhead : ∀ {f : String → Piece} {a : String} {deltas : List String},
      (∀ d, f d ≠ .added args) →
        ps ++ .added args :: qs = .added a :: (deltas.map f ++ [.done]) → ps = [] := by
    intro f a deltas hf heq
    cases ps with
    | nil => rfl
    | cons q ps =>
        rw [List.cons_append, List.cons.injEq] at heq
        rcases split_deltas heq.2.symm with ⟨_, d, _, _, _, hp⟩ | ⟨_, hp⟩
        · exact absurd hp.symm (hf d)
        · cases hp
  rw [Track] at h
  split at h
  next =>
    obtain ⟨a, deltas, heq, _⟩ := h
    exact hhead (fun d hd => by cases hd) heq
  next =>
    split at h
    next =>
      obtain ⟨a, deltas, heq, _⟩ := h
      exact hhead (fun d hd => by cases hd) heq
    next =>
      obtain ⟨a, heq⟩ := h
      have hnil : (([] : List String).map Piece.text ++ [Piece.done]) = [.done] := rfl
      exact hhead (f := .text) (a := a) (fun d hd => by cases hd) (hnil ▸ heq)

theorem Track.eq_of_isCall (hx : isCall x.toOutputItem = true) (h : Track x ps) :
    ∃ args deltas, ps = .added args :: (deltas.map .arguments ++ [.done]) ∧
      Text.hasPrefix x.arguments (args ++ Text.concat deltas) = true := by
  rw [Track, if_pos hx] at h
  exact h

/-- Before a piece of a call there are an addition and deltas. -/
theorem Track.before (hx : isCall x.toOutputItem = true) (h : Track x (ps ++ p :: qs))
    (hp : ∀ args, p ≠ .added args) :
    ∃ args deltas, ps = .added args :: deltas.map .arguments ∧
      Text.hasPrefix x.arguments (args ++ Text.concat deltas) = true ∧
        (p = .done ∨ ∃ delta, p = .arguments delta) := by
  obtain ⟨a, deltas, heq, hpre⟩ := h.eq_of_isCall hx
  cases ps with
  | nil =>
      rw [List.nil_append, List.cons.injEq] at heq
      exact absurd heq.1 (hp a)
  | cons q ps =>
      rw [List.cons_append, List.cons.injEq] at heq
      obtain ⟨rfl, htail⟩ := heq
      rcases split_deltas htail.symm with ⟨before, delta, after, rfl, rfl, rfl⟩ | ⟨rfl, rfl⟩
      · refine ⟨a, before, rfl, ?_, Or.inr ⟨delta, rfl⟩⟩
        rw [Text.concat_append, ← String.append_assoc] at hpre
        exact Text.hasPrefix_of_append hpre
      · exact ⟨a, deltas, rfl, hpre, Or.inl rfl⟩

/-- A call has its full arguments when its item is done. -/
theorem argsOf_of_track (hx : isCall x.toOutputItem = true) (h : Track x ps) :
    argsOf x ps = some x.arguments := by
  obtain ⟨a, deltas, rfl, _⟩ := h.eq_of_isCall hx
  rw [← List.cons_append, argsOf_snoc, argsOf_arguments]
  rfl

end

/-! ## The calls that were added -/

/-- The item is a call that the stream can have. -/
def isOpen (x : ResponsesOutput) : Bool :=
  isCall x.toOutputItem && decide (callId x.toOutputItem ≠ "")

theorem isOpen_iff {x : ResponsesOutput} :
    isOpen x = true ↔ isCall x.toOutputItem = true ∧ callId x.toOutputItem ≠ "" := by
  simp [isOpen]

/-- The arguments of a call change. -/
def setArgs (os : OpenCalls) (key : String) (f : String → String) : OpenCalls :=
  os.map fun o => if callId o.1.toOutputItem = key then (o.1, f o.2) else o

/-- What a step does to the calls. -/
def openStep (os : OpenCalls) (st : Step) : OpenCalls :=
  if isOpen st.item then
    match st.piece with
    | .added args => os ++ [(st.item, args)]
    | .arguments delta =>
        if Text.trimSpace st.item.id = "" then os
        else setArgs os (callId st.item.toOutputItem) (· ++ delta)
    | .text _ => os
    | .done => setArgs os (callId st.item.toOutputItem) fun _ => st.item.arguments
  else os

/-- The calls after some steps. -/
def opens (steps : List Step) : OpenCalls := steps.foldl openStep []

@[simp] theorem opens_nil : opens [] = [] := rfl

@[simp] theorem opens_snoc (steps : List Step) (st : Step) :
    opens (steps ++ [st]) = openStep (opens steps) st := by
  simp [opens]

theorem piecesAt_append (pos : Nat) (steps steps' : List Step) :
    piecesAt pos (steps ++ steps') = piecesAt pos steps ++ piecesAt pos steps' := by
  simp [piecesAt]

theorem piecesAt_cons_self (st : Step) (steps : List Step) :
    piecesAt st.pos (st :: steps) = st.piece :: piecesAt st.pos steps := by
  simp [piecesAt]

theorem piecesAt_snoc (pos : Nat) (steps : List Step) (st : Step) :
    piecesAt pos (steps ++ [st]) =
      if st.pos = pos then piecesAt pos steps ++ [st.piece] else piecesAt pos steps := by
  by_cases h : st.pos = pos <;> simp [piecesAt, h]

section

variable {os pre post : OpenCalls} {x : ResponsesOutput} {a key : String} {f : String → String}

theorem setArgs_middle (h : (keys (pre ++ (x, a) :: post)).Nodup) :
    setArgs (pre ++ (x, a) :: post) (callId x.toOutputItem) f = pre ++ (x, f a) :: post := by
  have hother : ∀ {l : OpenCalls}, callId x.toOutputItem ∉ keys l →
      setArgs l (callId x.toOutputItem) f = l := by
    intro l hl
    rw [setArgs]
    refine (List.map_congr_left fun o ho => ?_).trans (List.map_id l)
    exact if_neg fun heq => hl (List.mem_map.2 ⟨o, ho, heq⟩)
  rw [keys_append, keys_cons, List.nodup_append] at h
  have hpre : callId x.toOutputItem ∉ keys pre := fun hmem =>
    h.2.2 _ hmem _ List.mem_cons_self rfl
  have hpost : callId x.toOutputItem ∉ keys post := (List.nodup_cons.1 h.2.1).1
  have h₁ := hother hpre
  have h₂ := hother hpost
  rw [setArgs] at h₁ h₂ ⊢
  rw [List.map_append, List.map_cons, if_pos rfl, h₁, h₂]

theorem map_fst_setArgs : (setArgs os key f).map Prod.fst = os.map Prod.fst := by
  rw [setArgs, List.map_map]
  refine List.map_congr_left fun o _ => ?_
  rw [Function.comp_apply]
  split
  next => rfl
  next => rfl

theorem held_setArgs (key' : String) :
    held (setArgs os key f) key' =
      (held os key').map fun o => if key' = key then (o.1, f o.2) else o := by
  rw [held, held, setArgs, List.find?_map]
  have hpred : ((fun o : ResponsesOutput × String => decide (callId o.1.toOutputItem = key')) ∘
      fun o => if callId o.1.toOutputItem = key then (o.1, f o.2) else o) =
        fun o => decide (callId o.1.toOutputItem = key') := by
    funext o
    rw [Function.comp_apply]
    split
    next => rfl
    next => rfl
  rw [hpred]
  cases hfind : List.find? (fun o => decide (callId o.1.toOutputItem = key')) os with
  | none => rw [Option.map_none, Option.map_none]
  | some o =>
      have hkey : callId o.1.toOutputItem = key' := by simpa using List.find?_some hfind
      rw [Option.map_some, Option.map_some, hkey]

theorem held_setArgs_self :
    held (setArgs os key f) key = (held os key).map fun o => (o.1, f o.2) := by
  rw [held_setArgs]
  simp

theorem held_setArgs_of_ne {key' : String} (h : key' ≠ key) :
    held (setArgs os key f) key' = held os key' := by
  rw [held_setArgs]
  simp [h]

end

/-! ## The calls of a prefix of the steps -/

section

variable {resp : OpenAIResponsesResponse} {before after steps : List Step} {st : Step}
variable {x : ResponsesOutput} {pos : Nat}

theorem Describes.item_of_pos (h : Describes resp (before ++ st :: after))
    (hx : resp.output[st.pos]? = some x) : st.item = x := by
  have hitem := h.listed st (by simp)
  rw [hx, Option.some.injEq] at hitem
  exact hitem.symm

theorem Describes.split (h : Describes resp (before ++ st :: after)) :
    Track st.item (piecesAt st.pos before ++ st.piece :: piecesAt st.pos after) := by
  have htrack := h.track st.pos st.item (h.listed st (by simp))
  rwa [piecesAt_append, piecesAt_cons_self] at htrack

/-- The call of an item has what the pieces of the item gave it. -/
theorem held_opens (h : Describes resp (before ++ after)) (hx : resp.output[pos]? = some x)
    (hopen : isOpen x = true) :
    held (opens before) (callId x.toOutputItem) =
      (argsOf x (piecesAt pos before)).map fun a => (x, a) := by
  induction before using List.reverseRecOn generalizing after with
  | nil => rfl
  | append_singleton before st ih =>
      rw [List.append_assoc, List.singleton_append] at h
      have hbefore := ih h
      rw [opens_snoc, piecesAt_snoc, openStep]
      by_cases hpos : st.pos = pos
      · have hitem : st.item = x := h.item_of_pos (hpos.symm ▸ hx)
        have htrack := h.split
        rw [hpos, hitem] at htrack
        rw [if_pos hpos, hitem, if_pos hopen, argsOf_snoc]
        cases hpiece : st.piece with
        | added args =>
            rw [hpiece] at htrack
            rw [htrack.added, argsOf_nil, Option.map_none] at hbefore
            dsimp only
            rw [held_append, hbefore, Option.none_or]
            simp [held, argsStep]
        | arguments delta =>
            dsimp only
            rw [argsStep, Option.map_map]
            by_cases hid : Text.trimSpace x.id = ""
            · rw [if_pos hid, hbefore]
              simp [hid, Function.comp_def]
            · rw [if_neg hid, held_setArgs_self, hbefore, Option.map_map]
              simp [hid, Function.comp_def]
        | text delta => exact hbefore
        | done =>
            dsimp only
            rw [held_setArgs_self, hbefore, Option.map_map, argsStep, Option.map_map]
            simp [Function.comp_def]
      · rw [if_neg hpos]
        split
        next hst =>
          have hne : callId x.toOutputItem ≠ callId st.item.toOutputItem := fun heq =>
            hpos (h.calls st.pos pos st.item x (h.listed st (by simp)) hx (isOpen_iff.1 hst).1
              (isOpen_iff.1 hopen).1 heq.symm (heq ▸ (isOpen_iff.1 hopen).2))
          cases st.piece with
          | added args =>
              dsimp only
              rw [held_snoc_of_ne hne, hbefore]
          | arguments delta =>
              dsimp only
              split
              next => exact hbefore
              next => rw [held_setArgs_of_ne hne, hbefore]
          | text delta => exact hbefore
          | done =>
              dsimp only
              rw [held_setArgs_of_ne hne, hbefore]
        next => exact hbefore

end

/-! ## The order of the calls -/

/-- The call that a step adds. -/
def addedCall (st : Step) : Option ResponsesOutput :=
  match st.piece with
  | .added _ => if isOpen st.item then some st.item else none
  | _ => none

/-- The calls in the order in which their items were added. -/
def addedCalls (steps : List Step) : List ResponsesOutput := steps.filterMap addedCall

theorem map_fst_openStep (os : OpenCalls) (st : Step) :
    (openStep os st).map Prod.fst = os.map Prod.fst ++ (addedCall st).toList := by
  rw [openStep, addedCall]
  by_cases hopen : isOpen st.item = true
  · rw [if_pos hopen]
    cases st.piece with
    | added args => simp [hopen]
    | arguments delta =>
        dsimp only
        split
        next => simp
        next => rw [map_fst_setArgs]; simp
    | text delta => simp
    | done =>
        dsimp only
        rw [map_fst_setArgs]
        simp
  · rw [if_neg hopen]
    cases st.piece with
    | added args => simp [hopen]
    | arguments delta => simp
    | text delta => simp
    | done => simp

theorem map_fst_opens (steps : List Step) : (opens steps).map Prod.fst = addedCalls steps := by
  induction steps using List.reverseRecOn with
  | nil => rfl
  | append_singleton steps st ih =>
      rw [opens_snoc, map_fst_openStep, ih, addedCalls, addedCalls, List.filterMap_append]
      cases hst : addedCall st <;> simp [hst]

theorem keys_eq (os : OpenCalls) :
    keys os = (os.map Prod.fst).map fun x => callId x.toOutputItem := by
  rw [keys, List.map_map]
  rfl

theorem mem_addedCalls {steps : List Step} {x : ResponsesOutput} :
    x ∈ addedCalls steps ↔
      isOpen x = true ∧ ∃ st ∈ steps, st.item = x ∧ ∃ args, st.piece = .added args := by
  rw [addedCalls, List.mem_filterMap]
  constructor
  · rintro ⟨st, hst, heq⟩
    rw [addedCall] at heq
    cases hpiece : st.piece with
    | added args =>
        rw [hpiece] at heq
        by_cases hopen : isOpen st.item = true
        · rw [if_pos hopen, Option.some.injEq] at heq
          exact ⟨heq ▸ hopen, st, hst, heq, args, hpiece⟩
        · rw [if_neg hopen] at heq
          cases heq
    | arguments delta => rw [hpiece] at heq; cases heq
    | text delta => rw [hpiece] at heq; cases heq
    | done => rw [hpiece] at heq; cases heq
  · rintro ⟨hopen, st, hst, rfl, args, hpiece⟩
    exact ⟨st, hst, by rw [addedCall, hpiece]; exact if_pos hopen⟩

section

variable {resp : OpenAIResponsesResponse} {before after steps : List Step} {x : ResponsesOutput}

/-- A call that was added has a place in the response. -/
theorem Describes.exists_pos (h : Describes resp (before ++ after)) (hx : x ∈ addedCalls before) :
    isOpen x = true ∧ ∃ pos : Nat, resp.output[pos]? = some x := by
  obtain ⟨hopen, st, hst, rfl, _⟩ := mem_addedCalls.1 hx
  exact ⟨hopen, st.pos, h.listed st (List.mem_append_left _ hst)⟩

/-- A call that is added is new. -/
theorem not_mem_keys_of_added {st : Step} {args : String}
    (h : Describes resp (before ++ st :: after)) (hst : isOpen st.item = true)
    (hpiece : st.piece = .added args) : callId st.item.toOutputItem ∉ keys (opens before) := by
  have htrack := h.split
  rw [hpiece] at htrack
  have hheld := held_opens h (h.listed st (by simp)) hst
  rw [htrack.added, argsOf_nil, Option.map_none, held, List.find?_eq_none] at hheld
  intro hmem
  obtain ⟨o, ho, hkey⟩ := List.mem_map.1 hmem
  exact hheld o ho (by simpa using hkey)

theorem nodup_opens (h : Describes resp (before ++ after)) : (keys (opens before)).Nodup := by
  induction before using List.reverseRecOn generalizing after with
  | nil => exact List.nodup_nil
  | append_singleton before st ih =>
      rw [List.append_assoc, List.singleton_append] at h
      have hbefore := ih h
      rw [opens_snoc, keys_eq, map_fst_openStep, List.map_append, ← keys_eq]
      cases hadded : addedCall st with
      | none => simpa using hbefore
      | some x =>
          have hst : x ∈ addedCalls [st] := by simp [addedCalls, hadded]
          obtain ⟨hopen, st', hst', rfl, args, hpiece⟩ := mem_addedCalls.1 hst
          rw [List.mem_singleton] at hst'
          subst hst'
          refine List.nodup_append.2 ⟨hbefore, by simp, ?_⟩
          intro key hkey key' hkey' heq
          rw [Option.toList_some, List.map_singleton, List.mem_singleton] at hkey'
          exact not_mem_keys_of_added h hopen hpiece (hkey' ▸ heq ▸ hkey)

/-- The calls of all the steps have their full arguments. -/
theorem snd_of_mem_opens (h : Describes resp steps) {o : ResponsesOutput × String}
    (ho : o ∈ opens steps) : o.2 = o.1.arguments := by
  have hadded : o.1 ∈ addedCalls steps := map_fst_opens steps ▸ List.mem_map_of_mem ho
  have h' : Describes resp (steps ++ []) := by rwa [List.append_nil]
  obtain ⟨hopen, pos, hpos⟩ := h'.exists_pos hadded
  have hheld := held_opens h' hpos hopen
  have hnodup := nodup_opens h'
  rw [argsOf_of_track (isOpen_iff.1 hopen).1 (h.track pos o.1 hpos), Option.map_some] at hheld
  obtain ⟨pre, post, heq⟩ := List.mem_iff_append.1 ho
  rw [heq, held_middle (heq ▸ hnodup), Option.some.injEq, Prod.ext_iff] at hheld
  exact hheld.2

end

end DazeApi.Convert.Responses

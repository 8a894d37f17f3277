import DazeApi.Overrides.WildcardPlaces

/-!
# When operations act on the matched nodes

The paths of the matched nodes are texts.  They lead to the nodes exactly if no name has a dot,
none that is deleted is blank and every element is named by digits (`acts_iff`).
-/

namespace DazeApi.Overrides.Wildcard

open JsonText JsonPath

/-! ## Paths as texts -/

section

variable {env : Env} {op : NodeOperation} {f : Option Json → Option Json} {doc node c d d' : Json}
  {k seg : String} {segs rest p w q : List String}

theorem nodup_places (node : Json) (segs : List String) : (places node segs).Nodup := by
  induction segs generalizing node with
  | nil => exact List.nodup_singleton _
  | cons seg rest ih =>
      have hbelow (k : String) : (below node rest k).Nodup := by
        rw [below]
        split
        next => exact (ih _).map fun _ _ h => (List.cons.inj h).2
        next => exact List.nodup_nil
      rw [places_cons]
      split
      next => exact List.nodup_nil
      next =>
        split
        next =>
          rw [List.nodup_flatMap]
          refine ⟨fun k _ => hbelow k, (nodup_wildcardKeys node).imp fun {k k'} hne p hp hp' => ?_⟩
          obtain ⟨-, q, -, -, rfl⟩ := mem_below.1 hp
          obtain ⟨-, q', -, -, heq⟩ := mem_below.1 hp'
          exact hne (List.cons.inj heq).1
        next =>
          split
          next => exact List.nodup_singleton _
          next => exact hbelow _

/-- The expansion, where the paths lead to the nodes. -/
theorem resolveOperationPaths_eq {path : String} (hpath : Text.contains path "*" = true)
    (hplain : ∀ p ∈ places doc (segments path), ∀ s ∈ p, '.' ∉ s.toList) :
    resolveOperationPaths doc path =
      (places doc (segments path)).map fun p => Text.join p '.' := by
  rw [resolveOperationPaths, if_pos hpath, collectWildcardPaths]
  refine Names.uniq_eq_self ((nodup_places _ _).map_on ?_)
  intro p hp q hq h
  have hsegs := congrArg segments h
  rwa [segments_join (ne_nil_of_mem_places (Text.splitAt_ne_nil _ _) hp) (hplain p hp),
    segments_join (ne_nil_of_mem_places (Text.splitAt_ne_nil _ _) hq) (hplain q hq)] at hsegs

theorem toOption_foldlM {ε α β : Type} (step : β → α → Except ε β) (l : List α) (b : β) :
    (l.foldlM step b).toOption = l.foldlM (fun b a => (step b a).toOption) b := by
  induction l generalizing b with
  | nil => rfl
  | cons a l ih =>
      rw [List.foldlM_cons, List.foldlM_cons]
      cases step b a with
      | error e => rfl
      | ok b' => exact ih b'

theorem foldlM_congr {α β : Type} {step step' : β → α → Option β} {l : List α}
    (h : ∀ a ∈ l, ∀ b, step b a = step' b a) (b : β) : l.foldlM step b = l.foldlM step' b := by
  induction l generalizing b with
  | nil => rfl
  | cons a l ih =>
      rw [List.forall_mem_cons] at h
      rw [List.foldlM_cons, List.foldlM_cons, h.1]
      exact congrArg _ (funext (ih h.2))

theorem foldl_congr {α β : Type} {step step' : β → α → β} {l : List α}
    (h : ∀ a ∈ l, ∀ b, step b a = step' b a) (b : β) : l.foldl step b = l.foldl step' b := by
  induction l generalizing b with
  | nil => rfl
  | cons a l ih =>
      rw [List.forall_mem_cons] at h
      rw [List.foldl_cons, List.foldl_cons, h.1, ih h.2]

theorem ne_empty_of_trimSpace {s : String} (h : Text.trimSpace s ≠ "") : s ≠ "" := by
  rintro rfl
  exact h (by decide)

open Classical in
/-- An operation on a path whose nodes have paths. -/
theorem toOption_applyOperation {path : String} (hdoc : Distinct doc)
    (hpath : Text.contains path "*" = true)
    (hplain : ∀ p ∈ places doc (segments path), ∀ s ∈ p, '.' ∉ s.toList)
    (hnamed : ∀ p ∈ places doc (segments path), Text.trimSpace (Text.join p '.') ≠ "") :
    (applyOperation env op doc path).toOption =
      if Digits doc (segments path) then matched (effect env op) doc (segments path)
      else none := by
  rw [applyOperation, resolveOperationPaths_eq hpath hplain, toOption_foldlM, List.foldlM_map,
    ← foldlM_places hdoc]
  refine foldlM_congr (fun p hp d => ?_) doc
  have hne := ne_nil_of_mem_places (Text.splitAt_ne_nil _ _) hp
  rw [toOption_applyAt (ne_empty_of_trimSpace (hnamed p hp)), getText,
    segments_join hne (hplain p hp), changeAt]

theorem applyDelete_eq {path : String} (hpath : Text.contains path "*" = true)
    (hplain : ∀ p ∈ places doc (segments path), ∀ s ∈ p, '.' ∉ s.toList)
    (hnamed : ∀ p ∈ places doc (segments path), Text.trimSpace (Text.join p '.') ≠ "") :
    applyDelete doc path = (places doc (segments path)).foldl delete doc := by
  rw [applyDelete, resolveOperationPaths_eq hpath hplain, List.foldl_map]
  refine foldl_congr (fun p hp d => ?_) doc
  have hne := ne_nil_of_mem_places (Text.splitAt_ne_nil _ _) hp
  rw [deleteValue, if_neg (hnamed p hp), segments_join hne (hplain p hp)]

end

/-! ## What is needed -/

/-- Where the segments of a path lead. -/
def walk : Json → List String → Option Json
  | j, [] => some j
  | j, s :: p => (childAt j s).bind (walk · p)

section

variable {env : Env} {doc node c d d' v : Json} {s k seg : String} {segs rest p w q : List String}

theorem walk_append (j : Json) (p q : List String) :
    walk j (p ++ q) = (walk j p).bind (walk · q) := by
  induction p generalizing j with
  | nil => rfl
  | cons s p ih =>
      rw [List.cons_append, walk, walk]
      cases childAt j s with
      | none => rfl
      | some c => exact ih c

/-- A path begins with the way to a child, by names of which one has a dot. -/
def Dotted (node : Json) (p : List String) : Prop :=
  ∃ w q c, p = w ++ q ∧ walk node w = some c ∧ ∃ s ∈ w, '.' ∈ s.toList

theorem Dotted.cons (hc : childAt node k = some c)
    (hrest : (∃ s ∈ q, '.' ∈ s.toList) → Dotted c q) (hdot : ∃ s ∈ k :: q, '.' ∈ s.toList) :
    Dotted node (k :: q) := by
  by_cases hk : '.' ∈ k.toList
  · exact ⟨[k], q, c, rfl, by rw [walk, hc]; rfl, k, List.mem_singleton_self k, hk⟩
  · obtain ⟨s, hs, hdot⟩ := hdot
    have hs' : s ∈ q := by
      rcases List.mem_cons.1 hs with rfl | hs
      · exact absurd hdot hk
      · exact hs
    obtain ⟨w, q', c', rfl, hw, t, ht, htdot⟩ := hrest ⟨s, hs', hdot⟩
    exact ⟨k :: w, q', c', rfl, by rw [walk, hc]; exact hw, t, List.mem_cons_of_mem _ ht, htdot⟩

theorem dotted_of_mem_places (hnode : Distinct node) (hsegs : ∀ seg ∈ segs, '.' ∉ seg.toList)
    (hp : p ∈ places node segs) (hdot : ∃ s ∈ p, '.' ∈ s.toList) : Dotted node p := by
  induction segs generalizing node p with
  | nil =>
      obtain ⟨s, hs, -⟩ := hdot
      rw [List.mem_singleton.1 hp] at hs
      cases hs
  | cons seg rest ih =>
      rw [List.forall_mem_cons] at hsegs
      rw [places_cons] at hp
      split at hp
      next => cases hp
      next =>
        split at hp
        next =>
          obtain ⟨k, c, q, rfl, hc, -, hq⟩ := exists_of_mem_star hnode hp
          exact Dotted.cons hc (ih (distinct_childAt hnode hc) hsegs.2 hq) hdot
        next =>
          split at hp
          next =>
            obtain ⟨s, hs, hdot⟩ := hdot
            rw [List.mem_singleton.1 hp, List.mem_singleton] at hs
            rw [hs] at hdot
            exact absurd (Text.mem_of_mem_trimSpace hdot) hsegs.1
          next =>
            obtain ⟨c, q, hc, hq, rfl⟩ := mem_below.1 hp
            rw [decodedChild_eq hnode] at hc
            exact Dotted.cons hc (ih (distinct_childAt hnode hc) hsegs.2 hq) hdot

/-! ### What a dotted path cannot reach -/

/-- Writing at a path without dots leaves what is below a dotted name. -/
theorem walk_set (hset : JsonPath.set d q v = some d') (hq : ∀ s ∈ q, '.' ∉ s.toList)
    (hw : walk d w = some c) (hdot : ∃ s ∈ w, '.' ∈ s.toList) (hlen : w.length ≤ q.length) :
    walk d' w = some c := by
  induction w generalizing d d' q with
  | nil =>
      obtain ⟨s, hs, -⟩ := hdot
      cases hs
  | cons s w ih =>
      obtain ⟨t, q, rfl⟩ : ∃ t q', q = t :: q' :=
        List.exists_cons_of_ne_nil (by rintro rfl; exact absurd hlen (by simp))
      rw [walk, Option.bind_eq_some_iff] at hw
      obtain ⟨e, he, hw⟩ := hw
      rw [List.forall_mem_cons] at hq
      rw [List.length_cons, List.length_cons, Nat.add_le_add_iff_right] at hlen
      rw [JsonPath.set, Option.bind_eq_some_iff] at hset
      obtain ⟨x, hx, hput⟩ := hset
      -- Below the same child the path goes on, as its name has no dot.
      have hsame (hchild : child d t = some e) (hs : '.' ∉ s.toList) : walk x w = some c := by
        rw [hchild, Option.getD_some] at hx
        refine ih hx hq.2 hw ?_ hlen
        obtain ⟨r, hr, hdot⟩ := hdot
        rcases List.mem_cons.1 hr with rfl | hr
        · exact absurd hdot hs
        · exact ⟨r, hr, hdot⟩
      cases d with
      | obj ms =>
          rw [put_eq_putIn rfl, putIn] at hput
          cases hput
          rw [walk, childAt, member_setMember]
          by_cases hst : s = t
          · subst hst
            rw [if_pos rfl]
            exact hsame he hq.1
          · rw [if_neg hst]
            exact Option.bind_eq_some_iff.2 ⟨e, he, hw⟩
      | arr items =>
          rw [childAt] at he
          split at he
          next i hi =>
            split at he
            next => cases he
            next hnonneg =>
              have hchildAt {items' : List Json} {e' : Json} (h : items'[i.toNat]? = some e')
                  (hw : walk e' w = some c) : walk (.arr items') (s :: w) = some c := by
                rw [walk, childAt, hi]
                dsimp only
                rw [if_neg hnonneg, h]
                exact hw
              rw [put_eq_putIn rfl] at hput
              cases hn : index t with
              | none =>
                  simp only [putIn, hn] at hput
                  split at hput
                  next =>
                    cases hput
                    refine hchildAt ?_ hw
                    rw [List.getElem?_append_left (List.getElem?_eq_some_iff.1 he).1, he]
                  next => cases hput
              | some n =>
                  simp only [putIn, hn] at hput
                  cases hput
                  by_cases hni : n = i.toNat
                  · subst hni
                    have hlt := (List.getElem?_eq_some_iff.1 he).1
                    refine hchildAt ?_ (hsame ?_ (Decimal.not_dot_of_parseInt hi))
                    · rw [setItem, if_pos hlt, List.getElem?_set_self hlt]
                    · rw [child, hn]
                      exact he
                  · exact hchildAt (getElem?_setItem_of_ne hni he) hw
          next => cases he
      | _ => cases he


/-- Every matched node has been set. -/
theorem walk_matched (hnode : Distinct node) (hp : p ∈ places node segs)
    (h : matched (fun _ => some v) node segs = some d) : walk d p = some v := by
  induction segs generalizing node d p with
  | nil =>
      cases h
      rw [List.mem_singleton.1 hp]
      rfl
  | cons seg rest ih =>
      rw [places_cons] at hp
      rw [matched] at h
      split at hp
      next => cases hp
      next hne =>
        rw [if_neg hne] at h
        split at hp
        next hstar =>
          rw [if_pos hstar, Option.map_eq_some_iff] at h
          obtain ⟨es, hes, rfl⟩ := h
          obtain ⟨hkeys, hmem⟩ := mapM_entries (G := fun c => matched (fun _ => some v) c rest) hes
          obtain ⟨k, c, q, rfl, -, he, hq⟩ := exists_of_mem_star hnode hp
          obtain ⟨c', hc', he'⟩ := hmem _ he
          rw [walk, childAt_ofEntries (by rw [hkeys]; exact hnode.nodup) hkeys he',
            Option.bind_some]
          exact ih (hnode.of_mem he) hq hc'
        next hstar =>
          rw [if_neg hstar] at h
          split at hp
          next hlast =>
            rw [if_pos hlast] at h
            cases h
            rw [List.mem_singleton.1 hp, walk]
            cases node with
            | obj ms => rw [replaceChild, childAt, member_setMember, if_pos rfl]; rfl
            | _ => cases hlast.1
          next hlast =>
            obtain ⟨c, q, hc, hq, rfl⟩ := mem_below.1 hp
            rw [decodedChild_eq hnode] at hc
            rw [if_neg hlast, hc] at h
            obtain ⟨c', hc', rfl⟩ := Option.map_eq_some_iff.1 h
            rw [walk, childAt_replaceChild hc, Option.bind_some]
            exact ih (distinct_childAt hnode hc) hq hc'

theorem matched_ne_none (node : Json) (segs : List String) :
    matched (fun _ => some v) node segs ≠ none := by
  induction segs generalizing node with
  | nil => exact Option.some_ne_none v
  | cons seg rest ih =>
      rw [matched]
      split
      next => exact Option.some_ne_none _
      next =>
        split
        next =>
          rw [Ne, Option.map_eq_none_iff]
          refine mapM_ne_none fun e _ => ?_
          rw [Ne, Option.map_eq_none_iff]
          exact ih e.2
        next =>
          split
          next => exact Option.some_ne_none _
          next =>
            split
            next =>
              rw [Ne, Option.map_eq_none_iff]
              exact ih _
            next => exact Option.some_ne_none _

/-! ### The conditions one by one -/

/-- What is below a dotted name stays as it is when values are set. -/
theorem walk_foldlM {ps : List String} (hw : walk d w = some c) (hdot : ∃ s ∈ w, '.' ∈ s.toList)
    (hlen : ∀ path ∈ ps, w.length ≤ (segments path).length)
    (h : ps.foldlM (fun d path => (applyAt env d path (.set v false)).toOption) d = some d') :
    walk d' w = some c := by
  induction ps generalizing d with
  | nil =>
      cases h
      exact hw
  | cons path ps ih =>
      rw [List.forall_mem_cons] at hlen
      rw [List.foldlM_cons, Option.bind_eq_bind, Option.bind_eq_some_iff] at h
      obtain ⟨x, hx, hrest⟩ := h
      refine ih ?_ hlen.2 hrest
      have hset : JsonPath.set d (segments path) v = some x := by
        rw [applyAt, if_neg (fun h => Bool.false_ne_true h.1)] at hx
        by_cases hpath : path = ""
        · rw [setText, if_pos hpath] at hx
          cases hx
        · rwa [toOption_setText hpath] at hx
      exact walk_set hset (not_dot_of_mem_segments path) hw hdot hlen.1

variable {path : String}

/-- An operation that sets a value does so at every matched node. -/
theorem Acts.exists_set (h : Acts env doc path) (hpath : Text.contains path "*" = true)
    (v : Json) : ∃ d, (applyOperation env (.set v false) doc path).toOption = some d ∧
      matched (fun _ => some v) doc (segments path) = some d := by
  obtain ⟨d, hd⟩ := Option.ne_none_iff_exists'.1 (matched_ne_none (v := v) doc (segments path))
  have hset := h.operation (.set v false)
  rw [if_pos hpath, show effect env (.set v false) = fun _ => some v from rfl, hd] at hset
  exact ⟨d, hset, hd⟩

theorem Acts.plain (h : Acts env doc path) (hdoc : Distinct doc)
    (hpath : Text.contains path "*" = true) :
    ∀ p ∈ places doc (segments path), ∀ s ∈ p, '.' ∉ s.toList := by
  intro p hp s hs hdot
  obtain ⟨w, q, c, rfl, hw, hwdot⟩ :=
    dotted_of_mem_places hdoc (not_dot_of_mem_segments path) hp ⟨s, hs, hdot⟩
  have hvalue (v : Json) : walk c q = some v := by
    obtain ⟨d, hset, hd⟩ := h.exists_set hpath v
    rw [applyOperation, toOption_foldlM] at hset
    have hkept : walk d w = some c := by
      refine walk_foldlM hw hwdot ?_ hset
      intro t ht
      rw [resolveOperationPaths, if_pos hpath, Names.mem_uniq, collectWildcardPaths,
        List.mem_map] at ht
      obtain ⟨p', hp', rfl⟩ := ht
      have hle := Text.length_le_splitAt_join p' '.'
      rw [length_of_mem_places hp', ← length_of_mem_places hp, List.length_append] at hle
      exact (Nat.le_add_right _ _).trans hle
    have hreached := walk_matched hdoc hp hd
    rwa [walk_append, hkept, Option.bind_some] at hreached
  have hnull := hvalue .null
  rw [hvalue (.bool true)] at hnull
  cases hnull

/-- A member whose name is blank is never deleted. -/
theorem deleteValue_keeps {ms : List (String × Json)} (hs : Text.trimSpace s = "")
    (hmember : member ms s ≠ none) (path : String) : ∃ ms', deleteValue (.obj ms) path = .obj ms' ∧
      member ms' s ≠ none := by
  rw [deleteValue]
  split
  next => exact ⟨ms, rfl, hmember⟩
  next hpath =>
    obtain ⟨p, ps, heq, hlist, -⟩ := Text.splitAt_spec path '.'
    rw [segments, heq, delete, show lastItem (.obj ms) p = p from rfl]
    split
    next => exact ⟨ms, rfl, hmember⟩
    next =>
      split
      next hps =>
        refine ⟨ms.eraseP (·.1 = p), rfl, ?_⟩
        rw [member_eraseP_of_ne]
        · exact hmember
        · rintro rfl
          rw [hps, Text.joinTail, List.flatMap_nil, List.append_nil, String.toList_inj] at hlist
          exact hpath (hlist ▸ hs)
      next =>
        rw [put_eq_putIn rfl, putIn, Option.getD_some]
        refine ⟨_, rfl, ?_⟩
        rw [member_setMember]
        split
        next => exact Option.some_ne_none _
        next => exact hmember

theorem trimSpace_indexText (i : ℕ) : Text.trimSpace (indexText i) ≠ "" := by
  intro h
  obtain ⟨x, xs, hx⟩ := List.exists_cons_of_ne_nil (Decimal.formatNat_ne_nil (n := i))
  have hmem : x ∈ Decimal.formatNat i := by
    rw [hx]
    exact List.mem_cons_self
  have hspace := Text.isSpace_of_trimSpace_eq_empty h x (by rwa [indexText, String.toList_ofList])
  rw [Text.isSpace_eq_false_of_isDigit (Decimal.isDigit_of_mem_formatNat hmem)] at hspace
  cases hspace

theorem foldl_deleteValue_keeps {ms : List (String × Json)} (hs : Text.trimSpace s = "")
    (hmember : member ms s ≠ none) (ps : List String) :
    ∃ ms', ps.foldl deleteValue (.obj ms) = .obj ms' ∧ member ms' s ≠ none := by
  induction ps generalizing ms with
  | nil => exact ⟨ms, rfl, hmember⟩
  | cons path ps ih =>
      obtain ⟨ms', heq, hmember'⟩ := deleteValue_keeps hs hmember path
      rw [List.foldl_cons, heq]
      exact ih hmember'

theorem join_singleton (s : String) : Text.join [s] '.' = s := by
  rw [← String.toList_inj, Text.toList_join_cons]
  exact List.append_nil _

/-- A joined text that is blank is one part. -/
theorem eq_singleton_of_blank (hp : p ≠ []) (hblank : Text.trimSpace (Text.join p '.') = "") :
    ∃ s, p = [s] ∧ Text.trimSpace s = "" := by
  obtain ⟨s, p, rfl⟩ := List.exists_cons_of_ne_nil hp
  cases p with
  | nil => exact ⟨s, rfl, by rwa [join_singleton] at hblank⟩
  | cons t p =>
      have hdot : '.' ∈ (Text.join (s :: t :: p) '.').toList := by
        rw [Text.toList_join_cons, Text.joinTail_cons]
        exact List.mem_append_right _ List.mem_cons_self
      have hspace := Text.isSpace_of_trimSpace_eq_empty hblank '.' hdot
      rw [show Text.isSpace '.' = false from rfl] at hspace
      cases hspace

/-- A blank name that is matched is a member's that a last wildcard stands for. -/
theorem star_of_blank (hnode : Distinct node) (hblank : Text.trimSpace s = "")
    (hp : [s] ∈ places node [seg]) : Text.trimSpace seg ≠ "" ∧ Text.trimSpace seg = "*" ∧
      ∃ c, (s, c) ∈ entries node := by
  have hliteral (hne : ¬ Text.trimSpace seg = "") : s ≠ Text.trimSpace seg := by
    rintro rfl
    rw [Text.trimSpace_trimSpace] at hblank
    exact hne hblank
  rw [places_cons] at hp
  split at hp
  next => cases hp
  next hne =>
    split at hp
    next hstar =>
      obtain ⟨k, c, q, hq, -, he, -⟩ := exists_of_mem_star hnode hp
      cases hq
      exact ⟨hne, hstar, c, he⟩
    next =>
      split at hp
      next => exact absurd (List.cons.inj (List.mem_singleton.1 hp)).1 (hliteral hne)
      next =>
        obtain ⟨-, q, -, -, hq⟩ := mem_below.1 hp
        exact absurd (List.cons.inj hq).1 (hliteral hne)

theorem Acts.named (h : Acts env doc path) (hdoc : Distinct doc)
    (hpath : Text.contains path "*" = true) :
    ∀ p ∈ places doc (segments path), Text.trimSpace (Text.join p '.') ≠ "" := by
  intro p hp hblank
  obtain ⟨s, rfl, hs⟩ :=
    eq_singleton_of_blank (ne_nil_of_mem_places (Text.splitAt_ne_nil path '.') hp) hblank
  have hlen := length_of_mem_places hp
  obtain ⟨seg, hsegs⟩ := List.length_eq_one_iff.1 hlen.symm
  rw [hsegs] at hp
  obtain ⟨hne, hstar, c, he⟩ := star_of_blank hdoc hs hp
  have hdelete := h.delete
  rw [if_pos hpath, hsegs, withoutMatched, if_neg hne, if_pos hstar, if_pos rfl] at hdelete
  cases doc with
  | obj ms =>
      have hsome : member ms s = some c := member_of_mem hdoc.nodup he
      obtain ⟨ms', heq, hmember⟩ := foldl_deleteValue_keeps hs
        (by rw [hsome]; exact Option.some_ne_none c) (resolveOperationPaths (.obj ms) path)
      rw [applyDelete, heq, ofEntries] at hdelete
      rw [Json.obj.inj hdelete] at hmember
      exact hmember rfl
  | arr items =>
      obtain ⟨i, -, rfl⟩ := index_of_mem_entries (List.mem_map_of_mem (f := Prod.fst) he)
      exact trimSpace_indexText i hs
  | _ => cases he

/-- A document names each member of an object once. -/
structure Document where
  json : Json
  distinct : Distinct json

/-- The operations act on the matched nodes exactly if the paths of these lead to them and the
elements of an array are not deleted one after another. -/
theorem acts_iff (env : Env) (doc : Document) (path : String) : Acts env doc.json path ↔
    (Text.contains path "*" = true → Addressed doc.json (segments path)) := by
  obtain ⟨doc, hdoc⟩ := doc
  constructor
  · intro h hpath
    have hplain := h.plain hdoc hpath
    have hnamed := h.named hdoc hpath
    obtain ⟨d, hset, -⟩ := h.exists_set hpath .null
    rw [toOption_applyOperation hdoc hpath hplain hnamed] at hset
    have hdigits : Digits doc (segments path) := by
      by_contra hnot
      rw [if_neg hnot] at hset
      cases hset
    refine ⟨hplain, hnamed, hdigits, ?_⟩
    have hdelete := h.delete
    rwa [if_pos hpath, applyDelete_eq hpath hplain hnamed,
      foldl_delete_places hdoc hdigits] at hdelete
  · intro h
    by_cases hpath : Text.contains path "*" = true
    · obtain ⟨hplain, hnamed, hdigits, hsingle⟩ := h hpath
      constructor
      · intro op
        rw [toOption_applyOperation hdoc hpath hplain hnamed, if_pos hdigits, if_pos hpath]
      · rw [if_pos hpath, applyDelete_eq hpath hplain hnamed]
        exact (foldl_delete_places hdoc hdigits).2 hsingle
    · constructor
      · intro op
        rw [if_neg hpath, applyOperation, resolveOperationPaths, if_neg hpath, List.foldlM_cons]
        cases applyAt env doc path op <;> rfl
      · rw [if_neg hpath, applyDelete, resolveOperationPaths, if_neg hpath]
        rfl

end

/-- An array with two elements. -/
def pair : Document where
  json := .obj [("items", .arr [.num "1", .num "2"])]
  distinct := by
    have hnum (s : String) : Distinct (.num s) := ⟨List.nodup_nil, List.forall_mem_nil _⟩
    have hitems : Distinct (.arr [.num "1", .num "2"]) := by
      refine ⟨nodup_entries_arr _, ?_⟩
      rintro e he
      obtain ⟨x, hx, rfl⟩ := List.mem_map.1 he
      rcases List.mem_cons.1 hx with rfl | hx
      · exact hnum "1"
      · rw [List.mem_singleton.1 hx]
        exact hnum "2"
    exact ⟨List.nodup_singleton _, List.forall_mem_singleton.2 hitems⟩

/-- Once the first element is deleted, the second one is the first and stays. -/
theorem not_acts_pair : ¬ ∀ (env : Env) (doc : Document) (path : String),
    Acts env doc.json path := by
  intro h
  have hdelete := (h ⟨fun _ => .error ""⟩ pair "items.*").delete
  have hleft : applyDelete pair.json "items.*" = .obj [("items", .arr [.num "2"])] := by rfl
  have hmeant : withoutMatched pair.json (segments "items.*") = .obj [("items", .arr [])] := by rfl
  rw [if_pos (by decide), hleft, hmeant] at hdelete
  cases hdelete

end DazeApi.Overrides.Wildcard

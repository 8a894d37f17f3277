import DazeApi.Overrides.Wildcard

/-!
# The matched nodes one after another

Where a path with `*` is expanded to the paths of the matched nodes, and these lead to them,
changing one after another is `matched`, and deleting one after another is `withoutMatched` as
long as no array loses several elements.
-/

namespace DazeApi.Overrides.Wildcard

open JsonText JsonPath

/-! ## One path after another -/

section

variable {f : Option Json → Option Json} {node c d : Json} {k seg : String}
  {segs rest : List String} {ps : List (List String)}

/-- The node of a path changed. -/
def changeAt (f : Option Json → Option Json) (doc : Json) (p : List String) : Option Json :=
  (f (get doc p)).bind (set doc p)

theorem foldlM_changeAt_cons (h : child d k = some c) :
    (ps.map (k :: ·)).foldlM (changeAt f) d = (ps.foldlM (changeAt f) c).bind (put d k) := by
  induction ps generalizing c d with
  | nil => exact (put_self h).symm
  | cons p ps ih =>
      have hstep : changeAt f d (k :: p) = (changeAt f c p).bind (put d k) := by
        rw [changeAt, changeAt, get_cons, h, Option.bind_some, Option.bind_assoc]
        exact congrArg _ (funext fun v => set_cons_of_child h p v)
      rw [List.map_cons, List.foldlM_cons, List.foldlM_cons, hstep]
      cases changeAt f c p with
      | none => rfl
      | some c' =>
          obtain ⟨d', hd', hchild, hput⟩ := put_of_child h c'
          rw [Option.bind_some, hd']
          exact (ih hchild).trans (congrArg _ (funext hput))

theorem foldlM_flatMap {α β γ : Type} (g : β → List α) (step : γ → α → Option γ) (l : List β)
    (a : γ) : (l.flatMap g).foldlM step a = l.foldlM (fun a x => (g x).foldlM step a) a := by
  induction l generalizing a with
  | nil => rfl
  | cons x l ih =>
      rw [List.flatMap_cons, List.foldlM_append, List.foldlM_cons]
      exact congrArg _ (funext ih)

/-- What a wildcard matches below one of its entries. -/
theorem childAt_of_mem_wildcardKeys (hk : k ∈ wildcardKeys node)
    (hc : child node k = some c) : childAt node k = some c ∧ (k, c) ∈ entries node := by
  obtain ⟨c', hc', he⟩ := exists_entry hk
  rw [childAt_of_child hc] at hc'
  cases hc'
  exact ⟨childAt_of_child hc, he⟩

/-! ### Paths that match nothing -/

theorem places_entry_nil (hnode : Distinct node)
    (h : (wildcardKeys node).flatMap (below node rest) = []) :
    ∀ e ∈ entries node, places e.2 rest = [] := by
  intro e he
  have hkey : e.1 ∈ wildcardKeys node := mem_wildcardKeys.2 (List.mem_map_of_mem he)
  have hnil := List.flatMap_eq_nil_iff.1 h e.1 hkey
  rw [below_of_childAt hnode (childAt_of_mem_entries hnode he)] at hnil
  exact List.map_eq_nil_iff.1 hnil

theorem matched_of_places_nil (hnode : Distinct node) (h : places node segs = []) :
    matched f node segs = some node := by
  induction segs generalizing node with
  | nil => cases h
  | cons seg rest ih =>
      rw [places_cons] at h
      rw [matched]
      split
      next => rfl
      next hne =>
        rw [if_neg hne] at h
        split
        next hstar =>
          rw [if_pos hstar] at h
          rw [mapM_eq_self, Option.map_some, ofEntries_entries]
          intro e he
          rw [ih (hnode.of_mem he) (places_entry_nil hnode h e he), Option.map_some]
        next hstar =>
          rw [if_neg hstar] at h
          split
          next hlast =>
            rw [if_pos hlast] at h
            cases h
          next hlast =>
            rw [if_neg hlast] at h
            cases hc : childAt node (Text.trimSpace seg) with
            | none => rfl
            | some c =>
                rw [below_of_childAt hnode hc] at h
                have hrest := ih (distinct_childAt hnode hc) (List.map_eq_nil_iff.1 h)
                simp only [hrest, Option.map_some, replaceChild_self hc]

theorem digits_of_places_nil (hnode : Distinct node) (h : places node segs = []) :
    Digits node segs := by
  induction segs generalizing node with
  | nil => trivial
  | cons seg rest ih =>
      rw [places_cons] at h
      rw [Digits]
      split
      next => trivial
      next hne =>
        rw [if_neg hne] at h
        split
        next hstar =>
          rw [if_pos hstar] at h
          intro e he
          exact ih (hnode.of_mem he) (places_entry_nil hnode h e he)
        next hstar =>
          rw [if_neg hstar] at h
          split
          next => trivial
          next hlast =>
            rw [if_neg hlast] at h
            intro c hc hplaces
            rw [below_of_childAt hnode hc] at h
            exact absurd (List.map_eq_nil_iff.1 h) hplaces

/-! ### Changes -/

/-- A path that begins with a text that is no index of the array cannot be written. -/
theorem changeAt_arr_none {items : List Json} (hc : childAt (.arr items) k = some c)
    (hk : index k = none) (p : List String) : changeAt f (.arr items) (k :: p) = none := by
  have hput (v : Json) : put (.arr items) k v = none := by
    rw [put_eq_putIn rfl]
    simp only [putIn, hk]
    rw [if_neg]
    rintro rfl
    cases hc
  rw [changeAt, Option.bind_eq_none_iff]
  intro v hv
  rw [JsonPath.set, Option.bind_eq_none_iff]
  exact fun w _ => hput w

theorem foldlM_changeAt_none (hc : childAt node k = some c)
    (hnamed : ¬ (isObject node = true ∨ index k ≠ none)) (hps : ps ≠ []) :
    (ps.map (k :: ·)).foldlM (changeAt f) node = none := by
  obtain ⟨p, ps, rfl⟩ := List.exists_cons_of_ne_nil hps
  rw [not_or, not_not] at hnamed
  cases node with
  | obj ms => exact absurd rfl hnamed.1
  | arr items => rw [List.map_cons, List.foldlM_cons, changeAt_arr_none hc hnamed.2]; rfl
  | _ => cases hc

/-- The last segment at an object, where nothing need be. -/
theorem foldlM_changeAt_last (ms : List (String × Json)) (k : String) :
    [[k]].foldlM (changeAt f) (.obj ms) =
      (f (childAt (.obj ms) k)).map (replaceChild (.obj ms) k) := by
  have hget : get (.obj ms) [k] = childAt (.obj ms) k := by
    rw [get_cons]
    exact Option.bind_fun_some (member ms k)
  rw [List.foldlM_cons, changeAt, hget]
  cases f (childAt (.obj ms) k) with
  | none => rfl
  | some v => rfl

open Classical in
/-- The paths of the matched nodes, changed one after another. -/
theorem foldlM_places (hnode : Distinct node) : (places node segs).foldlM (changeAt f) node =
    if Digits node segs then matched f node segs else none := by
  induction segs generalizing node with
  | nil =>
      rw [places, matched, Digits, if_pos trivial, List.foldlM_cons, changeAt, get_nil]
      cases f (some node) <;> rfl
  | cons seg rest ih =>
      rw [places_cons, matched, Digits]
      split
      next => rw [if_pos trivial]; rfl
      next hne =>
        split
        next hstar =>
          rw [foldlM_flatMap]
          have hwalk := foldlM_all (G := fun c => if Digits c rest then matched f c rest else none)
            (F := fun k d => (below node rest k).foldlM (changeAt f) d)
            hnode (nodup_wildcardKeys node) (fun _ => mem_wildcardKeys) (by
              intro k hk d c hd hc
              obtain ⟨hchild, he⟩ := childAt_of_mem_wildcardKeys hk hc
              rw [below_of_childAt hnode hchild, foldlM_changeAt_cons hd, ih (hnode.of_mem he)])
          rw [hwalk]
          by_cases hdigits : ∀ e ∈ entries node, Digits e.2 rest
          · rw [if_pos hdigits]
            have hcongr := mapM_congr (u := id) (l := entries node)
              (f := fun e => (if Digits e.2 rest then matched f e.2 rest else none).map (e.1, ·))
              (g := fun e => (matched f e.2 rest).map (e.1, ·))
              (fun e he => by rw [id, if_pos (hdigits e he)])
            rw [List.map_id] at hcongr
            rw [hcongr]
          · rw [if_neg hdigits]
            push Not at hdigits
            obtain ⟨e, he, hnot⟩ := hdigits
            rw [mapM_eq_none he, Option.map_none]
            rw [if_neg hnot, Option.map_none]
        next hstar =>
          split
          next hlast =>
            obtain ⟨hobj, rfl⟩ := hlast
            rw [if_pos trivial]
            cases node with
            | obj ms => exact foldlM_changeAt_last ms (Text.trimSpace seg)
            | _ => cases hobj
          next hlast =>
            cases hc : childAt node (Text.trimSpace seg) with
            | none =>
                rw [if_pos (by rintro c ⟨⟩), below_of_none hnode hc]
                rfl
            | some c =>
                rw [below_of_childAt hnode hc]
                by_cases hplaces : places c rest = []
                · have hrest := matched_of_places_nil (f := f) (distinct_childAt hnode hc) hplaces
                  rw [if_pos (by rintro c' ⟨⟩ hne; exact absurd hplaces hne)]
                  simp only [hplaces, List.map_nil, hrest, Option.map_some, replaceChild_self hc]
                  rfl
                · by_cases hnamed : isObject node = true ∨ index (Text.trimSpace seg) ≠ none
                  · have hchild := child_of_childAt hnamed hc
                    dsimp only
                    rw [foldlM_changeAt_cons hchild, ih (distinct_childAt hnode hc)]
                    by_cases hdigits : Digits c rest
                    · rw [if_pos hdigits, if_pos (by rintro c' ⟨⟩ -; exact ⟨hnamed, hdigits⟩),
                        Option.map_eq_bind]
                      exact congrArg _ (funext fun v => put_eq_replaceChild hchild v)
                    · rw [if_neg hdigits, if_neg fun h => hdigits (h c rfl hplaces).2]
                      rfl
                  · rw [if_neg fun h => hnamed (h c rfl hplaces).1]
                    exact foldlM_changeAt_none hc hnamed hplaces

/-! ### Deletions -/

/-- The paths of matched nodes have as many segments as the path. -/
theorem length_of_mem_places {p : List String} (h : p ∈ places node segs) :
    p.length = segs.length := by
  induction segs generalizing node p with
  | nil => rw [List.mem_singleton.1 h]
  | cons seg rest ih =>
      have hbelow {k : String} (h : p ∈ below node rest k) : p.length = (seg :: rest).length := by
        obtain ⟨c, q, -, hq, rfl⟩ := mem_below.1 h
        rw [List.length_cons, ih hq, List.length_cons]
      rw [places_cons] at h
      split at h
      next => cases h
      next =>
        split at h
        next =>
          obtain ⟨k, -, hp⟩ := List.mem_flatMap.1 h
          exact hbelow hp
        next =>
          split at h
          next hlast => rw [List.mem_singleton.1 h, hlast.2]; rfl
          next => exact hbelow h

theorem ne_nil_of_mem_places {p : List String} (hsegs : segs ≠ []) (h : p ∈ places node segs) :
    p ≠ [] := by
  rintro rfl
  exact hsegs (List.length_eq_zero_iff.1 (length_of_mem_places h).symm)

/-! ### What is left -/

theorem ofEntries_map_inj {A B : Json → Json} :
    ofEntries node ((entries node).map fun e => (e.1, A e.2)) =
        ofEntries node ((entries node).map fun e => (e.1, B e.2)) ↔
      ∀ e ∈ entries node, A e.2 = B e.2 := by
  constructor
  · intro h
    have hentries := congrArg entries h
    have hkeys (C : Json → Json) : ((entries node).map fun e => (e.1, C e.2)).map Prod.fst =
        (entries node).map Prod.fst := by
      rw [List.map_map]
      rfl
    rw [entries_ofEntries (hkeys A), entries_ofEntries (hkeys B), List.map_inj_left] at hentries
    exact fun e he => (Prod.mk.inj (hentries e he)).2
  · intro h
    rw [List.map_congr_left fun e he => by rw [h e he]]

theorem replaceChild_inj (hc : childAt node k = some c) {v w : Json} :
    replaceChild node k v = replaceChild node k w ↔ v = w := by
  constructor
  · intro h
    have hchild := congrArg (childAt · k) h
    simp only [childAt_replaceChild hc] at hchild
    exact Option.some.inj hchild
  · exact fun h => h ▸ rfl

/-- The paths of a last wildcard. -/
theorem places_last (hnode : Distinct node) :
    (wildcardKeys node).flatMap (below node []) = (wildcardKeys node).map fun k => [k] := by
  rw [List.map_eq_flatMap]
  refine List.flatMap_congr fun k hk => ?_
  obtain ⟨c, hc, -⟩ := exists_entry hk
  rw [below_of_childAt hnode hc]
  rfl

theorem foldl_delete_last (hnode : Distinct node) :
    ((wildcardKeys node).map fun k => [k]).foldl delete node = ofEntries node [] ↔
      ∀ items, node = .arr items → items.length ≤ 1 := by
  cases node with
  | obj ms =>
      refine iff_of_true ?_ (by rintro items ⟨⟩)
      have hnodup : (ms.map Prod.fst).Nodup := hnode.nodup
      rw [foldl_delete_obj hnodup, ofEntries, List.filter_eq_nil_iff.2]
      intro m hm
      rw [decide_eq_true_eq, not_not, mem_wildcardKeys]
      exact List.mem_map_of_mem hm
  | arr items =>
      rw [wildcardKeys, List.map_map]
      refine (foldl_delete_all_arr items).trans ⟨?_, fun h => h items rfl⟩
      rintro h _ ⟨⟩
      exact h
  | _ => exact iff_of_true rfl (by rintro items ⟨⟩)

theorem foldl_delete_rest (hnode : Distinct node) (hrest : rest ≠ []) :
    ((wildcardKeys node).flatMap (below node rest)).foldl delete node =
      ofEntries node ((entries node).map fun e => (e.1, (places e.2 rest).foldl delete e.2)) := by
  have hwalk := foldlM_all (G := fun c => some ((places c rest).foldl delete c))
    (F := fun k d => some ((below node rest k).foldl delete d))
    hnode (nodup_wildcardKeys node) (fun _ => mem_wildcardKeys) (by
      intro k hk d c hd hc
      rw [below_of_childAt hnode (childAt_of_mem_wildcardKeys hk hc).1]
      rw [foldl_delete_cons hd fun p hp => ne_nil_of_mem_places hrest hp, Option.bind_some]
      obtain ⟨d', hd', -⟩ := put_of_child hd ((places c rest).foldl delete c)
      rw [hd', Option.getD_some])
  rw [List.foldl_flatMap]
  have hpure := List.foldlM_pure (m := Option) (b := node) (l := wildcardKeys node)
    (f := fun d k => (below node rest k).foldl delete d)
  refine Option.some.inj (hpure.symm.trans (hwalk.trans ?_))
  have hmapM := List.mapM_pure (m := Option) (l := entries node)
    (f := fun e => (e.1, (places e.2 rest).foldl delete e.2))
  exact congrArg (Option.map (ofEntries node)) hmapM

theorem delete_of_child (h : child node k = some c) : delete node [k] = removeChild node k := by
  rw [delete_singleton, lastItem_of_child h, if_neg (by rw [h]; exact Option.some_ne_none c)]
  cases node with
  | arr items =>
      rw [child, Option.bind_eq_some_iff] at h
      obtain ⟨i, hi, -⟩ := h
      simp only [erase, hi, removeChild, index_eq_parseInt hi, Int.toNat_natCast]
  | _ => rfl

theorem foldl_delete_places (hnode : Distinct node) (hdigits : Digits node segs) :
    (places node segs).foldl delete node = withoutMatched node segs ↔ Single node segs := by
  induction segs generalizing node with
  | nil => exact iff_of_true rfl trivial
  | cons seg rest ih =>
      rw [Digits] at hdigits
      rw [places_cons, withoutMatched, Single]
      split
      next => exact iff_of_true rfl trivial
      next hne =>
        rw [if_neg hne] at hdigits
        split
        next hstar =>
          rw [if_pos hstar] at hdigits
          by_cases hrest : rest = []
          · subst hrest
            rw [if_pos rfl, places_last hnode, foldl_delete_last hnode]
            exact ⟨fun h => ⟨fun _ => h, fun _ _ => trivial⟩, fun h => h.1 rfl⟩
          · rw [if_neg hrest, foldl_delete_rest hnode hrest]
            simp only [hrest, false_implies, true_and]
            refine (ofEntries_map_inj (A := fun c => (places c rest).foldl delete c)
              (B := fun c => withoutMatched c rest)).trans ?_
            exact forall₂_congr fun e he => ih (hnode.of_mem he) (hdigits e he)
        next hstar =>
          rw [if_neg hstar] at hdigits
          cases hc : childAt node (Text.trimSpace seg) with
          | none =>
              refine iff_of_true ?_ (by rintro c ⟨⟩)
              split
              next hlast =>
                cases node with
                | obj ms => exact (delete_singleton _ _).trans (if_pos hc)
                | _ => cases hlast.1
              next => rw [below_of_none hnode hc]; rfl
          | some c =>
              have hdistinct := distinct_childAt hnode hc
              rw [below_of_childAt hnode hc]
              simp only [Option.some.injEq, forall_eq']
              by_cases hrest : rest = []
              · subst hrest
                have hnamed : isObject node = true ∨ index (Text.trimSpace seg) ≠ none := by
                  by_cases hobj : isObject node = true
                  · exact Or.inl hobj
                  · rw [if_neg fun h => hobj h.1] at hdigits
                    exact (hdigits c hc (List.cons_ne_nil _ _)).1
                refine iff_of_true ?_ trivial
                rw [places, List.map_singleton, ite_self, List.foldl_cons, if_pos rfl]
                exact delete_of_child (child_of_childAt hnamed hc)
              · rw [if_neg fun h => hrest h.2] at hdigits
                rw [if_neg fun h => hrest h.2, if_neg hrest]
                by_cases hplaces : places c rest = []
                · have hih := ih hdistinct (digits_of_places_nil hdistinct hplaces)
                  have hsame := replaceChild_inj hc (v := c) (w := withoutMatched c rest)
                  rw [replaceChild_self hc] at hsame
                  rw [hplaces] at hih ⊢
                  exact hsame.trans hih
                · obtain ⟨hnamed, hrestdigits⟩ := hdigits c hc hplaces
                  have hchild := child_of_childAt hnamed hc
                  rw [foldl_delete_cons hchild fun p hp => ne_nil_of_mem_places hrest hp,
                    put_eq_replaceChild hchild, Option.getD_some, replaceChild_inj hc,
                    ih hdistinct hrestdigits]

end

end DazeApi.Overrides.Wildcard

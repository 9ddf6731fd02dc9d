import Anon.Dispatcher.QueryFieldTheorems

/-!
# Taking a parameter out of a URL

`remove_query_field` goes over the items like `get_query_val`, compares with two ends of a name,
and cuts the URL around the item that it finds.

* `withoutParameter`: the URL split at the `?` and at each `&`, and put together without the first
  item that has the name.
* `removeQueryLoop_eq`: the loop, as a search over the starts of the items.
* `removeQueryField_eq_iff`: the URLs and names for which `remove_query_field` gives this URL.
-/

namespace Anon.Dispatcher

variable {uri field front s t part rest item : Bytes}

/-! ## The URL and its items -/

/-- What is in front of the first `?`. -/
def urlPath (uri : Bytes) : Bytes := firstItem questionMark uri

/-- What is behind the first `?`. -/
def urlQuery (uri : Bytes) : Bytes := uri.drop ((urlPath uri).length + 1)

/-- A URL with the items in its query string. -/
def withQuery (path : Bytes) : List Bytes → Bytes
  | [] => path
  | item :: items => path ++ questionMark :: [ampersand].intercalate (item :: items)

/-- The URL without the first parameter that has the name `field`. -/
def withoutParameter (uri field : Bytes) : Bytes :=
  if questionMark ∈ uri then
    withQuery (urlPath uri)
      (((urlQuery uri).splitOn ampersand).eraseP fun item => itemName item = field)
  else uri

/-- The text at the start of an item begins with the item. -/
def Named (field s : Bytes) : Prop := itemName (firstItem ampersand s) = field

instance (field s : Bytes) : Decidable (Named field s) := inferInstanceAs (Decidable (_ = _))

/-- `field` and a `=` or `&` stand at the start of an item. -/
def Matches (field s : Bytes) : Prop :=
  field <+: s ∧ (s[field.length]? = some equals ∨ s[field.length]? = some ampersand)

instance (field s : Bytes) : Decidable (Matches field s) := inferInstanceAs (Decidable (_ ∧ _))

theorem matches_iff_exists : Matches field s ↔
    ∃ c r, (c = equals ∨ c = ampersand) ∧ s = field ++ c :: r := by
  constructor
  · rintro ⟨⟨r, rfl⟩, hend⟩
    rw [List.getElem?_append_right (le_refl _), Nat.sub_self] at hend
    cases r with
    | nil => exact absurd hend (by simp)
    | cons c r =>
      rw [List.getElem?_cons_zero, Option.some.injEq, Option.some.injEq] at hend
      exact ⟨c, r, hend, rfl⟩
  · rintro ⟨c, r, hend, rfl⟩
    refine ⟨⟨c :: r, rfl⟩, ?_⟩
    rw [List.getElem?_append_right (le_refl _), Nat.sub_self, List.getElem?_cons_zero,
      Option.some.injEq, Option.some.injEq]
    exact hend

/-- An item is its name, or its name, a `=` and its value. -/
theorem item_cases (item : Bytes) :
    item = itemName item ∨ item = itemName item ++ equals :: itemValue item := by
  obtain h | ⟨name, v, hname, rfl⟩ := split_cases equals item
  · left
    exact (firstItem_of_notMem h).symm
  · right
    rw [itemName_append_cons hname, itemValue_append_cons hname]

/-- From the start of an item on there is its name, followed by nothing, by a `=` or by an `&`. -/
theorem named_iff (h : ItemKey field) : Named field s ↔ s = field ∨ Matches field s := by
  constructor
  · intro hname
    obtain hs | ⟨part, rest, hpart, rfl⟩ := split_cases ampersand s
    · rw [Named, firstItem_of_notMem hs] at hname
      rcases item_cases s with hitem | hitem
      · exact Or.inl (hitem.trans hname)
      · rw [hname] at hitem
        exact Or.inr (matches_iff_exists.mpr ⟨equals, itemValue s, Or.inl rfl, hitem⟩)
    · rw [Named, firstItem_append_cons hpart] at hname
      right
      apply matches_iff_exists.mpr
      rcases item_cases part with hitem | hitem
      · rw [hitem, hname]
        exact ⟨ampersand, rest, Or.inr rfl, rfl⟩
      · rw [hname] at hitem
        refine ⟨equals, itemValue part ++ ampersand :: rest, Or.inl rfl, ?_⟩
        rw [← List.cons_append, ← List.append_assoc, ← hitem]
  · rintro (rfl | hmatch)
    · rw [Named, firstItem_of_notMem h.2, itemName, firstItem_of_notMem h.1]
    · obtain ⟨c, r, rfl | rfl, rfl⟩ := matches_iff_exists.mp hmatch
      · have hitem := firstItem_of_begins h r
        rw [List.append_assoc, List.singleton_append] at hitem
        rw [Named, hitem, itemName_append_cons h.1]
      · rw [Named, firstItem_append_cons h.2, itemName, firstItem_of_notMem h.1]

/-- With text behind the name, the comparison finds the items with this name. -/
theorem matches_iff_named (h : ItemKey field) (hlong : field.length + 1 < s.length) :
    Matches field s ↔ Named field s := by
  rw [named_iff h]
  constructor
  · exact Or.inr
  · rintro (rfl | hmatch)
    · omega
    · exact hmatch

/-! ## The loop -/

theorem removeQueryLoop_of_short (h : ¬field.length + 1 < s.length) :
    removeQueryLoop (front ++ s) field front.length = front ++ s := by
  rw [removeQueryLoop, if_neg]
  rw [List.length_append]
  omega

theorem matches_iff (front s field : Bytes) :
    (field <+: (front ++ s).drop front.length ∧
      ((front ++ s)[front.length + field.length]? = some equals ∨
        (front ++ s)[front.length + field.length]? = some ampersand)) ↔ Matches field s := by
  rw [List.drop_left, List.getElem?_append_right (Nat.le_add_right _ _), Nat.add_sub_cancel_left,
    Matches]

theorem removeQueryLoop_of_matches (hlong : field.length + 1 < s.length) (h : Matches field s) :
    removeQueryLoop (front ++ s) field front.length =
      stripField (front ++ s) field front.length := by
  rw [removeQueryLoop, if_pos, if_pos ((matches_iff front s field).mpr h)]
  rw [List.length_append]
  omega

theorem removeQueryLoop_last (h0 : 0 ∉ part) (hpart : ampersand ∉ part)
    (h : ¬Matches field part) :
    removeQueryLoop (front ++ part) field front.length = front ++ part := by
  by_cases hlong : field.length + 1 < part.length
  · have hend : strchrnul part ampersand = part.length := by
      rw [strchrnul, strchr_eq_memchr h0, memchr_of_notMem hpart, cString_eq_self h0]
      rfl
    rw [removeQueryLoop, if_pos, if_neg (mt (matches_iff front part field).mp h), List.drop_left,
      hend, removeQueryLoop, if_neg]
    · rw [List.length_append]
      omega
    · rw [List.length_append]
      omega
  · exact removeQueryLoop_of_short hlong

/-- From one item, the loop goes on to the next one. -/
theorem removeQueryLoop_more (h0 : 0 ∉ part ++ ampersand :: rest) (hpart : ampersand ∉ part)
    (h : ¬(field.length + 1 < (part ++ ampersand :: rest).length ∧
      Matches field (part ++ ampersand :: rest))) :
    removeQueryLoop (front ++ (part ++ ampersand :: rest)) field front.length =
      removeQueryLoop ((front ++ part ++ [ampersand]) ++ rest) field
        (front ++ part ++ [ampersand]).length := by
  have huri : front ++ (part ++ ampersand :: rest) = (front ++ part ++ [ampersand]) ++ rest := by
    simp
  by_cases hlong : field.length + 1 < (part ++ ampersand :: rest).length
  · have hnot : ¬Matches field (part ++ ampersand :: rest) := fun hmatch => h ⟨hlong, hmatch⟩
    have hnext : front.length + strchrnul (part ++ ampersand :: rest) ampersand + 1 =
        (front ++ part ++ [ampersand]).length := by
      rw [strchrnul, strchr_eq_memchr h0, memchr_append_cons hpart, Option.getD_some]
      simp only [List.length_append, List.length_singleton]
    rw [removeQueryLoop, if_pos, if_neg (mt (matches_iff front _ field).mp hnot), List.drop_left,
      hnext, huri]
    rw [List.length_append]
    omega
  · rw [removeQueryLoop_of_short hlong, removeQueryLoop_of_short, huri]
    rw [List.length_append, List.length_cons] at hlong
    omega

/-- The loop cuts at the first item at which `field` and one of its ends stand, unless nothing is
behind them. -/
theorem removeQueryLoop_eq (h0 : 0 ∉ s) (front field : Bytes) :
    removeQueryLoop (front ++ s) field front.length =
      ((starts ampersand s).find? fun t =>
        decide (field.length + 1 < t.length ∧ Matches field t)).elim (front ++ s)
          fun t => stripField (front ++ s) field ((front ++ s).length - t.length) := by
  have hfront (front s : Bytes) : (front ++ s).length - s.length = front.length := by
    rw [List.length_append, Nat.add_sub_cancel]
  -- by induction on the items: those in front of the loop are in `front`
  induction s using split_induction ampersand generalizing front with
  | last part hpart =>
    rw [starts_of_notMem hpart]
    by_cases h : field.length + 1 < part.length ∧ Matches field part
    · rw [List.find?_cons_of_pos, Option.elim_some, hfront]
      · exact removeQueryLoop_of_matches h.1 h.2
      · exact decide_eq_true h
    · rw [List.find?_cons_of_neg, List.find?_nil, Option.elim_none]
      · by_cases hmatch : Matches field part
        · exact removeQueryLoop_of_short fun hlong => h ⟨hlong, hmatch⟩
        · exact removeQueryLoop_last h0 hpart hmatch
      · rwa [decide_eq_true_eq]
  | more part rest hpart ih =>
    rw [starts_append_cons hpart]
    by_cases h : field.length + 1 < (part ++ ampersand :: rest).length ∧
        Matches field (part ++ ampersand :: rest)
    · rw [List.find?_cons_of_pos, Option.elim_some, hfront]
      · exact removeQueryLoop_of_matches h.1 h.2
      · exact decide_eq_true h
    · have hrest : 0 ∉ rest := by
        intro hmem
        apply h0
        simp [hmem]
      have huri : front ++ (part ++ ampersand :: rest) =
          (front ++ part ++ [ampersand]) ++ rest := by
        simp
      rw [List.find?_cons_of_neg, removeQueryLoop_more h0 hpart h, huri]
      · exact ih hrest _
      · rwa [decide_eq_true_eq]

/-! ## The cut -/

/-- The cut makes the URL shorter. -/
theorem length_stripField_lt (uri field : Bytes) (qs : ℕ) (hpos : 0 < qs)
    (hle : qs ≤ uri.length) : (stripField uri field qs).length < uri.length := by
  unfold stripField
  split
  · next ampr hampr =>
    obtain ⟨front, back, hback, hlen, -, -⟩ := exists_of_strchr hampr
    have hrest := congrArg List.length hback
    rw [List.length_drop, List.length_append, List.length_cons, hlen] at hrest
    have hcut : (cString (uri.drop (qs + field.length + (ampr + 1)))).length ≤
        (uri.drop (qs + field.length + (ampr + 1))).length := (List.takeWhile_sublist _).length_le
    rw [List.length_drop] at hcut
    rw [List.length_append, List.length_take]
    omega
  · rw [List.length_take, List.length_take]
    omega

/-- At the last item, the cut takes the separator in front of it as well. -/
theorem stripField_last (h0 : 0 ∉ t) (ht : ampersand ∉ t) (front field : Bytes) :
    stripField (front ++ t) field front.length = front.dropLast := by
  have hnone : strchr ((front ++ t).drop (front.length + field.length)) ampersand = none := by
    rw [List.drop_length_add_append, strchr_eq_memchr fun hmem => h0 (List.mem_of_mem_drop hmem)]
    exact memchr_of_notMem fun hmem => ht (List.mem_of_mem_drop hmem)
  rw [stripField, hnone, List.take_left]
  exact List.dropLast_eq_take.symm

/-- At another item, the cut takes the separator behind it as well. -/
theorem stripField_more (h0 : 0 ∉ part ++ ampersand :: rest) (hpart : ampersand ∉ part)
    (hle : field.length ≤ part.length) (front : Bytes) :
    stripField (front ++ (part ++ ampersand :: rest)) field front.length = front ++ rest := by
  have hbehind : (front ++ (part ++ ampersand :: rest)).drop (front.length + field.length) =
      part.drop field.length ++ ampersand :: rest := by
    rw [List.drop_length_add_append, List.drop_append_of_le_length hle]
  have h0' : 0 ∉ part.drop field.length ++ ampersand :: rest := by
    rw [← hbehind, List.drop_length_add_append]
    exact fun hmem => h0 (List.mem_of_mem_drop hmem)
  have hfound : strchr (part.drop field.length ++ ampersand :: rest) ampersand =
      some (part.length - field.length) := by
    rw [strchr_eq_memchr h0', memchr_append_cons fun hmem => hpart (List.mem_of_mem_drop hmem),
      List.length_drop]
  have hskip : front.length + field.length + (part.length - field.length + 1) =
      front.length + (part.length + 1) := by
    omega
  have hrest : 0 ∉ rest := by
    intro hmem
    apply h0
    simp [hmem]
  rw [stripField, hbehind, hfound, List.take_left]
  show front ++ cString _ = front ++ rest
  rw [hskip, List.drop_length_add_append, List.drop_length_add_append, List.drop_one,
    List.tail_cons, cString_eq_self hrest]

/-! ## The URL without the parameter -/

theorem withQuery_of_ne_nil {items : List Bytes} (h : items ≠ []) (path : Bytes) :
    withQuery path items = path ++ questionMark :: [ampersand].intercalate items := by
  cases items with
  | nil => exact absurd rfl h
  | cons item items => rfl

/-- The items in front of the last one. -/
theorem withQuery_eq_dropLast (path : Bytes) (before : List Bytes) :
    withQuery path before =
      (path ++ questionMark :: (before.map (· ++ [ampersand])).flatten).dropLast := by
  obtain rfl | ⟨front, item, rfl⟩ := List.eq_nil_or_concat before
  · exact (List.dropLast_concat).symm
  · have hflat : path ++ questionMark :: ((front.concat item).map (· ++ [ampersand])).flatten =
        (path ++ questionMark :: ((front.map (· ++ [ampersand])).flatten ++ item)) ++
          [ampersand] := by
      simp
    rw [hflat, List.dropLast_concat, List.concat_eq_append, withQuery_of_ne_nil (by simp),
      intercalate_append (List.cons_ne_nil item []), List.intercalate_singleton]

theorem url_eq (h : questionMark ∈ uri) : uri = urlPath uri ++ questionMark :: urlQuery uri := by
  obtain hnot | ⟨path, query, hpath, rfl⟩ := split_cases questionMark uri
  · exact absurd h hnot
  · rw [urlQuery, urlPath, firstItem_append_cons hpath, List.drop_length_add_append,
      List.drop_one, List.tail_cons]

/-- With no parameter of that name, the URL stays as it is. -/
theorem withoutParameter_of_none
    (hnone : (starts ampersand (urlQuery uri)).find? (fun t => decide (Named field t)) = none) :
    withoutParameter uri field = uri := by
  by_cases h : questionMark ∈ uri
  · have hitems : ((urlQuery uri).splitOn ampersand).eraseP (fun item => itemName item = field) =
        (urlQuery uri).splitOn ampersand := by
      apply List.eraseP_of_forall_not
      intro item hitem
      rw [splitOn_eq_map_starts, List.mem_map] at hitem
      obtain ⟨t, ht, rfl⟩ := hitem
      exact List.find?_eq_none.mp hnone t ht
    rw [withoutParameter, if_pos h, hitems, withQuery_of_ne_nil (List.splitOn_ne_nil _ _),
      List.intercalate_splitOn]
    exact (url_eq h).symm
  · rw [withoutParameter, if_neg h]

/-- A parameter of that name is taken out with the cut at its start. -/
theorem withoutParameter_of_some (h0 : 0 ∉ uri) (h : questionMark ∈ uri)
    (hsome : (starts ampersand (urlQuery uri)).find? (fun t => decide (Named field t)) = some t) :
    withoutParameter uri field = stripField uri field (uri.length - t.length) := by
  obtain ⟨before, hquery, hitems, hbefore, hname⟩ :=
    find?_starts_eq_some (n := fun item => decide (itemName item = field)) hsome
  have huri : uri = (urlPath uri ++ questionMark ::
      (before.map (· ++ [ampersand])).flatten) ++ t := by
    rw [List.append_assoc, List.cons_append, ← hquery]
    exact url_eq h
  have hcut : stripField uri field (uri.length - t.length) =
      stripField ((urlPath uri ++ questionMark :: (before.map (· ++ [ampersand])).flatten) ++ t)
        field (urlPath uri ++ questionMark :: (before.map (· ++ [ampersand])).flatten).length := by
    rw [← huri]
    apply congrArg
    have hlen := congrArg List.length huri
    rw [List.length_append] at hlen
    omega
  have ht0 : 0 ∉ t := by
    intro hmem
    apply h0
    rw [huri]
    exact List.mem_append_right _ hmem
  have hleft : ((urlQuery uri).splitOn ampersand).eraseP (fun item => itemName item = field) =
      before ++ (t.splitOn ampersand).eraseP fun item => itemName item = field := by
    rw [hitems]
    apply List.eraseP_append_right
    intro b hb
    rw [hbefore b hb]
    exact Bool.false_ne_true
  rw [withoutParameter, if_pos h, hleft, hcut]
  -- the last item goes with the separator in front of it, another one with the one behind it
  obtain hlast | ⟨part, rest, hpart, rfl⟩ := split_cases ampersand t
  · rw [firstItem_of_notMem hlast] at hname
    rw [List.splitOn_eq_singleton hlast, List.eraseP_cons_of_pos, List.append_nil,
      stripField_last ht0 hlast]
    · exact withQuery_eq_dropLast _ _
    · exact hname
  · rw [firstItem_append_cons hpart] at hname
    have hle : field.length ≤ part.length := by
      rw [← of_decide_eq_true hname]
      exact (firstItem_prefix_self equals part).length_le
    rw [List.splitOn_append_cons_self_of_not_mem hpart, List.eraseP_cons_of_pos,
      stripField_more ht0 hpart hle, withQuery_of_ne_nil (by simp [List.splitOn_ne_nil]),
      intercalate_append (List.splitOn_ne_nil _ _), List.intercalate_splitOn, List.append_assoc,
      List.cons_append]
    exact hname

/-! ## The whole function -/

/-- Behind the name of the first parameter with the name `field` stand two further bytes or more,
and nowhere that many behind a `field` that no parameter can have as its name. -/
def RemovedAsNamed (uri field : Bytes) : Prop :=
  questionMark ∈ uri →
    if ItemKey field then
      ∀ t ∈ (starts ampersand (urlQuery uri)).find? fun t => decide (Named field t),
        field.length + 1 < t.length
    else ∀ t ∈ starts ampersand (urlQuery uri), Matches field t → t.length ≤ field.length + 1

instance (uri field : Bytes) : Decidable (RemovedAsNamed uri field) :=
  inferInstanceAs (Decidable (_ → _))

/-- `remove_query_field`, as a search over the starts of the items. -/
theorem removeQueryField_eq (h0 : 0 ∉ uri) (h : questionMark ∈ uri) (field : Bytes) :
    removeQueryField uri field =
      ((starts ampersand (urlQuery uri)).find? fun t =>
        decide (field.length + 1 < t.length ∧ Matches field t)).elim uri
          fun t => stripField uri field (uri.length - t.length) := by
  have hfound : strchr uri questionMark = some (urlPath uri).length := by
    rw [strchr_eq_memchr h0]
    conv_lhs => rw [url_eq h]
    exact memchr_append_cons (separator_notMem_firstItem _ _) _
  have huri : uri = (urlPath uri ++ [questionMark]) ++ urlQuery uri := by
    rw [List.append_assoc]
    exact url_eq h
  have hquery : 0 ∉ urlQuery uri := fun hmem => h0 (List.mem_of_mem_drop hmem)
  have hloop := removeQueryLoop_eq hquery (urlPath uri ++ [questionMark]) field
  rw [← huri, List.length_append, List.length_singleton] at hloop
  rw [removeQueryField, hfound]
  exact hloop

/-- No parameter has a name with a `=` or an `&` in it. -/
theorem find?_named_of_not_itemKey (h : ¬ItemKey field) (query : Bytes) :
    (starts ampersand query).find? (fun t => decide (Named field t)) = none := by
  apply List.find?_eq_none.mpr
  intro t _ hname
  apply h
  rw [← of_decide_eq_true hname]
  exact itemKey_itemName t

/-- For another name, the loop goes by the name of the items. -/
theorem find?_matches_of_itemKey (h : ItemKey field) (query : Bytes) :
    ((starts ampersand query).find? fun t =>
      decide (field.length + 1 < t.length ∧ Matches field t)) =
      ((starts ampersand query).find? fun t => decide (Named field t)).filter fun t =>
        decide (field.length + 1 < t.length) := by
  have hsame : (fun t => decide (field.length + 1 < t.length ∧ Matches field t)) =
      fun t => decide (field.length + 1 < t.length ∧ Named field t) := by
    funext t
    exact decide_eq_decide.mpr (and_congr_right fun hlong => matches_iff_named h hlong)
  rw [hsame, find?_starts_of_long]

/-- Exactly when two bytes or more stand behind the name, `remove_query_field` takes the first
parameter with this name out of the URL, and nothing else. -/
theorem removeQueryField_eq_iff (h0 : 0 ∉ uri) (field : Bytes) :
    removeQueryField uri field = withoutParameter uri field ↔ RemovedAsNamed uri field := by
  by_cases h : questionMark ∈ uri
  · -- a cut never gives the URL back
    have hcut (t : Bytes) (ht : t ∈ starts ampersand (urlQuery uri)) :
        stripField uri field (uri.length - t.length) ≠ uri := by
      intro heq
      have hle := length_le_of_mem_starts ht
      have hlen := congrArg List.length (url_eq h)
      rw [List.length_append, List.length_cons] at hlen
      have hlt := length_stripField_lt uri field (uri.length - t.length) (by omega) (by omega)
      rw [heq] at hlt
      omega
    rw [removeQueryField_eq h0 h, RemovedAsNamed]
    by_cases hkey : ItemKey field
    · rw [find?_matches_of_itemKey hkey, if_pos hkey]
      cases hfind : (starts ampersand (urlQuery uri)).find? fun t => decide (Named field t) with
      | none =>
        rw [withoutParameter_of_none hfind]
        simp
      | some t =>
        rw [withoutParameter_of_some h0 h hfind]
        -- the loop cuts there, or goes on and leaves the URL as it is
        by_cases hlong : field.length + 1 < t.length
        · simp [Option.filter, hlong]
        · have hne := (hcut t (List.mem_of_find?_eq_some hfind)).symm
          simp [Option.filter, hlong, hne, h]
    -- no parameter has such a name, so nothing is to be cut
    · rw [withoutParameter_of_none (find?_named_of_not_itemKey hkey _), if_neg hkey]
      cases hfind : (starts ampersand (urlQuery uri)).find? fun t =>
          decide (field.length + 1 < t.length ∧ Matches field t) with
      | none =>
        have hall : ∀ t ∈ starts ampersand (urlQuery uri), Matches field t →
            t.length ≤ field.length + 1 := by
          intro t ht hmatch
          by_contra hlong
          apply List.find?_eq_none.mp hfind t ht
          exact decide_eq_true ⟨by omega, hmatch⟩
        exact iff_of_true rfl fun _ => hall
      | some t =>
        have ht := List.mem_of_find?_eq_some hfind
        have hhit := List.find?_some
          (p := fun t => decide (field.length + 1 < t.length ∧ Matches field t)) hfind
        obtain ⟨hlong, hmatch⟩ := of_decide_eq_true hhit
        apply iff_of_false (hcut t ht)
        intro hall
        have hle := hall h t ht hmatch
        omega
  · -- there is no query string
    have hnone : strchr uri questionMark = none := by
      rw [strchr_eq_memchr h0, memchr_of_notMem h]
    apply iff_of_true
    · rw [removeQueryField, hnone, withoutParameter, if_neg h]
    · exact fun hmem => absurd hmem h

/-- `remove_query_field` on a URL with the parameter in the middle. -/
theorem removeQueryField_middle :
    removeQueryField (ascii "/x?a=1&key&b=2") (ascii "key") =
      withoutParameter (ascii "/x?a=1&key&b=2") (ascii "key") :=
  (removeQueryField_eq_iff (by decide +kernel) (ascii "key")).mpr (by decide +kernel)

/-- At the end of the URL, a parameter without a value stays where it is. -/
theorem last_parameter_kept :
    (removeQueryField (ascii "/x?a=1&key") (ascii "key") = ascii "/x?a=1&key" ∧
      withoutParameter (ascii "/x?a=1&key") (ascii "key") = ascii "/x?a=1") ∧
    (removeQueryField (ascii "/x?key=") (ascii "key") = ascii "/x?key=" ∧
      withoutParameter (ascii "/x?key=") (ascii "key") = ascii "/x") := by
  rw [removeQueryField_eq (by decide +kernel) (by decide +kernel),
    removeQueryField_eq (by decide +kernel) (by decide +kernel)]
  decide +kernel

end Anon.Dispatcher

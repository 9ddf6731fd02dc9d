import Anon.Dispatcher.RequestFields
import Anon.Lib.Split

/-!
# Looking for a parameter

`get_query_val` goes from one item of the query string to the next and compares. It stops as soon
as what is left has no room for the name and two further bytes.

* `parameter`: the value of a parameter in the query string, split at each `&`.
* `queryValLoop_eq`: the loop, as a search over the starts of the items.
* `looksUp_iff`: the query strings and names for which `get_query_val` gives this value.
-/

namespace Anon.Dispatcher

variable {field key s part rest item : Bytes}

/-! ## Items -/

/-- The name of an item, in front of its first `=`. -/
def itemName (item : Bytes) : Bytes := firstItem equals item

/-- The text behind the first `=` of an item. -/
def itemValue (item : Bytes) : Bytes := item.drop ((itemName item).length + 1)

/-- The value of the first parameter with the name `key` in a query string. -/
def parameter (query key : Bytes) : Option Bytes :=
  ((query.splitOn ampersand).find? fun item =>
    decide (equals ∈ item ∧ itemName item = key)).map itemValue

/-- A name that an item can have. -/
def ItemKey (key : Bytes) : Prop := equals ∉ key ∧ ampersand ∉ key

instance (key : Bytes) : Decidable (ItemKey key) := inferInstanceAs (Decidable (_ ∧ _))

theorem itemName_append_cons (h : equals ∉ key) (v : Bytes) :
    itemName (key ++ equals :: v) = key := firstItem_append_cons h v

theorem itemValue_append_cons (h : equals ∉ key) (v : Bytes) :
    itemValue (key ++ equals :: v) = v := by
  rw [itemValue, itemName_append_cons h, List.drop_append]
  simp

/-- An item with a `=`, taken apart. -/
theorem item_eq_append_cons (h : equals ∈ item) :
    item = itemName item ++ equals :: itemValue item := by
  obtain hnot | ⟨name, v, hname, rfl⟩ := split_cases equals item
  · exact absurd h hnot
  · rw [itemName_append_cons hname, itemValue_append_cons hname]

/-- What is in front of a separator is a part of the text. -/
theorem firstItem_prefix_self (sep : UInt8) (s : Bytes) : firstItem sep s <+: s :=
  List.takeWhile_prefix _

/-- There is no separator in an item. -/
theorem separator_notMem_firstItem (sep : UInt8) (s : Bytes) : sep ∉ firstItem sep s := by
  intro h
  have hne := List.mem_takeWhile_imp h
  exact absurd hne (by simp)

theorem itemKey_itemName (s : Bytes) : ItemKey (itemName (firstItem ampersand s)) := by
  refine ⟨separator_notMem_firstItem _ _, ?_⟩
  intro h
  have hmem := (firstItem_prefix_self equals (firstItem ampersand s)).subset h
  exact separator_notMem_firstItem ampersand s hmem

/-! ## The comparison -/

/-- At an item stand `field` and a `=`. -/
def Begins (field s : Bytes) : Prop := field ++ [equals] <+: s

instance (field s : Bytes) : Decidable (Begins field s) :=
  inferInstanceAs (Decidable (_ <+: _))

theorem begins_iff : Begins field s ↔ field <+: s ∧ s[field.length]? = some equals := by
  rw [Begins]
  constructor
  · rintro ⟨r, rfl⟩
    refine ⟨⟨equals :: r, by simp⟩, ?_⟩
    simp
  · rintro ⟨⟨r, rfl⟩, hget⟩
    rw [List.getElem?_append_right (le_refl _), Nat.sub_self] at hget
    cases r with
    | nil => exact absurd hget (by simp)
    | cons c r =>
      rw [List.getElem?_cons_zero, Option.some.injEq] at hget
      exact ⟨r, by rw [hget]; simp⟩

/-- The item at which `field` and a `=` stand. -/
theorem firstItem_of_begins (h : ItemKey key) (rest : Bytes) :
    firstItem ampersand (key ++ [equals] ++ rest) = key ++ equals :: firstItem ampersand rest := by
  have hname : ampersand ∉ key ++ [equals] := by
    rw [List.mem_append, not_or]
    exact ⟨h.2, by decide⟩
  rw [firstItem_append hname, List.append_assoc, List.singleton_append]

/-- For a name that an item can have, the comparison finds the items with this name. -/
theorem begins_iff_named (h : ItemKey key) :
    Begins key s ↔ equals ∈ firstItem ampersand s ∧ itemName (firstItem ampersand s) = key := by
  constructor
  · rintro ⟨r, rfl⟩
    rw [firstItem_of_begins h, itemName_append_cons h.1]
    exact ⟨by simp, rfl⟩
  · rintro ⟨hmem, hname⟩
    have hitem := item_eq_append_cons hmem
    rw [hname] at hitem
    obtain ⟨more, hmore⟩ := firstItem_prefix_self ampersand s
    refine ⟨itemValue (firstItem ampersand s) ++ more, ?_⟩
    calc key ++ [equals] ++ (itemValue (firstItem ampersand s) ++ more)
        = (key ++ equals :: itemValue (firstItem ampersand s)) ++ more := by simp
      _ = s := by rw [← hitem, hmore]

/-- The value that is taken from there is that of the item. -/
theorem firstItem_drop_of_begins (h : ItemKey key) (hbegins : Begins key s) :
    firstItem ampersand (s.drop (key.length + 1)) = itemValue (firstItem ampersand s) := by
  obtain ⟨r, rfl⟩ := hbegins
  rw [firstItem_of_begins h, itemValue_append_cons h.1, List.drop_left' (by simp)]

/-! ## The loop -/

theorem take_memchr (vs : Bytes) :
    (match memchr vs ampersand with
      | some ampr => some (vs.take ampr)
      | none => some vs) = some (firstItem ampersand vs) := by
  obtain h | ⟨part, rest, h, rfl⟩ := split_cases ampersand vs
  · rw [memchr_of_notMem h, firstItem_of_notMem h]
  · rw [memchr_append_cons h, firstItem_append_cons h]
    simp

/-- The loop ends when there is no room for the name and two further bytes. -/
theorem queryValLoop_of_short (h : ¬field.length + 1 < s.length) :
    queryValLoop field s = none := by
  rw [queryValLoop, if_neg h]

theorem queryValLoop_of_begins (hlong : field.length + 1 < s.length) (h : Begins field s) :
    queryValLoop field s = some (firstItem ampersand (s.drop (field.length + 1))) := by
  rw [queryValLoop, if_pos hlong, if_pos (begins_iff.mp h)]
  exact take_memchr _

theorem queryValLoop_last (hpart : ampersand ∉ part) (h : ¬Begins field part) :
    queryValLoop field part = none := by
  by_cases hlong : field.length + 1 < part.length
  · rw [queryValLoop, if_pos hlong, if_neg (mt begins_iff.mpr h)]
    split
    · next ampr hampr =>
      rw [memchr_of_notMem hpart] at hampr
      exact absurd hampr (by simp)
    · rfl
  · exact queryValLoop_of_short hlong

/-- From one item, the loop goes on to the next one. -/
theorem queryValLoop_more (hpart : ampersand ∉ part)
    (h : ¬(field.length + 1 < (part ++ ampersand :: rest).length ∧
      Begins field (part ++ ampersand :: rest))) :
    queryValLoop field (part ++ ampersand :: rest) = queryValLoop field rest := by
  by_cases hlong : field.length + 1 < (part ++ ampersand :: rest).length
  · have hnot : ¬Begins field (part ++ ampersand :: rest) := fun hbegins => h ⟨hlong, hbegins⟩
    rw [queryValLoop, if_pos hlong, if_neg (mt begins_iff.mpr hnot)]
    split
    · next ampr hampr =>
      rw [memchr_append_cons hpart] at hampr
      rw [← Option.some.inj hampr, List.drop_length_add_append, List.drop_one, List.tail_cons]
    · next hampr =>
      rw [memchr_append_cons hpart] at hampr
      exact absurd hampr (by simp)
  · rw [queryValLoop_of_short hlong, queryValLoop_of_short]
    rw [List.length_append, List.length_cons] at hlong
    omega

/-- The loop finds the first item at which `field` and a `=` stand, unless nothing is behind
them. -/
theorem queryValLoop_eq (field qs : Bytes) :
    queryValLoop field qs =
      ((starts ampersand qs).find? fun s =>
        decide (field.length + 1 < s.length ∧ Begins field s)).map
          fun s => firstItem ampersand (s.drop (field.length + 1)) := by
  induction qs using split_induction ampersand with
  | last part hpart =>
    rw [starts_of_notMem hpart]
    by_cases h : field.length + 1 < part.length ∧ Begins field part
    · rw [List.find?_cons_of_pos, Option.map_some]
      · exact queryValLoop_of_begins h.1 h.2
      · exact decide_eq_true h
    · rw [List.find?_cons_of_neg, List.find?_nil, Option.map_none]
      · by_cases hbegins : Begins field part
        · exact queryValLoop_of_short fun hlong => h ⟨hlong, hbegins⟩
        · exact queryValLoop_last hpart hbegins
      · rwa [decide_eq_true_eq]
  | more part rest hpart ih =>
    rw [starts_append_cons hpart]
    by_cases h : field.length + 1 < (part ++ ampersand :: rest).length ∧
        Begins field (part ++ ampersand :: rest)
    · rw [List.find?_cons_of_pos, Option.map_some]
      · exact queryValLoop_of_begins h.1 h.2
      · exact decide_eq_true h
    · rw [List.find?_cons_of_neg, queryValLoop_more hpart h]
      · exact ih
      · rwa [decide_eq_true_eq]

/-- What is left gets shorter, so behind a hit without enough text there is no other one. -/
theorem find?_starts_of_long (p : Bytes → Prop) [DecidablePred p] (n : ℕ) (s : Bytes) :
    ((starts ampersand s).find? fun t => decide (n < t.length ∧ p t)) =
      ((starts ampersand s).find? fun t => decide (p t)).filter fun t => decide (n < t.length) := by
  have hends : (starts ampersand s).Pairwise fun a b =>
      decide (n < b.length) = true → decide (n < a.length) = true := by
    apply (pairwise_starts ampersand s).imp
    intro a b hlt hb
    have hlong := of_decide_eq_true hb
    exact decide_eq_true (by omega)
  rw [← find?_and_of_pairwise hends]
  simp only [Bool.decide_and]

/-! ## Value lookup -/

/-- A parameter is found at the first start at which its name and a `=` stand. -/
theorem parameter_eq (h : ItemKey key) (query : Bytes) :
    parameter query key = ((starts ampersand query).find? fun s => decide (Begins key s)).map
      fun s => firstItem ampersand (s.drop (key.length + 1)) := by
  have hsame : (fun item => decide (equals ∈ item ∧ itemName item = key)) ∘ firstItem ampersand =
      fun s => decide (Begins key s) := by
    funext s
    exact decide_eq_decide.mpr (begins_iff_named h).symm
  rw [parameter, splitOn_eq_map_starts, List.find?_map, Option.map_map, hsame]
  apply Option.map_congr
  intro s hs
  have hbegins := List.find?_some (p := fun s => decide (Begins key s)) hs
  exact (firstItem_drop_of_begins h (of_decide_eq_true hbegins)).symm

/-- No item has a name with a `=` or an `&` in it. -/
theorem parameter_of_not_itemKey (h : ¬ItemKey key) (query : Bytes) :
    parameter query key = none := by
  rw [parameter, Option.map_eq_none_iff, List.find?_eq_none]
  intro item hitem hname
  rw [splitOn_eq_map_starts, List.mem_map] at hitem
  obtain ⟨s, -, rfl⟩ := hitem
  apply h
  rw [← (of_decide_eq_true hname).2]
  exact itemKey_itemName s

/-- Both forms of `get_query_val` give the value of the parameter, and for a parameter that is not
there the default or the exception. -/
structure LooksUp (request : HttpRequest) (key : Bytes) : Prop where
  default_form : ∀ dflt, request.getQueryVal key dflt false =
    .ok ((parameter request.query key).getD dflt)
  throwing_form : ∀ dflt, request.getQueryVal key dflt true =
    match parameter request.query key with
    | some val => .ok val
    | none => .error (.runtime (missingField key))

theorem looksUp_iff_loop (request : HttpRequest) (key : Bytes) :
    LooksUp request key ↔ queryValLoop key request.query = parameter request.query key := by
  constructor
  · intro h
    -- the throwing form tells the two cases apart
    have hthrow := h.throwing_form []
    rw [HttpRequest.getQueryVal, getQueryValS] at hthrow
    cases hloop : queryValLoop key request.query with
    | none =>
      cases hparam : parameter request.query key with
      | none => rfl
      | some val => simp [hloop, hparam] at hthrow
    | some val =>
      cases hparam : parameter request.query key with
      | none => simp [hloop, hparam] at hthrow
      | some val' => simpa [hloop, hparam] using hthrow
  · intro h
    constructor
    · intro dflt
      rw [HttpRequest.getQueryVal, getQueryValS, h]
      cases parameter request.query key <;> rfl
    · intro dflt
      rw [HttpRequest.getQueryVal, getQueryValS, h]
      cases parameter request.query key <;> rfl

/-- A byte stands behind the name and the `=` of the first item with the name, and behind a name
that no item can have. -/
def FoundAsNamed (query key : Bytes) : Prop :=
  if ItemKey key then
    ∀ s ∈ (starts ampersand query).find? fun s => decide (Begins key s), key.length + 1 < s.length
  else ∀ s ∈ starts ampersand query, Begins key s → s.length ≤ key.length + 1

instance (query key : Bytes) : Decidable (FoundAsNamed query key) :=
  inferInstanceAs (Decidable (ite _ _ _))

/-- Exactly when something stands behind the `=` of the first item with the name, `get_query_val`
finds it as the query string split at each `&` has it. -/
theorem looksUp_iff (request : HttpRequest) (key : Bytes) :
    LooksUp request key ↔ FoundAsNamed request.query key := by
  rw [looksUp_iff_loop, queryValLoop_eq, FoundAsNamed]
  by_cases hkey : ItemKey key
  · rw [parameter_eq hkey, find?_starts_of_long, if_pos hkey]
    cases (starts ampersand request.query).find? fun s => decide (Begins key s) with
    | none => simp
    | some s => by_cases hlong : key.length + 1 < s.length <;> simp [Option.filter, hlong]
  · rw [parameter_of_not_itemKey hkey, if_neg hkey, Option.map_eq_none_iff, List.find?_eq_none]
    constructor
    · intro h s hs hbegins
      by_contra hlong
      exact h s hs (decide_eq_true ⟨by omega, hbegins⟩)
    · intro h s hs hhit
      obtain ⟨hlong, hbegins⟩ := of_decide_eq_true hhit
      have hle := h s hs hbegins
      omega

/-- The last parameter is missed when its value is empty. -/
theorem empty_last_value_missed :
    parameter (ascii "a=1&key=") (ascii "key") = some [] ∧
      ¬LooksUp ⟨ascii "GET", ascii "/", ascii "a=1&key=", []⟩ (ascii "key") := by
  refine ⟨by decide +kernel, ?_⟩
  intro h
  have hloop := (looksUp_iff_loop _ _).mp h
  rw [queryValLoop_eq] at hloop
  exact absurd hloop (by decide +kernel)

end Anon.Dispatcher

import Anon.Dispatcher.Dispatch
import Anon.Lib.Except

/-!
# The items of a query string

`extract_params` looks for a query string item with a loop over the occurrences of `item=`. Taken
apart at each `&`, the query string is a list of parts, and what the loop finds is the first part
that begins with `item=`.

* `valueIn`: the value of the first part that begins with `item=`.
* `queryValue_eq`: the loop finds this value.
* `ampersand_notMem_queryStringItems`: no item of a path specification has an `&` in it.
-/

namespace Anon.Dispatcher

variable {item : Bytes}

/-- The value of the first of the parts that begins with `item=`. -/
def valueIn (item : Bytes) (parts : List Bytes) : Option Bytes :=
  parts.findSome? fun part =>
    if item ++ ascii "=" <+: part then some (part.drop (item.length + 1)) else none

theorem valueIn_cons_of_begins {part : Bytes} (h : item ++ ascii "=" <+: part)
    (parts : List Bytes) : valueIn item (part :: parts) = some (part.drop (item.length + 1)) := by
  rw [valueIn, List.findSome?_cons, if_pos h]

theorem valueIn_cons_of_not_begins {part : Bytes} (h : ¬item ++ ascii "=" <+: part)
    (parts : List Bytes) : valueIn item (part :: parts) = valueIn item parts := by
  rw [valueIn, List.findSome?_cons, if_neg h, valueIn]

theorem needle_ne_nil : item ++ ascii "=" ≠ [] := by
  simp [ascii]

theorem ampersand_notMem_needle (hamp : ampersand ∉ item) : ampersand ∉ item ++ ascii "=" := by
  rw [List.mem_append, not_or]
  exact ⟨hamp, by decide⟩

/-- An `&` stands at the end of a text without one. -/
theorem strstr_ampersand_append {s : Bytes} (h : ampersand ∉ s) (rest : Bytes) :
    strstr (s ++ ampersand :: rest) (ascii "&") = some s.length := by
  induction s with
  | nil =>
    apply strstr_eq_some_zero_iff.mpr
    exact ⟨rest, rfl⟩
  | cons c s ih =>
    have hc : ¬ascii "&" <+: c :: (s ++ ampersand :: rest) := by
      intro hbegins
      have heq : ampersand = c := (List.cons_prefix_cons.mp hbegins).1
      exact h (heq ▸ List.mem_cons_self)
    rw [List.cons_append, strstr_cons, if_neg hc, ih fun hmem => h (List.mem_cons_of_mem _ hmem)]
    rfl

theorem strstr_ampersand_of_notMem {s : Bytes} (h : ampersand ∉ s) :
    strstr s (ascii "&") = none := by
  induction s with
  | nil => rfl
  | cons c s ih =>
    have hc : ¬ascii "&" <+: c :: s := by
      intro hbegins
      have heq : ampersand = c := (List.cons_prefix_cons.mp hbegins).1
      exact h (heq ▸ List.mem_cons_self)
    rw [strstr_cons, if_neg hc, ih fun hmem => h (List.mem_cons_of_mem _ hmem)]
    rfl

/-- The value behind the position that the loop ends with. -/
def valueAt (quer item : Bytes) (pos : ℕ) : Bytes :=
  (quer.drop (pos + (item.length + 1))).takeWhile fun c => c ≠ ampersand

theorem queryValue_eq_getD (quer item : Bytes) : queryValue quer item =
    ((findItem quer item (quer.length + 1) 0).map (valueAt quer item)).getD [] := by
  unfold queryValue
  cases findItem quer item (quer.length + 1) 0 with
  | none => rfl
  | some pos => rfl

/-- The loop depends on the position only through the next occurrence. -/
theorem findItem_congr {quer : Bytes} {pos pos' : ℕ} (rounds : ℕ)
    (h : findFrom quer (item ++ ascii "=") pos = findFrom quer (item ++ ascii "=") pos') :
    findItem quer item rounds pos = findItem quer item rounds pos' := by
  cases rounds with
  | zero => rfl
  | succ rounds => rw [findItem, findItem, h]

/-- `pos` is at the start of a part, or at the `&` in front of it. -/
structure AtPart (before : Bytes) (pos : ℕ) : Prop where
  pos : pos = before.length ∨ pos + 1 = before.length ∧ before[pos]? = some ampersand
  start : before = [] ∨ before[before.length - 1]? = some ampersand

variable {before part : Bytes} {pos rounds : ℕ}

/-- The next occurrence from there is the first one in the text that is ahead. -/
theorem findFrom_atPart (hamp : ampersand ∉ item) (hat : AtPart before pos) (ahead : Bytes) :
    findFrom (before ++ ahead) (item ++ ascii "=") pos =
      (strstr ahead (item ++ ascii "=")).map (· + before.length) := by
  unfold findFrom
  obtain hpos | ⟨hpos, hget⟩ := hat.pos
  · rw [hpos, List.drop_left]
  · -- the `&` itself is not the start of an occurrence
    have hdrop : (before ++ ahead).drop pos = ampersand :: ahead := by
      have hlt : pos < before.length := by omega
      have hone : before.drop pos = [ampersand] := by
        rw [List.drop_eq_getElem_cons hlt, hpos, List.drop_length]
        rw [List.getElem?_eq_getElem hlt] at hget
        rw [Option.some.inj hget]
      rw [List.drop_append_of_le_length hlt.le, hone]
      rfl
    have hno : ¬item ++ ascii "=" <+: ampersand :: ahead := by
      intro hbegins
      have hnil : item ++ ascii "=" <+: [] :=
        (prefix_append_cons_iff (ampersand_notMem_needle hamp) [] ahead).mp hbegins
      exact needle_ne_nil (List.prefix_nil.mp hnil)
    rw [hdrop, strstr_cons, if_neg hno, Option.map_map]
    congr 1
    funext i
    show i + 1 + pos = i + before.length
    omega

/-- The `&` behind a part is in front of the next one. -/
theorem atPart_next (before part : Bytes) :
    AtPart (before ++ part ++ [ampersand]) (before.length + part.length) where
  pos := by
    right
    rw [← List.length_append]
    refine ⟨?_, List.getElem?_concat_length⟩
    rw [List.length_append, List.length_append, List.length_append, List.length_singleton]
  start := by
    right
    rw [List.length_append, List.length_singleton, Nat.add_sub_cancel]
    exact List.getElem?_concat_length

/-- The text behind a part: nothing, or the `&` and the next parts. -/
def Tail (tail : Bytes) : Prop := tail = [] ∨ ∃ rest, tail = ampersand :: rest

/-- Where the part begins with `item=`, the loop ends at its start. -/
theorem findItem_of_begins (hamp : ampersand ∉ item) (hat : AtPart before pos)
    (hbegins : item ++ ascii "=" <+: part) (tail : Bytes) (rounds : ℕ) :
    findItem (before ++ (part ++ tail)) item (rounds + 1) pos = some before.length := by
  have hfind : findFrom (before ++ (part ++ tail)) (item ++ ascii "=") pos =
      some before.length := by
    have hzero := strstr_eq_some_zero_iff.mpr (hbegins.trans (List.prefix_append part tail))
    rw [findFrom_atPart hamp hat, hzero]
    show some (0 + before.length) = _
    rw [Nat.zero_add]
  have hstart : before.length = 0 ∨
      (before ++ (part ++ tail))[before.length - 1]? = some ampersand := by
    obtain hnil | hget := hat.start
    · left
      rw [hnil]
      rfl
    · by_cases hzero : before.length = 0
      · exact .inl hzero
      · right
        rw [List.getElem?_append_left (by omega)]
        exact hget
  rw [findItem, hfind]
  exact if_pos hstart

/-- The value there is the rest of the part. -/
theorem valueAt_of_begins (hbegins : item ++ ascii "=" <+: part) (hpart : ampersand ∉ part)
    {tail : Bytes} (htail : Tail tail) : valueAt (before ++ (part ++ tail)) item before.length =
      part.drop (item.length + 1) := by
  have hlen : item.length + 1 ≤ part.length := by
    have hle := hbegins.length_le
    rwa [List.length_append] at hle
  have hdrop : (before ++ (part ++ tail)).drop (before.length + (item.length + 1)) =
      part.drop (item.length + 1) ++ tail := by
    rw [List.drop_append, List.drop_eq_nil_of_le (by omega), Nat.add_sub_cancel_left,
      List.nil_append, List.drop_append_of_le_length hlen]
  rw [valueAt, hdrop, List.takeWhile_append_of_pos]
  · obtain rfl | ⟨rest, rfl⟩ := htail
    · exact List.append_nil _
    · rw [List.takeWhile_cons_of_neg (by simp), List.append_nil]
  · intro c hc
    have hne : c ≠ ampersand := by
      rintro rfl
      exact hpart (List.mem_of_mem_drop hc)
    exact decide_eq_true hne

/-- Where an occurrence is inside the part, the loop goes on at the next `&`. -/
theorem findItem_of_interior (hamp : ampersand ∉ item) (hat : AtPart before pos)
    (hpart : ampersand ∉ part) {tail : Bytes} (htail : Tail tail) {i : ℕ}
    (hi : strstr part (item ++ ascii "=") = some (i + 1)) (rounds : ℕ) :
    findItem (before ++ (part ++ tail)) item (rounds + 1) pos =
      if tail = [] then none
      else findItem (before ++ (part ++ tail)) item rounds (before.length + part.length) := by
  have hlen := add_length_le_of_strstr_eq_some hi
  rw [List.length_append] at hlen
  have hone : (ascii "=").length = 1 := rfl
  have hfind : findFrom (before ++ (part ++ tail)) (item ++ ascii "=") pos =
      some (i + 1 + before.length) := by
    rw [findFrom_atPart hamp hat]
    obtain rfl | ⟨rest, rfl⟩ := htail
    · rw [List.append_nil, hi]
      rfl
    · rw [strstr_append_cons needle_ne_nil (ampersand_notMem_needle hamp), hi]
      rfl
  have hno : ¬(i + 1 + before.length = 0 ∨
      (before ++ (part ++ tail))[i + 1 + before.length - 1]? = some ampersand) := by
    intro hor
    obtain hzero | hget := hor
    · omega
    · rw [List.getElem?_append_right (by omega), List.getElem?_append_left (by omega)] at hget
      exact hpart (List.mem_of_getElem? hget)
  have hdrop : (before ++ (part ++ tail)).drop (i + 1 + before.length + (item.length + 1)) =
      part.drop (i + 1 + (item.length + 1)) ++ tail := by
    rw [List.drop_append, List.drop_eq_nil_of_le (by omega), List.nil_append,
      ← List.drop_append_of_le_length (by omega)]
    congr 1
    omega
  have hnotMem : ampersand ∉ part.drop (i + 1 + (item.length + 1)) := fun hmem =>
    hpart (List.mem_of_mem_drop hmem)
  have hnext : findFrom (before ++ (part ++ tail)) (ascii "&")
      (i + 1 + before.length + (item.length + 1)) =
        if tail = [] then none else some (before.length + part.length) := by
    rw [findFrom, hdrop]
    obtain rfl | ⟨rest, rfl⟩ := htail
    · rw [if_pos rfl, List.append_nil, strstr_ampersand_of_notMem hnotMem]
      rfl
    · rw [if_neg (by simp), strstr_ampersand_append hnotMem, List.length_drop, Option.map_some,
        Option.some.injEq]
      omega
  rw [findItem, hfind]
  show (if _ then _ else _) = _
  rw [if_neg hno, hnext]
  by_cases hnil : tail = []
  · rw [if_pos hnil, if_pos hnil]
  · rw [if_neg hnil, if_neg hnil]

/-- Where the part has no occurrence, the loop goes on as from the next `&`. -/
theorem findItem_of_none (hamp : ampersand ∉ item) (hat : AtPart before pos) {tail : Bytes}
    (htail : Tail tail) (hnone : strstr part (item ++ ascii "=") = none) (rounds : ℕ) :
    findItem (before ++ (part ++ tail)) item (rounds + 1) pos =
      if tail = [] then none
      else findItem (before ++ (part ++ tail)) item (rounds + 1) (before.length + part.length) := by
  obtain rfl | ⟨rest, rfl⟩ := htail
  · have hfind : findFrom (before ++ (part ++ [])) (item ++ ascii "=") pos = none := by
      rw [findFrom_atPart hamp hat, List.append_nil, hnone]
      rfl
    rw [findItem, hfind]
    exact (if_pos rfl).symm
  · have hsplit : before ++ (part ++ ampersand :: rest) =
        before ++ part ++ [ampersand] ++ rest := by
      simp
    rw [if_neg (by simp)]
    apply findItem_congr
    rw [findFrom_atPart hamp hat, hsplit, findFrom_atPart hamp (atPart_next before part),
      strstr_append_cons needle_ne_nil (ampersand_notMem_needle hamp), hnone, Option.none_or,
      Option.map_map]
    congr 1
    funext i
    simp
    omega

/-- A text is a part without an `&` and the text behind it. -/
theorem exists_part (ahead : Bytes) :
    ∃ part tail, ahead = part ++ tail ∧ ampersand ∉ part ∧ Tail tail := by
  refine ⟨ahead.takeWhile fun c => c ≠ ampersand, ahead.dropWhile fun c => c ≠ ampersand,
    List.takeWhile_append_dropWhile.symm, ?_, ?_⟩
  · intro hmem
    exact absurd (List.mem_takeWhile_imp hmem) (by simp)
  · cases htail : ahead.dropWhile fun c => c ≠ ampersand with
    | nil => exact .inl rfl
    | cons c rest =>
      have hhead := List.head?_dropWhile_not (fun c => decide (c ≠ ampersand)) ahead
      rw [htail] at hhead
      have hc : c = ampersand := by simpa using hhead
      exact .inr ⟨rest, by rw [hc]⟩

/-- The loop finds the value of the first part that begins with `item=`. -/
theorem map_findItem (hamp : ampersand ∉ item) (n : ℕ) :
    ∀ {before ahead : Bytes} {pos rounds : ℕ}, ahead.length < n → AtPart before pos →
      ahead.count ampersand < rounds →
      (findItem (before ++ ahead) item rounds pos).map (valueAt (before ++ ahead) item) =
        valueIn item (ahead.splitOn ampersand) := by
  induction n with
  | zero =>
    intro before ahead pos rounds hlen
    exact absurd hlen (Nat.not_lt_zero _)
  | succ n ih =>
    intro before ahead pos rounds hlen hat hrounds
    obtain ⟨rounds, rfl⟩ := Nat.exists_eq_succ_of_ne_zero (Nat.ne_zero_of_lt hrounds)
    obtain ⟨part, tail, rfl, hpart, htail⟩ := exists_part ahead
    -- what comes behind the part, after `more` rounds at most
    have hbehind : ∀ rest more, tail = ampersand :: rest → rest.count ampersand < more →
        (findItem (before ++ (part ++ tail)) item more (before.length + part.length)).map
          (valueAt (before ++ (part ++ tail)) item) =
            valueIn item (rest.splitOn ampersand) := by
      intro rest more htail hmore
      have hsplit : before ++ (part ++ tail) = before ++ part ++ [ampersand] ++ rest := by
        rw [htail]
        simp
      rw [hsplit]
      apply ih _ (atPart_next before part) hmore
      rw [htail, List.length_append, List.length_cons] at hlen
      omega
    have hcount : ∀ rest, tail = ampersand :: rest → rest.count ampersand < rounds := by
      intro rest htail
      rw [htail, List.count_append, List.count_cons_self] at hrounds
      omega
    by_cases hbegins : item ++ ascii "=" <+: part
    · have hvalue : valueIn item ((part ++ tail).splitOn ampersand) =
          some (part.drop (item.length + 1)) := by
        obtain rfl | ⟨rest, rfl⟩ := htail
        · rw [List.append_nil, List.splitOn_eq_singleton hpart, valueIn_cons_of_begins hbegins]
        · rw [List.splitOn_append_cons_self_of_not_mem hpart, valueIn_cons_of_begins hbegins]
      rw [findItem_of_begins hamp hat hbegins, hvalue, Option.map_some,
        valueAt_of_begins hbegins hpart htail]
    · have hvalue : valueIn item ((part ++ tail).splitOn ampersand) =
          if tail = [] then none else valueIn item (tail.tail.splitOn ampersand) := by
        obtain rfl | ⟨rest, rfl⟩ := htail
        · rw [List.append_nil, List.splitOn_eq_singleton hpart,
            valueIn_cons_of_not_begins hbegins]
          rfl
        · rw [List.splitOn_append_cons_self_of_not_mem hpart,
            valueIn_cons_of_not_begins hbegins]
          rfl
      have hloop : ∃ more, rounds ≤ more ∧
          findItem (before ++ (part ++ tail)) item (rounds + 1) pos =
            if tail = [] then none
            else findItem (before ++ (part ++ tail)) item more (before.length + part.length) := by
        cases hstr : strstr part (item ++ ascii "=") with
        | none => exact ⟨rounds + 1, by omega, findItem_of_none hamp hat htail hstr rounds⟩
        | some i =>
          cases i with
          | zero => exact absurd (strstr_eq_some_zero_iff.mp hstr) hbegins
          | succ i =>
            exact ⟨rounds, le_rfl, findItem_of_interior hamp hat hpart htail hstr rounds⟩
      obtain ⟨more, hmore, hloop⟩ := hloop
      rw [Nat.succ_eq_add_one, hloop, hvalue]
      obtain rfl | ⟨rest, rfl⟩ := htail
      · rfl
      · rw [if_neg (by simp), if_neg (by simp)]
        apply hbehind rest more rfl
        have hlt := hcount rest rfl
        omega

/-- The value of an item is that of the first part of the query string that begins with
`item=`, and empty without one. -/
theorem queryValue_eq (hamp : ampersand ∉ item) (quer : Bytes) :
    queryValue quer item = (valueIn item (quer.splitOn ampersand)).getD [] := by
  have hat : AtPart [] 0 := ⟨.inl rfl, .inl rfl⟩
  have hcount : quer.count ampersand < quer.length + 1 :=
    Nat.lt_succ_of_le List.count_le_length
  rw [queryValue_eq_getD, ← map_findItem hamp _ (Nat.lt_succ_self quer.length) hat hcount]
  rfl

/-! ## The items of a path specification -/

theorem ampersand_notMem_of_mem_splitOn (n : ℕ) :
    ∀ {s : Bytes}, s.length < n → item ∈ s.splitOn ampersand → ampersand ∉ item := by
  induction n with
  | zero =>
    intro s hlen
    exact absurd hlen (Nat.not_lt_zero _)
  | succ n ih =>
    intro s hlen hmem
    obtain ⟨part, tail, rfl, hpart, htail⟩ := exists_part s
    obtain rfl | ⟨rest, rfl⟩ := htail
    · rw [List.append_nil, List.splitOn_eq_singleton hpart, List.mem_singleton] at hmem
      rw [hmem]
      exact hpart
    · rw [List.splitOn_append_cons_self_of_not_mem hpart] at hmem
      obtain rfl | hmem := List.mem_cons.mp hmem
      · exact hpart
      · apply ih _ hmem
        rw [List.length_append, List.length_cons] at hlen
        omega

/-- No query string item has an `&` in it. -/
theorem ampersand_notMem_queryStringItems {pathSpec : Bytes} {h : RequestHelper}
    (hok : requestMappingHelper pathSpec = .ok h) (hitem : item ∈ h.queryStringItems) :
    ampersand ∉ item := by
  unfold requestMappingHelper at hok
  split at hok
  · exact absurd hok (by simp)
  · obtain ⟨items, -, hok⟩ := bind_eq_ok.mp hok
    simp only at hok
    split at hok
    · exact absurd hok (by simp)
    · rw [← Except.ok.inj hok] at hitem
      have hmem : item ∈ splitAtAnd items.1 := hitem
      exact ampersand_notMem_of_mem_splitOn _ (Nat.lt_succ_self _) (List.mem_of_mem_filter hmem)

end Anon.Dispatcher

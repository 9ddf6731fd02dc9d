import Anon.Dispatcher.PercentCodec
import Anon.Dispatcher.PlainExpressions
import Anon.Dispatcher.QueryItems

/-!
# Query parameters in transport

A client percent-encodes the keys and the values of its parameters and joins them with `=` and
`&`. `extract_params` decodes the whole query string before it takes it apart, so an `&` or a `=`
that was data is a separator again.

* `queryString`: what the client sends.
* `Survives`: the pairs leave the value of an item as it was.
* `extractParams_queryString_iff`: `extract_params` yields the values of the pairs exactly for the
  items that survive.
-/

namespace Anon.Dispatcher

/-! ## The query string of a list of pairs -/

/-- A key and its value, as the client sends them. -/
def encodedPair (pair : Bytes × Bytes) : Bytes :=
  percentEncode pair.1 ++ ascii "=" ++ percentEncode pair.2

/-- The encoded pairs, joined with `&`. -/
def queryString (pairs : List (Bytes × Bytes)) : Bytes :=
  (ascii "&").intercalate (pairs.map encodedPair)

/-- A key and its value, as they are decoded. -/
def pairText (pair : Bytes × Bytes) : Bytes := pair.1 ++ ascii "=" ++ pair.2

/-- The parts between `&`s that the decoded text of a pair falls into. -/
def pieces (pair : Bytes × Bytes) : List Bytes := (pairText pair).splitOn ampersand

/-- The value of the first pair with the key, empty if there is none. -/
def firstValue (item : Bytes) (pairs : List (Bytes × Bytes)) : Bytes :=
  ((pairs.find? fun pair => pair.1 = item).map Prod.snd).getD []

/-- The value for the item that the text of the pairs in front of the first one with the key
seems to contain. -/
def strayValue (item : Bytes) (pairs : List (Bytes × Bytes)) : Option Bytes :=
  valueIn item ((pairs.takeWhile fun pair => pair.1 ≠ item).flatMap pieces)

/-- No pair in front seems to contain a value for the item, or just the right one, and without
such a pair the value has no `&` in it. -/
def Survives (item : Bytes) (pairs : List (Bytes × Bytes)) : Prop :=
  match strayValue item pairs with
  | some value => value = firstValue item pairs
  | none => ampersand ∉ firstValue item pairs

/-- No NUL is in the keys and values. -/
def NulFree (pairs : List (Bytes × Bytes)) : Prop :=
  ∀ pair ∈ pairs, (0 : UInt8) ∉ pair.1 ∧ (0 : UInt8) ∉ pair.2

variable {item : Bytes} {pairs : List (Bytes × Bytes)}

theorem intercalate_pairTexts (pair next : Bytes × Bytes) (rest : List (Bytes × Bytes)) :
    (ascii "&").intercalate ((pair :: next :: rest).map pairText) =
      pairText pair ++ ampersand :: (ascii "&").intercalate ((next :: rest).map pairText) := by
  rw [List.map_cons, List.map_cons, List.intercalate_cons_cons, List.append_assoc]
  rfl

/-! ## Decoding -/

theorem zero_notMem_encodedPair (pair : Bytes × Bytes) : 0 ∉ encodedPair pair := by
  unfold encodedPair
  rw [List.mem_append, List.mem_append, not_or, not_or]
  exact ⟨⟨zero_notMem_percentEncode _, by decide⟩, zero_notMem_percentEncode _⟩

/-- No NUL is in the query string. -/
theorem zero_notMem_queryString : ∀ pairs : List (Bytes × Bytes), 0 ∉ queryString pairs
  | [] => List.not_mem_nil
  | [pair] => by
    show 0 ∉ (ascii "&").intercalate [encodedPair pair]
    rw [List.intercalate_singleton]
    exact zero_notMem_encodedPair pair
  | pair :: next :: rest => by
    have ih := zero_notMem_queryString (next :: rest)
    show 0 ∉ (ascii "&").intercalate (encodedPair pair :: encodedPair next :: _)
    rw [List.intercalate_cons_cons, List.mem_append, List.mem_append, not_or, not_or]
    exact ⟨⟨zero_notMem_encodedPair pair, by decide⟩, ih⟩

/-- An encoded pair at the front of a text is decoded to its own text. -/
theorem percentDecodeFrom_encodedPair {pair : Bytes × Bytes}
    (hnul : (0 : UInt8) ∉ pair.1 ∧ (0 : UInt8) ∉ pair.2) (rest : Bytes) :
    percentDecodeFrom 0 (encodedPair pair ++ rest) =
      (pairText pair ++ ·) <$> percentDecodeFrom 0 rest := by
  have hfilter : ∀ s : Bytes, (0 : UInt8) ∉ s → s.filter (· ≠ 0) = s := by
    intro s hs
    rw [List.filter_eq_self]
    intro c hc
    exact decide_eq_true fun hzero => hs (hzero ▸ hc)
  have hequals : ∀ t, percentDecodeFrom 0 (ascii "=" ++ t) = (61 :: ·) <$> percentDecodeFrom 0 t :=
    percentDecodeFrom_cons_of_ne (by decide)
  unfold encodedPair pairText
  rw [List.append_assoc, List.append_assoc, percentDecodeFrom_append, hequals,
    percentDecodeFrom_append, hfilter _ hnul.1, hfilter _ hnul.2]
  cases percentDecodeFrom 0 rest with
  | error e => rfl
  | ok dec =>
    apply congrArg Except.ok
    show pair.1 ++ (61 :: (pair.2 ++ dec)) = pair.1 ++ ascii "=" ++ pair.2 ++ dec
    rw [List.append_assoc, List.append_assoc]
    rfl

/-- The query string is decoded to the texts of the pairs, joined with `&`. -/
theorem percentDecodeFrom_queryString : ∀ {pairs : List (Bytes × Bytes)}, NulFree pairs →
    percentDecodeFrom 0 (queryString pairs) =
      .ok ((ascii "&").intercalate (pairs.map pairText))
  | [], _ => rfl
  | [pair], hnul => by
    have hpair := percentDecodeFrom_encodedPair (hnul pair List.mem_cons_self) []
    rw [List.append_nil] at hpair
    show percentDecodeFrom 0 ((ascii "&").intercalate [encodedPair pair]) = _
    rw [List.intercalate_singleton, hpair]
    apply congrArg Except.ok
    rw [List.map_singleton, List.intercalate_singleton]
    exact List.append_nil _
  | pair :: next :: rest, hnul => by
    have hrest : NulFree (next :: rest) := fun p hp => hnul p (List.mem_cons_of_mem _ hp)
    have ih := percentDecodeFrom_queryString hrest
    have hand : ∀ t, percentDecodeFrom 0 (ascii "&" ++ t) =
        (ampersand :: ·) <$> percentDecodeFrom 0 t :=
      percentDecodeFrom_cons_of_ne (by decide)
    have hsplit : queryString (pair :: next :: rest) =
        encodedPair pair ++ (ascii "&" ++ queryString (next :: rest)) := by
      show (ascii "&").intercalate (encodedPair pair :: encodedPair next :: _) = _
      rw [List.intercalate_cons_cons, List.append_assoc]
      rfl
    rw [hsplit, percentDecodeFrom_encodedPair (hnul pair List.mem_cons_self), hand, ih,
      intercalate_pairTexts]
    rfl

theorem percentDecode_queryString (hnul : NulFree pairs) :
    percentDecode (queryString pairs) = .ok ((ascii "&").intercalate (pairs.map pairText)) := by
  rw [percentDecode, cString_eq_self (zero_notMem_queryString pairs),
    percentDecodeFrom_queryString hnul]

/-! ## Taking the decoded text apart -/

/-- The parts of the decoded text are the pieces of the pairs. -/
theorem splitOn_pairTexts : ∀ {pairs : List (Bytes × Bytes)}, pairs ≠ [] →
    ((ascii "&").intercalate (pairs.map pairText)).splitOn ampersand = pairs.flatMap pieces
  | [], hne => absurd rfl hne
  | [pair], _ => by
    rw [List.map_singleton, List.intercalate_singleton, List.flatMap_singleton]
    rfl
  | pair :: next :: rest, _ => by
    have ih := splitOn_pairTexts (List.cons_ne_nil next rest)
    rw [intercalate_pairTexts, List.splitOn_append_cons_self, ih]
    rfl

/-- The value of an item in the decoded text is that in the pieces of the pairs. -/
theorem queryValue_pairTexts (hamp : ampersand ∉ item) (pairs : List (Bytes × Bytes)) :
    queryValue ((ascii "&").intercalate (pairs.map pairText)) item =
      (valueIn item (pairs.flatMap pieces)).getD [] := by
  rw [queryValue_eq hamp]
  by_cases hne : pairs = []
  · -- an empty text has one empty part, which no item is in
    rw [hne]
    show (valueIn item ([].splitOn ampersand)).getD [] = (valueIn item []).getD []
    rw [List.splitOn_nil, valueIn_cons_of_not_begins]
    intro hbegins
    exact needle_ne_nil (List.prefix_nil.mp hbegins)
  · rw [splitOn_pairTexts hne]

theorem valueIn_append (front back : List Bytes) :
    valueIn item (front ++ back) = (valueIn item front).or (valueIn item back) :=
  List.findSome?_append

/-- The first piece of a pair with the key holds the value up to its first `&`. -/
theorem valueIn_pieces (hamp : ampersand ∉ item) (value : Bytes) (more : List Bytes) :
    valueIn item (pieces (item, value) ++ more) =
      some (value.takeWhile fun c => c ≠ ampersand) := by
  obtain ⟨part, tail, rfl, hpart, htail⟩ := exists_part value
  have hfront : ampersand ∉ item ++ ascii "=" ++ part := by
    rw [List.mem_append, not_or]
    exact ⟨ampersand_notMem_needle hamp, hpart⟩
  have hcut : ∃ others, pieces (item, part ++ tail) = (item ++ ascii "=" ++ part) :: others := by
    unfold pieces pairText
    rw [← List.append_assoc]
    obtain rfl | ⟨rest, rfl⟩ := htail
    · rw [List.append_nil, List.splitOn_eq_singleton hfront]
      exact ⟨[], rfl⟩
    · rw [List.splitOn_append_cons_self_of_not_mem hfront]
      exact ⟨_, rfl⟩
  have hvalue : (part ++ tail).takeWhile (fun c => c ≠ ampersand) = part := by
    have hall : ∀ c ∈ part, decide (c ≠ ampersand) = true := by
      intro c hc
      exact decide_eq_true fun heq => hpart (heq ▸ hc)
    rw [List.takeWhile_append_of_pos hall]
    obtain rfl | ⟨rest, rfl⟩ := htail
    · exact List.append_nil _
    · rw [List.takeWhile_cons_of_neg (by simp), List.append_nil]
  have hlen : item.length + 1 = (item ++ ascii "=").length := by
    rw [List.length_append]
    rfl
  obtain ⟨others, hcut⟩ := hcut
  rw [hcut, List.cons_append, valueIn_cons_of_begins (List.prefix_append _ _), hvalue, hlen,
    List.drop_left]

/-- Up to its first `&`, a text is itself if it has none. -/
theorem takeWhile_ampersand_eq_iff (value : Bytes) :
    (value.takeWhile fun c => c ≠ ampersand) = value ↔ ampersand ∉ value := by
  rw [List.takeWhile_eq_self_iff]
  constructor
  · intro hall hmem
    exact absurd (hall _ hmem) (by decide)
  · intro hno c hc
    exact decide_eq_true fun heq => hno (heq ▸ hc)

/-- The pieces of the pairs give the item its value exactly if it survives. -/
theorem valueIn_pairs_iff (hamp : ampersand ∉ item) (pairs : List (Bytes × Bytes)) :
    (valueIn item (pairs.flatMap pieces)).getD [] = firstValue item pairs ↔
      Survives item pairs := by
  have hsplit : pairs.flatMap pieces =
      (pairs.takeWhile fun pair => pair.1 ≠ item).flatMap pieces ++
        (pairs.dropWhile fun pair => pair.1 ≠ item).flatMap pieces := by
    rw [← List.flatMap_append, List.takeWhile_append_dropWhile]
  have hfirst : pairs.find? (fun pair => pair.1 = item) =
      (pairs.dropWhile fun pair => pair.1 ≠ item).head? := by
    rw [← List.find?_not_eq_head?_dropWhile]
    congr 1
    ext pair
    simp
  rw [hsplit, valueIn_append, Survives]
  show ((strayValue item pairs).or _).getD [] = _ ↔ _
  cases strayValue item pairs with
  | some value => rfl
  | none =>
    rw [Option.none_or]
    show _ ↔ ampersand ∉ firstValue item pairs
    unfold firstValue
    rw [hfirst]
    cases hdrop : pairs.dropWhile fun pair => pair.1 ≠ item with
    | nil => exact ⟨fun _ => List.not_mem_nil, fun _ => rfl⟩
    | cons pair rest =>
      have hkey := List.head?_dropWhile_not (fun pair => decide (pair.1 ≠ item)) pairs
      rw [hdrop] at hkey
      have hkey : pair.1 = item := by simpa using hkey
      have hpair : pair = (item, pair.2) := by rw [← hkey]
      rw [List.flatMap_cons, hpair, valueIn_pieces hamp]
      exact takeWhile_ampersand_eq_iff pair.2

/-! ## The parameters of a request -/

variable {h : RequestHelper} {request : HttpRequest}

/-- What `extract_params` finds in the query string of the pairs. -/
theorem queryParams_queryString {pathSpec : Bytes} (hok : requestMappingHelper pathSpec = .ok h)
    (hquery : request.query = queryString pairs) (hnul : NulFree pairs) :
    queryParams h request = .ok (h.queryStringItems.map fun item =>
      (valueIn item (pairs.flatMap pieces)).getD []) := by
  unfold queryParams
  by_cases hitems : 0 < h.queryStringItems.length
  · rw [if_pos hitems, hquery, percentDecode_queryString hnul]
    apply congrArg Except.ok
    apply List.map_congr_left
    intro item hitem
    exact queryValue_pairTexts (ampersand_notMem_queryStringItems hok hitem) pairs
  · rw [if_neg hitems, List.eq_nil_of_length_eq_zero (Nat.eq_zero_of_not_pos hitems)]
    rfl

/-- A request for a mapping, with the pairs in its query string: the function of the mapping gets
the values of the pairs exactly if each item of the mapping survives. -/
theorem extractParams_queryString_iff {fullMatch : Bytes → Bytes → Option (List Bytes)}
    {pathSpec : Bytes} {isOptions : Bool} {params headers : List Bytes}
    (hok : requestMappingHelper pathSpec = .ok h)
    (hquery : request.query = queryString pairs) (hnul : NulFree pairs)
    (hpath : pathParams fullMatch h request.path = some params)
    (hheaders : headerParams h request isOptions = .ok headers) :
    extractParams fullMatch h request isOptions = .ok (some
        (params ++ h.queryStringItems.map (fun item => firstValue item pairs) ++ headers)) ↔
      ∀ item ∈ h.queryStringItems, Survives item pairs := by
  have hextract : extractParams fullMatch h request isOptions = .ok (some
      (params ++ h.queryStringItems.map (fun item =>
        (valueIn item (pairs.flatMap pieces)).getD []) ++ headers)) := by
    unfold extractParams
    rw [hpath]
    show (queryParams h request >>= _) = _
    rw [queryParams_queryString hok hquery hnul, hheaders]
    rfl
  rw [hextract, Except.ok.injEq, Option.some.injEq, List.append_left_inj, List.append_right_inj,
    List.map_inj_left]
  constructor
  · intro hall item hitem
    have hamp := ampersand_notMem_queryStringItems hok hitem
    exact (valueIn_pairs_iff hamp pairs).mp (hall item hitem)
  · intro hall item hitem
    have hamp := ampersand_notMem_queryStringItems hok hitem
    exact (valueIn_pairs_iff hamp pairs).mpr (hall item hitem)

/-- Without an `&` in the pairs and without a `=` in keys and items, every item survives. -/
theorem survives_of_plain (hitem : 61 ∉ item) (hkeys : ∀ pair ∈ pairs, 61 ∉ pair.1)
    (hplain : ∀ pair ∈ pairs, ampersand ∉ pairText pair) : Survives item pairs := by
  have hfront : ∀ s t : Bytes, 61 ∉ s → (s ++ 61 :: t).takeWhile (fun c => c ≠ 61) = s := by
    intro s t hs
    have hall : ∀ c ∈ s, decide (c ≠ 61) = true := by
      intro c hc
      exact decide_eq_true fun heq => hs (heq ▸ hc)
    rw [List.takeWhile_append_of_pos hall, List.takeWhile_cons_of_neg (by simp), List.append_nil]
  have hbegins : ∀ pair ∈ pairs, pair.1 ≠ item → ¬item ++ ascii "=" <+: pairText pair := by
    intro pair hpair hne ⟨rest, hrest⟩
    have heq : item ++ 61 :: rest = pair.1 ++ 61 :: pair.2 := by
      simpa [pairText, ascii] using hrest
    apply hne
    rw [← hfront pair.1 pair.2 (hkeys pair hpair), ← heq, hfront item rest hitem]
  have hstray : strayValue item pairs = none := by
    unfold strayValue valueIn
    rw [List.findSome?_eq_none_iff]
    intro piece hpiece
    obtain ⟨pair, hfront, hcut⟩ := List.mem_flatMap.mp hpiece
    have hpair := (List.takeWhile_prefix _).subset hfront
    rw [pieces, List.splitOn_eq_singleton (hplain pair hpair), List.mem_singleton] at hcut
    have hne : pair.1 ≠ item := by simpa using List.mem_takeWhile_imp hfront
    rw [hcut, if_neg (hbegins pair hpair hne)]
  rw [Survives, hstray]
  show ampersand ∉ firstValue item pairs
  unfold firstValue
  cases hfind : pairs.find? fun pair => pair.1 = item with
  | none => exact List.not_mem_nil
  | some pair =>
    intro hmem
    apply hplain pair (List.mem_of_find?_eq_some hfind)
    rw [pairText, List.mem_append]
    exact .inr hmem

/-- A mapping for `/x?a&b`. -/
def itemsHelper : RequestHelper := ⟨ascii "/x", 0, ascii "/x", [ascii "a", ascii "b"], []⟩

/-- A request for it. -/
def itemsRequest (query : Bytes) : HttpRequest := ⟨ascii "GET", ascii "/x", query, []⟩

/-- The value `1&b=2` of `a` arrives as `1`, and `b` has the value `2` that nobody sent. -/
theorem ampersand_turns_into_separator :
    queryString [(ascii "a", ascii "1&b=2")] = ascii "a=1%26b%3D2" ∧
    requestMappingHelper (ascii "/x?a&b") = .ok itemsHelper ∧
    extractParams plainFullMatch itemsHelper (itemsRequest (ascii "a=1%26b%3D2")) false =
      .ok (some [ascii "1", ascii "2"]) ∧
    [ascii "a", ascii "b"].map (fun item => firstValue item [(ascii "a", ascii "1&b=2")]) =
      [ascii "1&b=2", []] ∧
    ¬extractParams plainFullMatch itemsHelper
        (itemsRequest (queryString [(ascii "a", ascii "1&b=2")])) false =
      .ok (some ([] ++ itemsHelper.queryStringItems.map (fun item =>
        firstValue item [(ascii "a", ascii "1&b=2")]) ++ [])) := by
  decide +kernel

/-- The condition for two plain pairs. -/
theorem extractParams_queryString_iff_two :
    extractParams plainFullMatch itemsHelper
        (itemsRequest (queryString [(ascii "b", ascii "x y"), (ascii "a", ascii "1=1")])) false =
      .ok (some ([] ++ itemsHelper.queryStringItems.map (fun item =>
        firstValue item [(ascii "b", ascii "x y"), (ascii "a", ascii "1=1")]) ++ [])) ↔
      ∀ item ∈ itemsHelper.queryStringItems,
        Survives item [(ascii "b", ascii "x y"), (ascii "a", ascii "1=1")] := by
  have hok : requestMappingHelper (ascii "/x?a&b") = .ok itemsHelper := by decide +kernel
  have hnul : NulFree [(ascii "b", ascii "x y"), (ascii "a", ascii "1=1")] := by
    unfold NulFree
    decide +kernel
  have hpath : pathParams plainFullMatch itemsHelper (ascii "/x") = some [] := by decide +kernel
  exact extractParams_queryString_iff hok rfl hnul hpath rfl

end Anon.Dispatcher

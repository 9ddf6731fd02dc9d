import Anon.Dispatcher.HeaderParsing
import Anon.Dispatcher.PlainExpressions
import Anon.Dispatcher.QueryItems
import Anon.Dispatcher.Responders

/-!
# Query string and header items

The documentation of `request_mapping` says what becomes of the items of a path specification: a
`+` in front of a name makes the item required, a request without a required item gets a 400, and
an item that is not there is passed as the empty string. `extract_params` takes each item as it is
written.

* `itemOf`, `queryItem`, `headerItem`: an item as documented, and its value in a request.
* `KeepsContract`: a responder does what the documentation says.
* `items_agree_iff`: exactly when it does.
-/

namespace Anon.Dispatcher

/-! ## The documentation -/

def plus : UInt8 := 43

/-- An item as it is documented. -/
structure Item where
  name : Bytes
  required : Bool

/-- A `+` in front of the name makes an item required. -/
def itemOf : Bytes → Item
  | [] => ⟨[], false⟩
  | c :: rest => if c = plus then ⟨rest, true⟩ else ⟨c :: rest, false⟩

/-- The value that a query string has for a name: it consists of parts `name=value`, separated by
`&` and percent encoded. -/
def queryItem (query name : Bytes) : Option Bytes :=
  valueIn name ((query.splitOn ampersand).filterMap fun part => (percentDecode part).toOption)

/-- The value of the first header with a name, whatever the case of its letters. -/
def headerItem (fields : List (Bytes × Bytes)) (name : Bytes) : Option Bytes :=
  (fields.find? fun e => e.1.map toLower = name.map toLower).map Prod.snd

/-- A required item is missing. -/
def MissesRequired (h : RequestHelper) (query : Bytes) (fields : List (Bytes × Bytes)) : Prop :=
  (∃ s ∈ h.queryStringItems, (itemOf s).required = true ∧ queryItem query (itemOf s).name = none) ∨
  (∃ s ∈ h.headerItems, (itemOf s).required = true ∧ headerItem fields (itemOf s).name = none)

/-- The values of the items; the one of an item that is not there is empty. -/
def documentedValues (h : RequestHelper) (query : Bytes) (fields : List (Bytes × Bytes)) :
    List Bytes :=
  (h.queryStringItems.map fun s => (queryItem query (itemOf s).name).getD []) ++
    h.headerItems.map fun s => (headerItem fields (itemOf s).name).getD []

variable {F : Type}

/-- A request as it was sent, its path apart from the query. -/
def sentRequest (method path query : Bytes) (fields : List (Bytes × Bytes)) : HttpRequest :=
  ⟨method, path, query, parsedHeaders fields⟩

/-- The responder refuses a request that misses a required item, and passes the values of the
items of another one to the function. -/
structure KeepsContract (fullMatch : Bytes → Bytes → Option (List Bytes)) (m : MapResponder F)
    (method path query : Bytes) (fields : List (Bytes × Bytes)) (pathValues : List Bytes) :
    Prop where
  refused : MissesRequired m.h query fields → ∃ body,
    m.respond fullMatch (sentRequest method path query fields) false = .error (.request 400 body)
  called : ¬MissesRequired m.h query fields →
    m.respond fullMatch (sentRequest method path query fields) false =
      .ok (some (.call m (pathValues ++ documentedValues m.h query fields)))

/-! ## Items as they are written -/

/-- The value of the first header whose name in lower case is the item as it is written. -/
def writtenHeader (fields : List (Bytes × Bytes)) (s : Bytes) : Option Bytes :=
  (fields.find? fun e => e.1.map toLower = cString s).map Prod.snd

/-- The query string can be decoded if it is asked for anything. If a required item is missing,
then some header item, as it is written, is not the lower-case name of a header. Otherwise all
are, and each item as it is written has the value of the item that it stands for. -/
structure ReadAsWritten (h : RequestHelper) (query : Bytes) (fields : List (Bytes × Bytes)) :
    Prop where
  decodable : h.queryStringItems ≠ [] → ∃ quer, percentDecode query = .ok quer
  missing : MissesRequired h query fields → ∃ s ∈ h.headerItems, writtenHeader fields s = none
  headers : ¬MissesRequired h query fields → ∀ s ∈ h.headerItems,
    writtenHeader fields s = some ((headerItem fields (itemOf s).name).getD [])
  queries : ¬MissesRequired h query fields → ∀ quer, percentDecode query = .ok quer →
    ∀ s ∈ h.queryStringItems, (valueIn s (quer.splitOn ampersand)).getD [] =
      (queryItem query (itemOf s).name).getD []

variable {fullMatch : Bytes → Bytes → Option (List Bytes)} {m : MapResponder F}
  {method path query pathSpec : Bytes} {fields : List (Bytes × Bytes)} {pathValues : List Bytes}

/-- A header is there if the item as it is written is a lower-case name. -/
theorem containsHeader_eq (s : Bytes) :
    (sentRequest method path query fields).containsHeader s = (writtenHeader fields s).isSome := by
  have hhead := head?_find_parsedHeaders fields (cString s)
  unfold HttpRequest.containsHeader writtenHeader
  show (!((parsedHeaders fields).find (cString s)).isEmpty) = _
  rw [Option.isSome_map]
  cases hfind : (parsedHeaders fields).find (cString s) with
  | nil =>
    rw [hfind] at hhead
    rw [Option.map_eq_none_iff.mp hhead.symm]
    rfl
  | cons e rest =>
    rw [hfind] at hhead
    obtain ⟨e', he', -⟩ := Option.map_eq_some_iff.mp hhead.symm
    rw [he']
    rfl

theorem getHeader_eq (s : Bytes) :
    (sentRequest method path query fields).getHeader s = (writtenHeader fields s).getD [] := by
  have hhead := head?_find_parsedHeaders fields (cString s)
  have hheaders : (sentRequest method path query fields).headers = parsedHeaders fields := rfl
  rw [HttpRequest.getHeader, writtenHeader, hheaders]
  cases hfind : (parsedHeaders fields).find (cString s) with
  | nil =>
    rw [hfind] at hhead
    rw [Option.map_eq_none_iff.mp hhead.symm]
    rfl
  | cons e rest =>
    rw [hfind] at hhead
    obtain ⟨e', he', hvalue⟩ := Option.map_eq_some_iff.mp hhead.symm
    rw [he', ← hvalue]
    rfl

/-- The only error of decoding is the one of an escape sequence. -/
theorem percentDecode_ne_request (encoded : Bytes) (code : ℕ) (body : Bytes) :
    percentDecode encoded ≠ .error (.request code body) := by
  have hfrom : ∀ (s : Bytes) (skip : ℕ),
      percentDecodeFrom skip s ≠ .error (.request code body) := by
    intro s
    induction s with
    | nil => exact fun _ => by simp [percentDecodeFrom]
    | cons c rest ih =>
      intro skip
      cases skip with
      | succ skip =>
        rw [percentDecodeFrom]
        exact ih skip
      | zero =>
        intro herror
        rw [percentDecodeFrom] at herror
        split at herror
        · split at herror
          · cases hrest : percentDecodeFrom 2 rest with
            | ok dec =>
              rw [hrest] at herror
              exact absurd herror (by simp [bind, Except.bind, pure, Except.pure])
            | error e =>
              rw [hrest] at herror
              exact ih 2 (hrest.trans herror)
          · exact absurd herror (by simp)
        · cases hrest : percentDecodeFrom 0 rest with
          | ok dec =>
            rw [hrest] at herror
            exact absurd herror (by simp [bind, Except.bind, pure, Except.pure])
          | error e =>
            rw [hrest] at herror
            exact ih 0 (hrest.trans herror)
  exact hfrom (cString encoded) 0

/-! ## What a responder answers -/

/-- An error of the items is the answer. -/
theorem respond_of_error {request : HttpRequest} {e : HttpError}
    (hpath : pathParams fullMatch m.h request.path = some pathValues)
    (he : (do
      let queryValues ← queryParams m.h request
      let headerValues ← headerParams m.h request false
      return some (pathValues ++ queryValues ++ headerValues)) = .error e) :
    m.respond fullMatch request false = .error e := by
  have hextract : extractParams fullMatch m.h request false = .error e := by
    rw [extractParams, hpath]
    exact he
  rw [MapResponder.respond, hextract]
  rfl

/-- A query string that cannot be decoded is an error of its own. -/
theorem respond_of_undecodable (hpath : pathParams fullMatch m.h path = some pathValues)
    (hitems : m.h.queryStringItems ≠ []) {e : HttpError} (he : percentDecode query = .error e) :
    m.respond fullMatch (sentRequest method path query fields) false = .error e := by
  have hquery : queryParams m.h (sentRequest method path query fields) = .error e := by
    rw [queryParams, if_pos (List.length_pos_iff.mpr hitems)]
    show (percentDecode query >>= _) = _
    rw [he]
    rfl
  apply respond_of_error hpath
  rw [hquery]
  rfl

/-- The error for the first header that is missing. -/
theorem headerValues_of_missing {request : HttpRequest} {items : List Bytes}
    (hmissing : ∃ s ∈ items, request.containsHeader s = false) :
    ∃ body, headerValues request items = .error (.request 400 body) := by
  induction items with
  | nil =>
    obtain ⟨s, hs, -⟩ := hmissing
    exact absurd hs List.not_mem_nil
  | cons item items ih =>
    rw [headerValues]
    -- the missing header is this one, or behind it
    by_cases hitem : request.containsHeader item = true
    · have hrest : ∃ s ∈ items, request.containsHeader s = false := by
        obtain ⟨s, hs, hno⟩ := hmissing
        obtain rfl | hs := List.mem_cons.mp hs
        · exact absurd hitem (by simp [hno])
        · exact ⟨s, hs, hno⟩
      obtain ⟨body, hbody⟩ := ih hrest
      refine ⟨body, ?_⟩
      rw [if_pos hitem, hbody]
      rfl
    · rw [if_neg hitem]
      exact ⟨_, rfl⟩

/-- The values of the query string items, in a query string that can be decoded. -/
def writtenQuery (query : Bytes) (h : RequestHelper) : List Bytes :=
  match percentDecode query with
  | .ok quer => h.queryStringItems.map fun s => (valueIn s (quer.splitOn ampersand)).getD []
  | .error _ => []

theorem queryParams_eq (hspec : requestMappingHelper pathSpec = .ok m.h)
    (hdec : m.h.queryStringItems ≠ [] → ∃ quer, percentDecode query = .ok quer) :
    queryParams m.h (sentRequest method path query fields) = .ok (writtenQuery query m.h) := by
  apply queryParams_eq_ok.mpr
  unfold writtenQuery
  by_cases hitems : m.h.queryStringItems = []
  · left
    refine ⟨hitems, ?_⟩
    cases percentDecode query with
    | ok quer =>
      simp only [hitems]
      rfl
    | error e => rfl
  · right
    obtain ⟨quer, hquer⟩ := hdec hitems
    refine ⟨hitems, quer, hquer, ?_⟩
    rw [hquer]
    apply List.map_congr_left
    intro s hs
    exact (queryValue_eq (ampersand_notMem_queryStringItems hspec hs) quer).symm

/-- A header item that is not there as it is written leads to a 400. -/
theorem respond_of_missing_header (hspec : requestMappingHelper pathSpec = .ok m.h)
    (hpath : pathParams fullMatch m.h path = some pathValues)
    (hdec : m.h.queryStringItems ≠ [] → ∃ quer, percentDecode query = .ok quer)
    (hmissing : ∃ s ∈ m.h.headerItems, writtenHeader fields s = none) :
    ∃ body, m.respond fullMatch (sentRequest method path query fields) false =
      .error (.request 400 body) := by
  have hmissing' : ∃ s ∈ m.h.headerItems,
      (sentRequest method path query fields).containsHeader s = false := by
    obtain ⟨s, hs, hnone⟩ := hmissing
    refine ⟨s, hs, ?_⟩
    rw [containsHeader_eq, hnone]
    rfl
  obtain ⟨body, hbody⟩ := headerValues_of_missing hmissing'
  have hheaders : headerParams m.h (sentRequest method path query fields) false =
      .error (.request 400 body) := by
    obtain ⟨s, hs, -⟩ := hmissing
    rw [headerParams, if_pos ⟨rfl, List.length_pos_of_mem hs⟩, hbody]
  refine ⟨body, ?_⟩
  apply respond_of_error hpath
  rw [queryParams_eq hspec hdec, hheaders]
  rfl

/-- Otherwise the function gets the values of the items as they are written. -/
theorem respond_of_headers (hspec : requestMappingHelper pathSpec = .ok m.h)
    (hpath : pathParams fullMatch m.h path = some pathValues)
    (hdec : m.h.queryStringItems ≠ [] → ∃ quer, percentDecode query = .ok quer)
    (hall : ∀ s ∈ m.h.headerItems, writtenHeader fields s ≠ none) :
    m.respond fullMatch (sentRequest method path query fields) false =
      .ok (some (.call m (pathValues ++ (writtenQuery query m.h ++
        m.h.headerItems.map fun s => (writtenHeader fields s).getD [])))) := by
  apply respond_eq_some_iff.mpr
  refine ⟨_, ?_, rfl⟩
  apply extractParams_eq_ok.mpr
  refine ⟨pathValues, writtenQuery query m.h, _, hpath, (List.append_assoc _ _ _).symm,
    queryParams_eq_ok.mp (queryParams_eq hspec hdec), .inr ⟨rfl, ?_, ?_⟩⟩
  · intro s hs
    rw [containsHeader_eq]
    exact Option.isSome_iff_ne_none.mpr (hall s hs)
  · apply List.map_congr_left
    intro s _
    exact (getHeader_eq s).symm

/-! ## The contract -/

/-- The values as they are written are the documented ones item by item. -/
theorem writtenValues_eq_iff
    (hdec : m.h.queryStringItems ≠ [] → ∃ quer, percentDecode query = .ok quer) :
    writtenQuery query m.h ++ (m.h.headerItems.map fun s => (writtenHeader fields s).getD []) =
      documentedValues m.h query fields ↔
    (∀ quer, percentDecode query = .ok quer → ∀ s ∈ m.h.queryStringItems,
      (valueIn s (quer.splitOn ampersand)).getD [] = (queryItem query (itemOf s).name).getD []) ∧
    ∀ s ∈ m.h.headerItems,
      (writtenHeader fields s).getD [] = (headerItem fields (itemOf s).name).getD [] := by
  have hquery : writtenQuery query m.h =
      (m.h.queryStringItems.map fun s => (queryItem query (itemOf s).name).getD []) ↔
        ∀ quer, percentDecode query = .ok quer → ∀ s ∈ m.h.queryStringItems,
          (valueIn s (quer.splitOn ampersand)).getD [] =
            (queryItem query (itemOf s).name).getD [] := by
    unfold writtenQuery
    cases hquer : percentDecode query with
    | ok quer =>
      rw [List.map_inj_left]
      constructor
      · intro hall quer' hquer'
        rw [← Except.ok.inj hquer']
        exact hall
      · intro hall
        exact hall quer rfl
    -- without query string items the query string is not decoded
    | error e =>
      have hnil : m.h.queryStringItems = [] := by
        by_contra hne
        obtain ⟨quer, hok⟩ := hdec hne
        rw [hquer] at hok
        exact absurd hok (by simp)
      simp [hnil]
  have hlen : (m.h.headerItems.map fun s => (writtenHeader fields s).getD []).length =
      (m.h.headerItems.map fun s => (headerItem fields (itemOf s).name).getD []).length := by
    rw [List.length_map, List.length_map]
  rw [documentedValues, ← hquery, ← List.map_inj_left]
  constructor
  · intro heq
    exact List.append_inj' heq hlen
  · intro hboth
    rw [hboth.1, hboth.2]

/-- The contract is kept for exactly the requests whose items are found as they are written. -/
theorem items_agree_iff (hspec : requestMappingHelper pathSpec = .ok m.h)
    (hpath : pathParams fullMatch m.h path = some pathValues) :
    KeepsContract fullMatch m method path query fields pathValues ↔
      ReadAsWritten m.h query fields := by
  by_cases hdec : m.h.queryStringItems ≠ [] → ∃ quer, percentDecode query = .ok quer
  · by_cases hall : ∀ s ∈ m.h.headerItems, writtenHeader fields s ≠ none
    · -- the function is called
      have hrespond : m.respond fullMatch (sentRequest method path query fields) false = _ :=
        respond_of_headers hspec hpath hdec hall
      have hwritten : ∀ s ∈ m.h.headerItems, ∀ v, (writtenHeader fields s).getD [] = v ↔
          writtenHeader fields s = some v := by
        intro s hs v
        obtain ⟨w, hw⟩ := Option.ne_none_iff_exists'.mp (hall s hs)
        simp [hw]
      constructor
      · intro hkeeps
        have hfound : ¬MissesRequired m.h query fields := by
          intro hmisses
          obtain ⟨body, hbody⟩ := hkeeps.refused hmisses
          rw [hrespond] at hbody
          exact absurd hbody (by simp)
        have hcall := hkeeps.called hfound
        rw [hrespond] at hcall
        have hvalues := List.append_cancel_left
          (Reply.call.inj (Option.some.inj (Except.ok.inj hcall))).2
        obtain ⟨hqueries, hheaders⟩ := (writtenValues_eq_iff hdec).mp hvalues
        refine ⟨hdec, fun hmisses => absurd hmisses hfound, fun _ s hs => ?_, fun _ => hqueries⟩
        exact (hwritten s hs _).mp (hheaders s hs)
      · intro hread
        refine ⟨fun hmisses => ?_, fun hfound => ?_⟩
        · obtain ⟨s, hs, hnone⟩ := hread.missing hmisses
          exact absurd hnone (hall s hs)
        · have hvalues := (writtenValues_eq_iff hdec).mpr ⟨hread.queries hfound, fun s hs =>
            (hwritten s hs _).mpr (hread.headers hfound s hs)⟩
          rw [hrespond, hvalues]
    · -- a header is missing
      have hmissing : ∃ s ∈ m.h.headerItems, writtenHeader fields s = none := by
        simpa using hall
      have hrefused : ∃ body, m.respond fullMatch (sentRequest method path query fields) false =
          .error (.request 400 body) :=
        respond_of_missing_header hspec hpath hdec hmissing
      obtain ⟨body, hrespond⟩ := hrefused
      constructor
      · intro hkeeps
        have hmisses : MissesRequired m.h query fields := by
          by_contra hfound
          have hcall := hkeeps.called hfound
          rw [hrespond] at hcall
          exact absurd hcall (by simp)
        exact ⟨hdec, fun _ => hmissing, fun hfound => absurd hmisses hfound,
          fun hfound => absurd hmisses hfound⟩
      · intro hread
        refine ⟨fun _ => ⟨body, hrespond⟩, fun hfound => ?_⟩
        obtain ⟨s, hs, hnone⟩ := hmissing
        have hsome := hread.headers hfound s hs
        rw [hnone] at hsome
        exact absurd hsome (by simp)
  · -- the query string cannot be decoded
    obtain ⟨hitems, hno⟩ := Classical.not_imp.mp hdec
    cases hquer : percentDecode query with
    | ok quer => exact absurd ⟨quer, hquer⟩ hno
    | error e =>
      have hrespond : m.respond fullMatch (sentRequest method path query fields) false =
          .error e :=
        respond_of_undecodable hpath hitems hquer
      constructor
      · intro hkeeps
        by_cases hmisses : MissesRequired m.h query fields
        · obtain ⟨body, hbody⟩ := hkeeps.refused hmisses
          rw [hrespond] at hbody
          rw [Except.error.inj hbody] at hquer
          exact absurd hquer (percentDecode_ne_request _ _ _)
        · have hcall := hkeeps.called hmisses
          rw [hrespond] at hcall
          exact absurd hcall (by simp)
      · intro hread
        exact absurd hread.decodable hdec

/-! ## The example of the documentation -/

/-- A mapping for `/foo/{account}?password?+Authorization`. -/
def accountResponder : MapResponder ℕ :=
  ⟨0, false, [], ⟨ascii "/foo/([^/]*)", 1, ascii "/foo/", [ascii "password"],
    [ascii "+Authorization"]⟩⟩

theorem requestMappingHelper_account : requestMappingHelper
    (ascii "/foo/{account}?password?+Authorization") = .ok accountResponder.h := by
  decide +kernel

theorem pathParams_account : pathParams plainFullMatch accountResponder.h
    (ascii "/foo/myaccount") = some [ascii "myaccount"] := by
  decide +kernel

/-- The request has the required header, and is refused. -/
theorem account_refused : requestMappingHelper
      (ascii "/foo/{account}?password?+Authorization") = .ok accountResponder.h ∧
    ¬KeepsContract plainFullMatch accountResponder (ascii "GET") (ascii "/foo/myaccount")
      (ascii "password=hello") [(ascii "authorization", ascii "letMeIn")]
      [ascii "myaccount"] := by
  refine ⟨requestMappingHelper_account, fun hkeeps => ?_⟩
  have hfound : ¬MissesRequired accountResponder.h (ascii "password=hello")
      [(ascii "authorization", ascii "letMeIn")] := by
    unfold MissesRequired
    decide +kernel
  have hrefused : accountResponder.respond plainFullMatch (sentRequest (ascii "GET")
      (ascii "/foo/myaccount") (ascii "password=hello")
      [(ascii "authorization", ascii "letMeIn")]) false =
        .error (.request 400 (ascii "missing, required header: +Authorization" ++ [newline])) := by
    decide +kernel
  have hcall := hkeeps.called hfound
  rw [hrefused] at hcall
  exact absurd hcall (by simp)

/-- The condition for that mapping. -/
theorem items_agree_iff_account :
    KeepsContract plainFullMatch accountResponder (ascii "GET") (ascii "/foo/myaccount")
      (ascii "password=hello") [(ascii "authorization", ascii "letMeIn")] [ascii "myaccount"] ↔
    ReadAsWritten accountResponder.h (ascii "password=hello")
      [(ascii "authorization", ascii "letMeIn")] :=
  items_agree_iff requestMappingHelper_account pathParams_account

end Anon.Dispatcher

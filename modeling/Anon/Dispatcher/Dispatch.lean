import Anon.Dispatcher.Mapping
import Anon.Lib.Multimap

/-!
# Dispatching a request

The side of `request_dispatcher` that handles a request: `percent_decode`, `extract_params`, the
responders of the mappings, and `dispatch`, with its answer to the preflight requests of CORS.

The regular expression library is the parameter `fullMatch`: the captured groups of a match of a
whole text, given the text of the expression.
-/

namespace Anon.Dispatcher

/-- What an exception of the dispatcher carries. -/
inductive HttpError
  /-- `throw_request_error` -/
  | request (code : ℕ) (body : Bytes)
  /-- `std::runtime_error` -/
  | runtime (what : Bytes)
  deriving DecidableEq

/-- The code of the reply that `request_wrap` makes of an exception. -/
def HttpError.replyCode : HttpError → ℕ
  | .request code _ => code
  | .runtime _ => 500

structure HttpRequest where
  /-- `method_str()` -/
  method : Bytes
  /-- `get_url_field(UF_PATH)` -/
  path : Bytes
  /-- `get_url_field(UF_QUERY)` -/
  query : Bytes
  /-- The headers, under their names in lower case. -/
  headers : Multimap Bytes Bytes

/-- `contains_header` -/
def HttpRequest.containsHeader (request : HttpRequest) (field : Bytes) : Bool :=
  !(request.headers.find (cString field)).isEmpty

/-- `get_header` -/
def HttpRequest.getHeader (request : HttpRequest) (field : Bytes) : Bytes :=
  match request.headers.find (cString field) with
  | e :: _ => e.2
  | [] => []

structure HttpResponse where
  statusCode : Bytes
  headers : OrderedMap Bytes Bytes
  deriving DecidableEq

/-- `add_header` -/
def HttpResponse.addHeader (response : HttpResponse) (field : String) (value : Bytes) :
    HttpResponse :=
  { response with headers := response.headers.alter (ascii field) fun _ => value }

/-! ## Percent encoding -/

def percent : UInt8 := 37

/-- `valid_hex` and `nib` -/
def nib (c : UInt8) : Option UInt8 :=
  if 48 ≤ c ∧ c ≤ 57 then some (c - 48)
  else if 97 ≤ c ∧ c ≤ 102 then some (c - 97 + 10)
  else if 65 ≤ c ∧ c ≤ 70 then some (c - 65 + 10)
  else none

/-- The loop of `percent_decode`; `skip` is the number of characters of an escape sequence that
are still ahead. A decoded NUL adds nothing. -/
def percentDecodeFrom (skip : ℕ) : Bytes → Except HttpError Bytes
  | [] => .ok []
  | c :: rest =>
    match skip with
    | skip + 1 => percentDecodeFrom skip rest
    | 0 =>
      if c = percent then
        match rest.head?.bind nib, rest.tail.head?.bind nib with
        | some hi, some lo => do
          let dec ← percentDecodeFrom 2 rest
          return if hi * 16 + lo = 0 then dec else (hi * 16 + lo) :: dec
        | _, _ => .error (.runtime (ascii "invalid encoded uri character"))
      else do
        let dec ← percentDecodeFrom 0 rest
        return c :: dec

/-- `percent_decode` -/
def percentDecode (encoded : Bytes) : Except HttpError Bytes :=
  percentDecodeFrom 0 (cString encoded)

/-! ## Extracting the parameters -/

variable (fullMatch : Bytes → Bytes → Option (List Bytes))

/-- The `switch` of `extract_params`: `path_re.FullMatch` with one string for each variable, at
most eight. It fails if the expression has fewer groups. -/
def fullMatchPath (h : RequestHelper) (path : Bytes) : Option (List Bytes) :=
  if 8 < h.numPathSubstitutions then none
  else
    match fullMatch h.pathRe path with
    | some groups =>
      if groups.length < h.numPathSubstitutions then none
      else
        some (groups.take h.numPathSubstitutions ++
          List.replicate (8 - h.numPathSubstitutions) [])
    | none => none

/-- The values of the path variables, if the path matches and none of them is empty. -/
def pathParams (h : RequestHelper) (path : Bytes) : Option (List Bytes) :=
  match fullMatchPath fullMatch h path with
  | none => none
  | some p =>
    let params := p.takeWhile fun v => v ≠ []
    if params.length ≠ h.numPathSubstitutions then none else some params

/-- `quer.find(needle, pos)` -/
def findFrom (quer needle : Bytes) (pos : ℕ) : Option ℕ :=
  (strstr (quer.drop pos) needle).map (· + pos)

/-- The loop that looks for the item: the position of `item=` at the start of the query or behind
an `&`. The position increases in each round, so `rounds` need not exceed the length. -/
def findItem (quer item : Bytes) : (rounds pos : ℕ) → Option ℕ
  | 0, _ => none
  | rounds + 1, pos =>
    match findFrom quer (item ++ ascii "=") pos with
    | none => none
    | some pos =>
      if pos = 0 ∨ quer[pos - 1]? = some ampersand then some pos
      else
        match findFrom quer (ascii "&") (pos + (item.length + 1)) with
        | none => none
        | some pos => findItem quer item rounds pos

/-- The value of a query string item, empty if it is not there. -/
def queryValue (quer item : Bytes) : Bytes :=
  match findItem quer item (quer.length + 1) 0 with
  | none => []
  | some pos => (quer.drop (pos + (item.length + 1))).takeWhile fun c => c ≠ ampersand

/-- The values of the headers; one that is missing is an error. -/
def headerValues (request : HttpRequest) : List Bytes → Except HttpError (List Bytes)
  | [] => .ok []
  | item :: items =>
    if request.containsHeader item then do
      let values ← headerValues request items
      return request.getHeader item :: values
    else .error (.request 400 (ascii "missing, required header: " ++ item ++ [newline]))

/-- The part of `extract_params` that looks for query string items. -/
def queryParams (h : RequestHelper) (request : HttpRequest) : Except HttpError (List Bytes) :=
  if 0 < h.queryStringItems.length then do
    let quer ← percentDecode request.query
    return h.queryStringItems.map (queryValue quer)
  else .ok []

/-- The part of `extract_params` that looks for headers. -/
def headerParams (h : RequestHelper) (request : HttpRequest) (isOptions : Bool) :
    Except HttpError (List Bytes) :=
  if isOptions = false ∧ 0 < h.headerItems.length then headerValues request h.headerItems
  else .ok []

/-- `extract_params`; `none` if the request is not for this mapping. -/
def extractParams (h : RequestHelper) (request : HttpRequest) (isOptions : Bool) :
    Except HttpError (Option (List Bytes)) :=
  match pathParams fullMatch h request.path with
  | none => .ok none
  | some params => do
    let queryValues ← queryParams h request
    let headerValues ← headerParams h request isOptions
    return some (params ++ queryValues ++ headerValues)

/-! ## The responders -/

variable {F : Type}

/-- What a request leads to. -/
inductive Reply (F : Type)
  /-- The function of a mapping is called. -/
  | call (responder : MapResponder F) (params : List Bytes)
  /-- `respond_options` -/
  | options (response : HttpResponse)
  /-- The answer to `OPTIONS *`. -/
  | allow (response : HttpResponse)
  deriving DecidableEq

/-- Put a string between the strings of a list. -/
def joinWith (sep : Bytes) : List Bytes → Bytes
  | [] => []
  | s :: rest => s ++ rest.flatMap fun s => sep ++ s

/-- `respond_options` -/
def respondOptions (request : HttpRequest) (allowedHeaders : List Bytes) : HttpResponse :=
  let orig := request.getHeader (ascii "origin")
  let response : HttpResponse := ⟨ascii "200 OK", []⟩
  let response := response.addHeader "access-control-allow-origin"
    (if 0 < orig.length then orig else ascii "*")
  let response := response.addHeader "access-control-allow-methods"
    (request.getHeader (ascii "access-control-request-method"))
  let response :=
    if request.containsHeader (ascii "access-control-request-headers") then
      response.addHeader "access-control-allow-headers"
        (request.getHeader (ascii "access-control-request-headers"))
    else response
  let response := response.addHeader "access-control-max-age" (ascii "600")
  let response :=
    if 0 < allowedHeaders.length then
      response.addHeader "access-control-allow-headers" (joinWith (ascii ", ") allowedHeaders)
    else response
  let response := response.addHeader "access-control-allow-credentials" (ascii "true")
  let response := response.addHeader "cache-control" (ascii "max-age=604800")
  { response with statusCode := ascii "204 No Content" }

/-- What `get_map_responder` and `get_map_responder_body` return, called; `none` for false. -/
def MapResponder.respond (m : MapResponder F) (request : HttpRequest) (isOptions : Bool) :
    Except HttpError (Option (Reply F)) := do
  match ← extractParams fullMatch m.h request isOptions with
  | none => return none
  | some params =>
    if isOptions then return some (.options (respondOptions request m.allowedHeaders))
    else return some (.call m params)

/-- Try the responders one after the other. -/
def respondFirst (request : HttpRequest) (isOptions : Bool) :
    List (MapResponder F) → Except HttpError (Option (Reply F))
  | [] => .ok none
  | m :: ms => do
    match ← m.respond fullMatch request isOptions with
    | some reply => return some reply
    | none => respondFirst request isOptions ms

/-! ## Methods and CORS -/

def kEnableCorsGet : BitVec 32 := 1
def kEnableCorsHead : BitVec 32 := 2
def kEnableCorsPost : BitVec 32 := 4
def kEnableCorsPut : BitVec 32 := 8
def kEnableCorsDelete : BitVec 32 := 16

namespace RequestDispatcher

/-- The bit is set in `_cors_enabled`. -/
def enables (d : RequestDispatcher F) (bit : BitVec 32) : Bool := d.corsEnabled &&& bit ≠ 0

/-- The answer to a preflight request for no particular resource. -/
def respondAllow (d : RequestDispatcher F) : HttpResponse :=
  let allow := ascii "OPTIONS" ++
    (if d.enables kEnableCorsGet then ascii ", GET" else []) ++
    (if d.enables kEnableCorsHead then ascii ", HEAD" else []) ++
    (if d.enables kEnableCorsPost then ascii ", POST" else []) ++
    (if d.enables kEnableCorsPut then ascii ", PUT" else []) ++
    (if d.enables kEnableCorsDelete then ascii ", DELETE" else [])
  let response : HttpResponse := ⟨ascii "200 OK", []⟩
  let response := response.addHeader "allow" allow
  let response := response.addHeader "cache-control" (ascii "max-age=604800")
  let response := response.addHeader "access-control-max-age" (ascii "600")
  { response with statusCode := ascii "204 No Content" }

/-- The check of the method that a preflight request asks for. -/
def checkMethod (d : RequestDispatcher F) (method : Bytes) : Bool :=
  if method = ascii "GET" then d.enables kEnableCorsGet
  else if method = ascii "HEAD" then d.enables kEnableCorsHead
  else if method = ascii "POST" then d.enables kEnableCorsPost
  else if method = ascii "PUT" then d.enables kEnableCorsPut
  else if method = ascii "DELETE" then d.enables kEnableCorsPut
  else false

def methodNotAllowed (method : Bytes) : HttpError :=
  .request 405 (ascii "method not allowed: " ++ method ++ [newline])

def notFound (path : Bytes) : HttpError :=
  .request 404 (ascii "resource: \"" ++ path ++ ascii "\" not found" ++ [newline])

/-- The method that a preflight request asks for. -/
def preflightMethod (d : RequestDispatcher F) (request : HttpRequest) : Except HttpError Bytes :=
  if request.containsHeader (ascii "access-control-request-method") then
    let method := request.getHeader (ascii "access-control-request-method")
    if d.checkMethod method then .ok method else .error (methodNotAllowed method)
  else
    .error (.request 400 (ascii
      "OPTIONS request missing required access-control-request-method header" ++ [newline]))

/-- The part of `dispatch` behind the checks of the method. -/
def dispatchMethod (d : RequestDispatcher F) (method : Bytes) (request : HttpRequest)
    (isOptions : Bool) : Except HttpError (Reply F) :=
  match d.map.get method with
  | none => .error (methodNotAllowed method)
  | some buckets =>
    match buckets.floor request.path with
    | none => .error (notFound request.path)
    | some e => do
      match ← respondFirst fullMatch request isOptions e.2 with
      | some reply => return reply
      | none => .error (notFound request.path)

/-- A preflight request, which a dispatcher without CORS does not know. -/
def isOptions (d : RequestDispatcher F) (request : HttpRequest) : Bool :=
  d.corsEnabled ≠ 0 && ascii "OPTIONS" = request.method

/-- `dispatch` -/
def dispatch (d : RequestDispatcher F) (request : HttpRequest) : Except HttpError (Reply F) :=
  if d.isOptions request then
    if request.path = ascii "*" ∨ request.path = [] then .ok (.allow d.respondAllow)
    else do
      let method ← d.preflightMethod request
      d.dispatchMethod fullMatch method request true
  else d.dispatchMethod fullMatch request.method request false

end RequestDispatcher

end Anon.Dispatcher

import Anon.BigEndian
import Anon.Lib.Machine

/-!
# The connections of the HTTP server

The request loop of `http_server::start_`, `http_server::pipe_t::read`, and what handlers do with
the body: `body_as_json` and `request_wrap`.

* `HttpParser`: the external `http_parser`, as a parameter.
* `Handler`: what the code that answers a request does to the pipe.
* `Connection`: the buffer and the rest of the connection.
* `serverMachine`: the runs of the loop on what a peer has sent.
-/

namespace Anon.Http

/-! ## Requests -/

/-- What `on_headers_complete` finds in the parser. -/
structure Request where
  upgrade : Bool
  /-- `F_CONTENTLENGTH` -/
  hasContentLength : Bool
  /-- `p->content_length`, of 64 bits. -/
  bodyLength : ℕ
  deriving DecidableEq

/-- `request.content_length`, an `int`. -/
def Request.contentLength (request : Request) : ℤ := Int.bmod request.bodyLength (2 ^ 32)

/-- The external parser: `execute` gives the number of bytes that it has parsed and, when
`on_message_complete` was called, the request. -/
structure HttpParser (σ : Type*) where
  /-- `http_parser_init` -/
  init : σ
  /-- `http_parser_execute` -/
  execute : σ → Bytes → σ × ℕ × Option Request
  /-- `http_should_keep_alive` -/
  shouldKeepAlive : σ → Bool

/-! ## Handlers -/

/-- The exceptions that `request_wrap` tells apart. -/
inductive Thrown
  /-- `request_error` -/
  | request (code : ℕ) (reason contentType : String)
  /-- `nlohmann::json::exception` -/
  | json (what : String)
  /-- `std::exception` -/
  | std (what : String)
  | other

structure Reply where
  statusCode : ℕ
  contentType : String
  body : String

/-- What the code that answers a request does next. A read may deliver fewer bytes than it asks
for, and a read or a response may throw. -/
inductive Handler
  | ret
  | throw (e : Thrown)
  | read (len : ℕ) (next : Bytes → Handler) (failed : Thrown → Handler)
  | respond (reply : Reply) (next : Handler) (failed : Thrown → Handler)

/-- `reply_back_error`, which ignores that the response cannot be sent. -/
def replyBackError (msg : String) (code : ℕ) (contentType : String) : Handler :=
  .respond ⟨code, contentType, msg ++ "\n"⟩ .ret fun _ => .ret

/-- The `catch` clauses of `request_wrap`. -/
def Thrown.reply : Thrown → Handler
  | .request code reason contentType => replyBackError reason code contentType
  | .json what => replyBackError what 400 "text/plain"
  | .std what => replyBackError what 500 "text/plain"
  | .other => replyBackError "" 500 "text/plain"

/-- `request_wrap` -/
def requestWrap : Handler → Handler
  | .ret => .ret
  | .throw e => e.reply
  | .read len next failed =>
    .read len (fun bs => requestWrap (next bs)) fun e => requestWrap (failed e)
  | .respond reply next failed =>
    .respond reply (requestWrap next) fun e => requestWrap (failed e)

/-- `throw_request_error` -/
def throwRequestError (code : ℕ) (body : String) : Handler :=
  .throw (.request code (body ++ "\n") "text/plain")

/-- The loop of `body_as_json` that reads the `left` missing bytes of the body. Every read delivers
a byte, so that `left` rounds are enough. -/
def readBody (rounds left : ℕ) (buff : Bytes) (next : Bytes → Handler) : Handler :=
  match rounds with
  | 0 => next buff
  | rounds + 1 =>
    if left = 0 then next buff
    else .read left (fun bs => readBody rounds (left - bs.length) (buff ++ bs) next) .throw

/-- `body_as_json`, for a JSON parser, and with the peer's address as text. -/
def bodyAsJson {J : Type*} (parse : Bytes → Except String J) (peer : String) (request : Request)
    (f : J → Handler) : Handler :=
  let clen := request.contentLength
  if !request.hasContentLength then
    throwRequestError 411 "required Content-Length header is missing"
  else if clen < 2 then
    throwRequestError 406 ("Content-Length cannot be less than 2 (" ++ toString clen ++ ")")
  else if clen > 16384 then
    throwRequestError 413
      ("Content-Length cannot exceed 16384 (" ++ toString clen ++ " - " ++ peer ++ ")")
  else
    readBody clen.toNat clen.toNat [] fun buff =>
      match parse buff with
      | .ok body => f body
      | .error what => .throw (.json what)

/-! ## Connections -/

/-- What the loop is doing. -/
inductive ServerPhase
  | parsing
  /-- In `exec`; the handler has read `taken` bytes of the body. -/
  | handling (request : Request) (taken : ℕ) (handler : Handler)
  /-- The loop has returned or thrown, or has left the connection to an upgrade handler. -/
  | closed

/-- A connection, and what the handlers were called with and have answered on it. -/
structure Connection (σ : Type*) where
  /-- What has been sent and not read. -/
  rest : Bytes
  /-- The first `bep` bytes of the buffer. -/
  buf : Bytes
  bsp : ℕ
  parser : σ
  phase : ServerPhase
  served : List Request
  replies : List Reply

/-- `buf.size()` -/
def bufSize : ℕ := 8192

variable {σ : Type*}

namespace Connection

/-- The bytes of the buffer that have not been parsed. -/
def buffered (c : Connection σ) : Bytes := c.buf.drop c.bsp

/-- `http_pipe->read`, of `k` bytes. -/
def fill (c : Connection σ) (k : ℕ) : Connection σ :=
  if c.bsp = c.buf.length then { c with buf := c.buf ++ c.rest.take k, rest := c.rest.drop k }
  else c

/-- One round of the loop up to the call of the handler; if the buffer was empty, a read has
delivered `k` bytes. -/
def parse (P : HttpParser σ) (exec : Request → Handler) (c : Connection σ) (k : ℕ) :
    Connection σ :=
  let c := c.fill k
  let (parser, parsed, complete) := P.execute c.parser c.buffered
  let c := { c with parser := parser, bsp := c.bsp + parsed }
  match complete with
  | some request =>
    if request.upgrade then { c with phase := .closed }
    else { c with phase := .handling request 0 (exec request), served := c.served ++ [request] }
  | none =>
    if c.bsp ≠ c.buf.length then { c with phase := .closed }
    else if c.bsp = bufSize then { c with phase := .closed }
    else c

/-- The loop after `exec` has returned. -/
def afterExec (P : HttpParser σ) (c : Connection σ) : Connection σ :=
  if P.shouldKeepAlive c.parser then
    { c with buf := c.buffered, bsp := 0, parser := P.init, phase := .parsing }
  else { c with phase := .closed }

/-- `pipe_t::read` of `len` bytes: from the buffer, or else the `k` bytes that the pipe delivers. -/
def pipeRead (c : Connection σ) (len k : ℕ) : Bytes × Connection σ :=
  if c.bsp ≠ c.buf.length then
    (c.buffered.take len, { c with bsp := c.bsp + min len c.buffered.length })
  else (c.rest.take k, { c with rest := c.rest.drop k })

/-- The handler does what it does next; a read from the pipe delivers `k` bytes. -/
def handle (P : HttpParser σ) (c : Connection σ) (k : ℕ) : Connection σ :=
  match c.phase with
  | .handling _ _ .ret => c.afterExec P
  | .handling _ _ (.throw _) => { c with phase := .closed }
  | .handling request taken (.read len next _) =>
    let (bs, c) := c.pipeRead len k
    { c with phase := .handling request (taken + bs.length) (next bs) }
  | .handling request taken (.respond reply next _) =>
    { c with phase := .handling request taken next, replies := c.replies ++ [reply] }
  | _ => c

/-- A read or a response throws. -/
def fail (c : Connection σ) (e : Thrown) : Connection σ :=
  match c.phase with
  | .parsing => { c with phase := .closed }
  | .handling request taken (.read _ _ failed) =>
    { c with phase := .handling request taken (failed e) }
  | .handling request taken (.respond _ _ failed) =>
    { c with phase := .handling request taken (failed e) }
  | _ => c

end Connection

/-- The steps of a connection. -/
inductive ServerAction
  | parse (k : ℕ)
  | handle (k : ℕ)
  | fail (e : Thrown)

/-- A read from the pipe asks for at most `len` bytes and delivers `k` of them, at least one. -/
def Connection.Delivers (c : Connection σ) (len k : ℕ) : Prop :=
  c.bsp = c.buf.length → 1 ≤ k ∧ k ≤ len ∧ k ≤ c.rest.length

instance Connection.instDecidableDelivers (c : Connection σ) (len k : ℕ) :
    Decidable (c.Delivers len k) :=
  inferInstanceAs (Decidable (_ → _))

/-- When a step can be taken. -/
def Connection.enabledIn (c : Connection σ) : ServerPhase → ServerAction → Prop
  | .parsing, .parse k => c.Delivers (bufSize - c.buf.length) k
  | .parsing, .fail _ => c.bsp = c.buf.length
  | .handling _ _ (.read len _ _), .handle k => c.Delivers len k
  | .handling _ _ (.read _ _ _), .fail _ => c.bsp = c.buf.length
  | .handling _ _ (.respond _ _ _), .fail _ => True
  | .handling _ _ _, .handle _ => True
  | _, _ => False

instance Connection.instDecidableEnabled (c : Connection σ) (phase : ServerPhase)
    (a : ServerAction) : Decidable (c.enabledIn phase a) :=
  match phase, a with
  | .parsing, .parse k => inferInstanceAs (Decidable (c.Delivers (bufSize - c.buf.length) k))
  | .parsing, .fail _ => inferInstanceAs (Decidable (c.bsp = c.buf.length))
  | .handling _ _ (.read len _ _), .handle k => inferInstanceAs (Decidable (c.Delivers len k))
  | .handling _ _ (.read _ _ _), .fail _ => inferInstanceAs (Decidable (c.bsp = c.buf.length))
  | .handling _ _ (.respond _ _ _), .fail _ => isTrue trivial
  | .handling _ _ .ret, .handle _ => isTrue trivial
  | .handling _ _ (.throw _), .handle _ => isTrue trivial
  | .handling _ _ (.respond _ _ _), .handle _ => isTrue trivial
  | .parsing, .handle _ => isFalse not_false
  | .handling _ _ .ret, .parse _ | .handling _ _ .ret, .fail _ => isFalse not_false
  | .handling _ _ (.throw _), .parse _ | .handling _ _ (.throw _), .fail _ => isFalse not_false
  | .handling _ _ (.read _ _ _), .parse _ => isFalse not_false
  | .handling _ _ (.respond _ _ _), .parse _ => isFalse not_false
  | .closed, _ => isFalse not_false

/-- A connection to the server on which `input` is sent, with handlers that run `exec`. -/
def serverMachine (P : HttpParser σ) (exec : Request → Handler) (input : Bytes) :
    Machine (Connection σ) ServerAction where
  init := ⟨input, [], 0, P.init, .parsing, [], []⟩
  enabled c a := c.enabledIn c.phase a
  next c a :=
    match a with
    | .parse k => c.parse P exec k
    | .handle k => c.handle P k
    | .fail e => c.fail e

instance instDecidableServer (P : HttpParser σ) (exec : Request → Handler) (input : Bytes)
    (c : Connection σ) (a : ServerAction) :
    Decidable ((serverMachine P exec input).enabled c a) :=
  c.instDecidableEnabled c.phase a

end Anon.Http

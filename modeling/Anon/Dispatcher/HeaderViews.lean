import Anon.Dispatcher.HeaderParsing

/-!
# Headers in the buffer

The callbacks of `http_server` as they work on the buffer of the connection: a header is a pair of
views into it, and its name is put into lower case where it lies. What the parser reports is a
place in the buffer, at which bytes have arrived in reads.

* `StringLen`: a view.
* `Pc`: the buffer and the part of the state of a connection that the callbacks work on.
* `onHeaderField`, `onHeaderValue`, `onHeadersComplete`: the callbacks.
* `keepAlive`: what happens between two requests on a connection.
-/

namespace Anon.Dispatcher

/-! ## Views -/

/-- `string_len`, with its pointer as an offset in the buffer; `none` is a null pointer. -/
structure StringLen where
  start : Option ℕ
  len : ℕ

namespace StringLen

/-- `str` -/
def str (s : StringLen) (buf : Bytes) : Bytes :=
  match s.start with
  | some start => (buf.drop start).take s.len
  | none => []

/-- `std::transform` with `std::tolower` -/
def lower (s : StringLen) (buf : Bytes) : Bytes :=
  match s.start with
  | some start =>
    buf.mapIdx fun i c => if start ≤ i ∧ i < start + s.len then toLower c else c
  | none => buf

end StringLen

/-- `headers.insert`; `operator<` compares the bytes with `memcmp` and then the lengths. -/
def insertHeader (buf : Bytes) (fld val : StringLen) :
    List (StringLen × StringLen) → List (StringLen × StringLen)
  | [] => [(fld, val)]
  | e :: headers =>
    if fld.str buf < e.1.str buf then (fld, val) :: e :: headers
    else e :: insertHeader buf fld val headers

/-! ## Callbacks -/

/-- What `on_headers_complete` copies from the parser. -/
structure ParserHead where
  httpMajor : ℕ
  httpMinor : ℕ
  method : ℕ
  /-- `F_CONTENTLENGTH` -/
  hasContentLength : Bool
  contentLength : ℕ

/-- The members of `pc` that the header callbacks work on, and the buffer. -/
structure Pc where
  /-- The first `bep` bytes of the buffer. -/
  buf : Bytes
  headerState : HeaderState
  lastFieldStart : Option ℕ
  lastFieldLen : ℕ
  lastValueStart : Option ℕ
  lastValueLen : ℕ
  headers : List (StringLen × StringLen)
  head : ParserHead

namespace Pc

/-- `init` -/
def init (c : Pc) : Pc :=
  { c with
    headerState := .kField
    lastFieldLen := 0
    lastValueLen := 0
    lastFieldStart := none
    lastValueStart := none
    headers := [] }

/-- The constructor, with the members that `http_request` leaves as they are. -/
def opened (head : ParserHead) : Pc := init ⟨[], .kField, none, 0, none, 0, [], head⟩

/-- What `http_server` does between two requests: the bytes that are left move to the front. -/
def keepAlive (c : Pc) (bsp : ℕ) : Pc := init { c with buf := c.buf.drop bsp }

/-- `fld` -/
def lastField (c : Pc) : StringLen := ⟨c.lastFieldStart, c.lastFieldLen⟩

/-- `val` -/
def lastValue (c : Pc) : StringLen := ⟨c.lastValueStart, c.lastValueLen⟩

/-- <field,value> complete, convert field to lower case and add new pair. -/
def addLast (c : Pc) : Pc :=
  let buf := c.lastField.lower c.buf
  { c with buf := buf, headers := insertHeader buf c.lastField c.lastValue c.headers }

/-- `on_header_field` -/
def onHeaderField (c : Pc) (pos length : ℕ) : Pc :=
  let c := match c.headerState with
    | .kValue =>
      { c.addLast with lastFieldStart := some pos, lastFieldLen := 0, headerState := .kField }
    | .kField => if c.lastFieldStart = none then { c with lastFieldStart := some pos } else c
  { c with lastFieldLen := c.lastFieldLen + length }

/-- `on_header_value` -/
def onHeaderValue (c : Pc) (pos length : ℕ) : Pc :=
  let c := match c.headerState with
    | .kField =>
      { c with lastValueStart := some pos, lastValueLen := 0, headerState := .kValue }
    | .kValue => c
  { c with lastValueLen := c.lastValueLen + length }

/-- `on_headers_complete` -/
def onHeadersComplete (c : Pc) (p : ParserHead) : Pc :=
  let c := { c with head := p }
  match c.headerState with
  | .kValue => c.addLast
  | .kField => c

/-- The headers with what the views show. -/
def contents (c : Pc) : Multimap Bytes Bytes :=
  c.headers.map fun e => (e.1.str c.buf, e.2.str c.buf)

end Pc

/-! ## Runs -/

/-- What happens while the parser is in the headers. -/
inductive BufferEvent
  /-- `http_pipe->read` -/
  | read (bytes : Bytes)
  | field (pos length : ℕ)
  | value (pos length : ℕ)

namespace Pc

def onEvent (c : Pc) : BufferEvent → Pc
  | .read bytes => { c with buf := c.buf ++ bytes }
  | .field pos length => c.onHeaderField pos length
  | .value pos length => c.onHeaderValue pos length

def run (c : Pc) (events : List BufferEvent) : Pc := events.foldl onEvent c

end Pc

/-- What is read. -/
def arriving (events : List BufferEvent) : Bytes :=
  events.flatMap fun
    | .read bytes => bytes
    | _ => []

/-- What is reported, in a text that has arrived completely. -/
def reported (text : Bytes) (events : List BufferEvent) : List HeaderEvent :=
  events.filterMap fun
    | .read _ => none
    | .field pos length => some (.field ((text.drop pos).take length))
    | .value pos length => some (.value ((text.drop pos).take length))

/-- The parser goes through the buffer from the front to the back and reports what has arrived: a
piece of the same name or value as the piece before, which ended at `stop`, lies right behind it,
and another one lies there or further back. `arrived` bytes have arrived. -/
def Consecutive (before : Option HeaderState) (stop arrived : ℕ) : List BufferEvent → Prop
  | [] => True
  | .read bytes :: events => Consecutive before stop (arrived + bytes.length) events
  | .field pos length :: events =>
    (if before = some .kField then pos = stop else stop ≤ pos) ∧ pos + length ≤ arrived ∧
      Consecutive (some .kField) (pos + length) arrived events
  | .value pos length :: events =>
    (if before = some .kValue then pos = stop else stop ≤ pos) ∧ pos + length ≤ arrived ∧
      Consecutive (some .kValue) (pos + length) arrived events

/-- The state in which the connection is when the parser begins with a request: the first one on
the connection, or one behind any other. -/
inductive RequestBegins : Pc → Prop
  | opened (head : ParserHead) : RequestBegins (Pc.opened head)
  | keepAlive (c : Pc) (bsp : ℕ) : RequestBegins (c.keepAlive bsp)

end Anon.Dispatcher

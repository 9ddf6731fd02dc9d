import Anon.Dispatcher.Dispatch

/-!
# Parsing the headers

The callbacks of `http_server` that collect the headers of a request. The parser reports the name
and the value of a header in pieces, which lie next to each other in the buffer of the connection,
so that a start and a length stand for their concatenation.

* `HeaderParser`: the part of the state of a connection that the callbacks work on.
* `parse_eventsOf`: what they collect does not depend on where the pieces are cut.
* `head?_find_parsedHeaders`: the first header with a name is the one that is found.
-/

namespace Anon.Dispatcher

/-- `std::tolower` -/
def toLower (c : UInt8) : UInt8 := if 65 ≤ c ∧ c ≤ 90 then c + 32 else c

inductive HeaderState
  | kValue
  | kField
  deriving DecidableEq

/-- The members of `pc` that collect headers. -/
structure HeaderParser where
  headerState : HeaderState
  /-- `last_field_start` and `last_field_len` -/
  lastField : Bytes
  /-- `last_value_start` and `last_value_len` -/
  lastValue : Bytes
  headers : Multimap Bytes Bytes

/-- What the parser reports. -/
inductive HeaderEvent
  | field (piece : Bytes)
  | value (piece : Bytes)
  deriving DecidableEq

namespace HeaderParser

/-- `init` -/
def init : HeaderParser := ⟨.kField, [], [], []⟩

/-- Enter the last header, its name in lower case. -/
def enterLast (c : HeaderParser) : Multimap Bytes Bytes :=
  c.headers.insert (c.lastField.map toLower) c.lastValue

/-- `on_header_field` -/
def onHeaderField (c : HeaderParser) (piece : Bytes) : HeaderParser :=
  match c.headerState with
  | .kValue => { c with headers := c.enterLast, lastField := piece, headerState := .kField }
  | .kField => { c with lastField := c.lastField ++ piece }

/-- `on_header_value` -/
def onHeaderValue (c : HeaderParser) (piece : Bytes) : HeaderParser :=
  match c.headerState with
  | .kField => { c with lastValue := piece, headerState := .kValue }
  | .kValue => { c with lastValue := c.lastValue ++ piece }

/-- The headers after `on_headers_complete`. -/
def onHeadersComplete (c : HeaderParser) : Multimap Bytes Bytes :=
  match c.headerState with
  | .kValue => c.enterLast
  | .kField => c.headers

def onEvent (c : HeaderParser) : HeaderEvent → HeaderParser
  | .field piece => c.onHeaderField piece
  | .value piece => c.onHeaderValue piece

def run (c : HeaderParser) (events : List HeaderEvent) : HeaderParser := events.foldl onEvent c

end HeaderParser

/-- The headers of a request, in the order in which they were sent. -/
def parsedHeaders (fields : List (Bytes × Bytes)) : Multimap Bytes Bytes :=
  fields.foldl (fun headers e => headers.insert (e.1.map toLower) e.2) []

/-! ## Pieces -/

/-- A header whose name and value are cut into pieces. -/
structure CutHeader where
  fieldPieces : List Bytes
  valuePieces : List Bytes
  field_ne : fieldPieces ≠ []
  value_ne : valuePieces ≠ []

def CutHeader.events (h : CutHeader) : List HeaderEvent :=
  h.fieldPieces.map .field ++ h.valuePieces.map .value

/-- The header itself. -/
def CutHeader.entry (h : CutHeader) : Bytes × Bytes :=
  (h.fieldPieces.flatten, h.valuePieces.flatten)

namespace HeaderParser

variable {c : HeaderParser}

/-- No name has been begun. -/
def Ready (c : HeaderParser) : Prop := c.headerState = .kValue ∨ c.lastField = []

theorem run_append (c : HeaderParser) (events events' : List HeaderEvent) :
    c.run (events ++ events') = (c.run events).run events' :=
  List.foldl_append

/-- Further pieces of a name. -/
theorem run_fields (hc : c.headerState = .kField) (pieces : List Bytes) :
    c.run (pieces.map .field) = { c with lastField := c.lastField ++ pieces.flatten } := by
  induction pieces generalizing c with
  | nil =>
    show c = _
    rw [List.flatten_nil, List.append_nil]
  | cons piece pieces ih =>
    show (c.onHeaderField piece).run (pieces.map .field) = _
    have hpiece : c.onHeaderField piece = { c with lastField := c.lastField ++ piece } := by
      rw [onHeaderField, hc]
    rw [hpiece, ih, List.flatten_cons, List.append_assoc]
    exact hc

/-- Further pieces of a value. -/
theorem run_values (hc : c.headerState = .kValue) (pieces : List Bytes) :
    c.run (pieces.map .value) = { c with lastValue := c.lastValue ++ pieces.flatten } := by
  induction pieces generalizing c with
  | nil =>
    show c = _
    rw [List.flatten_nil, List.append_nil]
  | cons piece pieces ih =>
    show (c.onHeaderValue piece).run (pieces.map .value) = _
    have hpiece : c.onHeaderValue piece = { c with lastValue := c.lastValue ++ piece } := by
      rw [onHeaderValue, hc]
    rw [hpiece, ih, List.flatten_cons, List.append_assoc]
    exact hc

/-- The first piece of a name ends the header before. -/
theorem onHeaderField_of_ready (hc : c.Ready) (piece : Bytes) : c.onHeaderField piece =
    { c with headers := c.onHeadersComplete, lastField := piece, headerState := .kField } := by
  unfold onHeaderField onHeadersComplete
  cases hstate : c.headerState with
  | kValue => rfl
  | kField =>
    have hempty : c.lastField = [] := by
      obtain hvalue | hempty := hc
      · exact absurd (hstate.symm.trans hvalue) (by simp)
      · exact hempty
    simp only [hempty, List.nil_append]

/-- The pieces of one header leave the header as the last one. -/
theorem run_events (hc : c.Ready) (h : CutHeader) : c.run h.events =
    ⟨.kValue, h.entry.1, h.entry.2, c.onHeadersComplete⟩ := by
  obtain ⟨field, fields, hfields⟩ := List.exists_cons_of_ne_nil h.field_ne
  obtain ⟨value, values, hvalues⟩ := List.exists_cons_of_ne_nil h.value_ne
  rw [CutHeader.events, CutHeader.entry, hfields, hvalues, run_append]
  have hname : c.run ((field :: fields).map .field) =
      ⟨.kField, (field :: fields).flatten, c.lastValue, c.onHeadersComplete⟩ := by
    show (c.onHeaderField field).run (fields.map .field) = _
    rw [onHeaderField_of_ready hc, run_fields, List.flatten_cons]
    rfl
  rw [hname]
  show run ⟨.kValue, (field :: fields).flatten, value, c.onHeadersComplete⟩ (values.map .value) = _
  rw [run_values, List.flatten_cons]
  · rfl
  · rfl

/-- What is collected does not depend on where the names and values are cut. -/
theorem parse_eventsOf (hs : List CutHeader) :
    (init.run (hs.flatMap CutHeader.events)).onHeadersComplete =
      parsedHeaders (hs.map CutHeader.entry) := by
  have hrun : ∀ c : HeaderParser, c.Ready →
      (c.run (hs.flatMap CutHeader.events)).onHeadersComplete =
        (hs.map CutHeader.entry).foldl
          (fun headers e => headers.insert (e.1.map toLower) e.2) c.onHeadersComplete := by
    induction hs with
    | nil => exact fun c _ => rfl
    | cons h hs ih =>
      intro c hc
      rw [List.flatMap_cons, run_append, run_events hc, ih _ (.inl rfl)]
      rfl
  exact hrun init (.inr rfl)

end HeaderParser

/-! ## Looking for a header -/

theorem sorted_parsedHeaders (fields : List (Bytes × Bytes)) : (parsedHeaders fields).Sorted := by
  induction fields using List.reverseRecOn with
  | nil => exact List.Pairwise.nil
  | append_singleton fields e ih =>
    rw [parsedHeaders, List.foldl_append]
    exact Multimap.Sorted.insert ih _ _

/-- The first entry with a name is the first header with this name. -/
theorem head?_find_parsedHeaders (fields : List (Bytes × Bytes)) (name : Bytes) :
    ((parsedHeaders fields).find name).head? =
      (fields.find? fun e => e.1.map toLower = name).map fun e => (e.1.map toLower, e.2) := by
  induction fields using List.reverseRecOn with
  | nil => rfl
  | append_singleton fields e ih =>
    have hlast : parsedHeaders (fields ++ [e]) =
        (parsedHeaders fields).insert (e.1.map toLower) e.2 := by
      rw [parsedHeaders, List.foldl_append]
      rfl
    rw [hlast, (sorted_parsedHeaders fields).head?_find_insert, ih, List.find?_append,
      Option.map_or]
    congr 1
    by_cases hname : e.1.map toLower = name
    · rw [if_pos hname, List.find?_cons_of_pos (by simpa using hname)]
      rfl
    · rw [if_neg hname, List.find?_cons_of_neg (by simpa using hname)]
      rfl

end Anon.Dispatcher

import Anon.Lib.CString
import Anon.Lib.OrderedMap

/-!
# Request mappings

The registration side of `request_dispatcher`: what `request_mapping_helper` makes of a path
specification, and the table that `request_mapping` fills. A path specification looks like
`/a/{x}/b?q&r?h`: a path with variables, then the names of query string items, then the names of
headers. The three regular expressions that take it apart are modelled by what they match; the
one that is made of the path stays a string.

* `pathPieces`: the literal text and the variables of a path.
* `requestMappingHelper`: a path specification, taken apart.
* `RequestDispatcher.requestMapping`: one more entry in the table.
-/

namespace Anon.Dispatcher

def questionMark : UInt8 := 63
def openBrace : UInt8 := 123
def closeBrace : UInt8 := 125
def ampersand : UInt8 := 38
def newline : UInt8 := 10
def slash : UInt8 := 47

/-- A piece of the path of a path specification: a literal character or a `{...}`. -/
inductive Piece
  | lit (c : UInt8)
  | var
  deriving DecidableEq

/-- The pieces of a path, from inside a `{...}` or not. A `{` that no `}` closes is a literal
character. -/
def pathPieces (inVar : Bool) : Bytes → List Piece
  | [] => []
  | c :: rest =>
    if inVar then pathPieces (c ≠ closeBrace) rest
    else if c = openBrace ∧ closeBrace ∈ rest then .var :: pathPieces true rest
    else .lit c :: pathPieces false rest

/-- The text of the regular expression for a piece of a path. -/
def Piece.regex : Piece → Bytes
  | .lit c => [c]
  | .var => ascii "([^/]*)"

/-- `([^?]*)(.*)`, which matches unless there is a newline behind the first `?`. -/
def splitAtQ (s : Bytes) : Option (Bytes × Bytes) :=
  let rest := s.dropWhile fun c => c ≠ questionMark
  if newline ∈ rest then none else some (s.takeWhile fun c => c ≠ questionMark, rest)

/-- `([^?{]*)(.*)`, which matches unless there is a newline behind the first `?` or `{`. -/
def splitAtVar (s : Bytes) : Option (Bytes × Bytes) :=
  let rest := s.dropWhile fun c => c ≠ questionMark ∧ c ≠ openBrace
  if newline ∈ rest then none
  else some (s.takeWhile fun c => c ≠ questionMark ∧ c ≠ openBrace, rest)

/-- `([^&]+)`, found as often as it is there. -/
def splitAtAnd (s : Bytes) : List Bytes := (s.splitOn ampersand).filter fun item => item ≠ []

structure RequestHelper where
  /-- The text of the regular expression `path_re`. -/
  pathRe : Bytes
  numPathSubstitutions : ℕ
  nonVar : Bytes
  queryStringItems : List Bytes
  headerItems : List Bytes
  deriving DecidableEq

/-- The path of a path specification. -/
def pathOf (pathSpec : Bytes) : Bytes := pathSpec.takeWhile fun c => c ≠ questionMark

/-- The names behind the path: of query string items and of headers. -/
def splitItems (path query : Bytes) : Except Bytes (Bytes × Bytes) :=
  if 0 < query.length then
    match splitAtQ query.tail with
    | some (query, headers) => .ok (query, headers.tail)
    | none => .error (ascii "request_mapping failed, invalid path: " ++ path)
  else .ok (query, [])

/-- `request_mapping_helper` -/
def requestMappingHelper (pathSpec : Bytes) : Except Bytes RequestHelper :=
  match splitAtQ pathSpec with
  | none => .error (ascii "request_mapping failed, invalid path: " ++ pathSpec)
  | some (path, query) => do
    let (query, headers) ← splitItems path query
    let pieces := pathPieces false path
    match splitAtVar pathSpec with
    | none => .error (ascii "request_mapping failed, invalid path")
    | some (nonVar, _) =>
      return {
        pathRe := pieces.flatMap Piece.regex
        numPathSubstitutions := pieces.count .var
        nonVar := nonVar
        queryStringItems := splitAtAnd query
        headerItems := splitAtAnd headers }

variable {F : Type}

/-- What `get_map_responder` and `get_map_responder_body` capture. The function has one string
parameter for each variable and item of the path specification. -/
structure MapResponder (F : Type) where
  f : F
  /-- Made by `get_map_responder_body`: the function gets the body as json. -/
  body : Bool
  allowedHeaders : List Bytes
  h : RequestHelper
  deriving DecidableEq

structure RequestDispatcher (F : Type) where
  /-- `_map` -/
  map : OrderedMap Bytes (OrderedMap Bytes (List (MapResponder F)))
  /-- `_root_path` -/
  rootPath : Bytes
  /-- `_cors_enabled` -/
  corsEnabled : BitVec 32

/-- The constructor. -/
def RequestDispatcher.new (rootPath : Bytes) (corsEnabled : BitVec 32) : RequestDispatcher F :=
  ⟨[], rootPath, corsEnabled⟩

/-- A call of `request_mapping` or of `request_mapping_body`. -/
structure Registration (F : Type) where
  method : Bytes
  pathSpec : Bytes
  f : F
  body : Bool
  allowedHeaders : List Bytes

/-- `vec[key].push_back(value)` -/
def pushBack {V : Type*} (key : Bytes) (value : V) (m : OrderedMap Bytes (List V)) :
    OrderedMap Bytes (List V) :=
  m.alter key fun values => values.getD [] ++ [value]

/-- `request_mapping` and `request_mapping_body` -/
def RequestDispatcher.requestMapping (d : RequestDispatcher F) (r : Registration F) :
    Except Bytes (RequestDispatcher F) :=
  let fullPathSpec := d.rootPath ++ r.pathSpec
  match splitAtVar fullPathSpec with
  | none => .error (ascii "path split failed, invalid path: " ++ fullPathSpec)
  | some (nonVar, _) => do
    let h ← requestMappingHelper fullPathSpec
    return { d with
      map := d.map.alter r.method fun buckets =>
        pushBack nonVar ⟨r.f, r.body, r.allowedHeaders, h⟩ (buckets.getD []) }

/-- One call after the other. -/
def RequestDispatcher.register (d : RequestDispatcher F) (regs : List (Registration F)) :
    Except Bytes (RequestDispatcher F) :=
  regs.foldlM RequestDispatcher.requestMapping d

end Anon.Dispatcher

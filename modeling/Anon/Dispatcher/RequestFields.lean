import Anon.Dispatcher.Dispatch
import Anon.Lib.CString

/-!
# Fields of a request

The members of `http_request` that look for a query string parameter or a cookie, or take a
parameter out of a URL. They scan the text with pointers; here, a pointer into a text is what is
left of it from there on, or an offset where the text in front is needed as well.

* `getQueryVal`: the value of a parameter, or a default, or an exception.
* `removeQueryField`: a URL without a parameter.
* `getCookieVal`: the value of a cookie.
-/

namespace Anon.Dispatcher

/-- `=` -/
def equals : UInt8 := 61

/-- `;` -/
def semicolon : UInt8 := 59

def space : UInt8 := 32

/-! ## Query string parameters -/

theorem length_drop_memchr {s : Bytes} {c : UInt8} {i : ℕ} (h : memchr s c = some i) :
    (s.drop (i + 1)).length < s.length := by
  obtain ⟨hlt, -⟩ := List.findIdx?_eq_some_iff_getElem.mp h
  rw [List.length_drop]
  omega

/-- The loop of `get_query_val_s`. -/
def queryValLoop (field qs : Bytes) : Option Bytes :=
  if field.length + 1 < qs.length then
    if field <+: qs ∧ qs[field.length]? = some equals then
      let vs := qs.drop (field.length + 1)
      match memchr vs ampersand with
      | some ampr => some (vs.take ampr)
      | none => some vs
    else
      match _h : memchr qs ampersand with
      | some ampr => queryValLoop field (qs.drop (ampr + 1))
      | none => none
  else none
termination_by qs.length
decreasing_by exact length_drop_memchr _h

/-- The message of the exception for a parameter that is missing. -/
def missingField (field : Bytes) : Bytes :=
  ascii "missing, required querystring field: \"" ++ field ++ ascii "\""

/-- `get_query_val_s` -/
def getQueryValS (query field dflt : Bytes) (required : Bool) : Except HttpError Bytes :=
  match queryValLoop field query with
  | some val => .ok val
  | none => if required then .error (.runtime (missingField field)) else .ok dflt

/-- `get_query_val` -/
def HttpRequest.getQueryVal (request : HttpRequest) (field dflt : Bytes) (required : Bool) :
    Except HttpError Bytes :=
  getQueryValS request.query field dflt required

/-! ## A URL without a parameter -/

/-- The URL without the parameter at the offset `qs`. -/
def stripField (uri field : Bytes) (qs : ℕ) : Bytes :=
  let stripped := uri.take qs
  match strchr (uri.drop (qs + field.length)) ampersand with
  -- skip this & since stripped already ends in either & or ?
  | some ampr => stripped ++ cString (uri.drop (qs + field.length + (ampr + 1)))
  -- strip off the trailing & or ?
  | none => stripped.take (stripped.length - 1)

/-- The loop of `remove_query_field`, with `qs` as an offset. -/
def removeQueryLoop (uri field : Bytes) (qs : ℕ) : Bytes :=
  if qs + field.length + 1 < uri.length then
    if field <+: uri.drop qs ∧ (uri[qs + field.length]? = some equals ∨
        uri[qs + field.length]? = some ampersand) then
      stripField uri field qs
    else removeQueryLoop uri field (qs + strchrnul (uri.drop qs) ampersand + 1)
  else uri
termination_by uri.length - qs

/-- `remove_query_field` -/
def removeQueryField (uri field : Bytes) : Bytes :=
  match strchr uri questionMark with
  | none => uri
  | some qs => removeQueryLoop uri field (qs + 1)

/-! ## Cookies -/

/-- The text behind the next `;`. -/
def skipValue (ptr : Bytes) : Bytes := (ptr.dropWhile fun c => c ≠ semicolon).drop 1

/-- Where the loop goes on, behind a piece's name and the `=` or `;` that ends it. -/
def nextPiece (c : UInt8) (ptr : Bytes) : Bytes :=
  let ptr := if c = equals then skipValue ptr else ptr
  ptr.dropWhile fun c => c = space

theorem length_nextPiece_le (c : UInt8) (ptr : Bytes) :
    (nextPiece c ptr).length ≤ ptr.length := by
  have hskip : (skipValue ptr).length ≤ ptr.length := by
    have hsub : (ptr.dropWhile fun c => c ≠ semicolon).length ≤ ptr.length :=
      (List.dropWhile_sublist _).length_le
    rw [skipValue, List.length_drop]
    omega
  have hspaces : (nextPiece c ptr).length ≤ (if c = equals then skipValue ptr else ptr).length :=
    (List.dropWhile_sublist _).length_le
  split at hspaces
  · omega
  · exact hspaces

/-- The loop of `get_cookie_val`. -/
def cookieValLoop (name ptr : Bytes) : Bytes :=
  if ptr = [] then []
  else
    let e := ptr.dropWhile fun c => c ≠ equals ∧ c ≠ semicolon
    if ptr.length - e.length = name.length ∧ name <+: ptr then
      if 1 < e.length ∧ e.head? = some equals then
        (e.drop 1).takeWhile fun c => c ≠ semicolon
      else []
    else
      match _h : e with
      | [] => []
      -- skip '=' or ';', whichever it is
      | c :: rest => cookieValLoop name (nextPiece c rest)
termination_by ptr.length
decreasing_by
  have hle : e.length ≤ ptr.length := (List.dropWhile_sublist _).length_le
  have hnext := length_nextPiece_le c rest
  rw [_h, List.length_cons] at hle
  omega

/-- `get_cookie_val` -/
def HttpRequest.getCookieVal (request : HttpRequest) (name : Bytes) : Bytes :=
  cookieValLoop name (request.getHeader (ascii "cookie"))

end Anon.Dispatcher

import Anon.BigEndian
import Anon.Lib.Lines
import Anon.Lib.OrderedMap

/-!
# Responses

`http_response` of `http_server.h`, and `http_server::pipe_t::respond`, which writes one.

* `BrowserCookie`, `HttpResponse`: what handlers put together.
* `cookieText`: a cookie as the value of its header.
* `respond`: the bytes that are written.
-/

namespace Anon.Http

/-- `browser_cookie` -/
structure BrowserCookie where
  name : Bytes
  value : Bytes
  maxAge : ℤ
  path : Bytes := []
  domain : Bytes := []
  secure : Bool := false
  httpOnly : Bool := false
  sameSite : Bytes := []
  deleteIt : Bool := false

/-- `http_response` -/
structure HttpResponse where
  statusCode : Bytes := ascii "200 OK"
  /-- A `std::map`: each name once, in the order of the names. -/
  headers : OrderedMap Bytes Bytes := []
  sorted : OrderedMap.Sorted headers := by exact OrderedMap.sorted_nil
  cookies : List BrowserCookie := []
  /-- `ostr_.str()` -/
  body : Bytes := []

namespace HttpResponse

/-- `add_header` -/
def addHeader (response : HttpResponse) (field value : Bytes) : HttpResponse :=
  { response with
    headers := response.headers.alter field fun _ => value
    sorted := response.sorted.alter field fun _ => value }

/-- `operator<<` -/
def write (response : HttpResponse) (text : Bytes) : HttpResponse :=
  { response with body := response.body ++ text }

end HttpResponse

/-- What is written of a cookie behind `Set-Cookie: `. -/
def cookieText (c : BrowserCookie) : Bytes :=
  c.name ++ ascii "=" ++
  (if c.deleteIt then [] else c.value) ++
  (if c.path = [] then [] else ascii "; Path=" ++ c.path) ++
  (if c.domain = [] then [] else ascii "; Domain=" ++ c.domain) ++
  (if c.deleteIt then ascii "; Max-Age=0"
    else if 0 < c.maxAge then ascii "; Max-Age=" ++ ascii (toString c.maxAge)
    else if c.maxAge < 0 then ascii "; expires=Thu, 01 Jan 1970 00:00:00 GMT"
    else []) ++
  (if c.sameSite = [] then [] else ascii "; SameSite=" ++ c.sameSite) ++
  (if c.secure ∨ c.sameSite = ascii "None" then ascii "; Secure" else []) ++
  (if c.httpOnly then ascii "; HttpOnly" else [])

/-- `respond` -/
def respond (response : HttpResponse) : Bytes :=
  let rp := ascii "HTTP/1.1 " ++ response.statusCode ++ crlf
  let rp := response.headers.foldl (fun rp it => rp ++ (it.1 ++ ascii ": " ++ it.2 ++ crlf)) rp
  let rp := response.cookies.foldl
    (fun rp it => rp ++ (ascii "Set-Cookie: " ++ cookieText it ++ crlf)) rp
  let rp := if 0 < response.body.length then
      rp ++ (ascii "content-length: " ++ ascii (toString response.body.length) ++ crlf)
    else rp
  let rp := rp ++ crlf
  if response.body.length ≠ 0 then rp ++ response.body else rp

end Anon.Http

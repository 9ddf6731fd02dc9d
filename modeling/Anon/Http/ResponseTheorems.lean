import Anon.Http.Response
import Anon.Lib.HttpMessage

/-!
# What a client reads of a response

`respond` writes a head, whose `content-length` depends on the body and not on the status or on the
headers of the user, and the body.

* `respond_eq`: the lines that are written, and the body.
* `SelfDelimiting`: a client reads the response back, and knows where it ends.
* `selfDelimiting_iff`: when it does.
-/

namespace Anon.Http

variable {response : HttpResponse}

/-! ## The lines of the head -/

def statusLine (response : HttpResponse) : Bytes := ascii "HTTP/1.1 " ++ response.statusCode

def headerLine (f : Bytes × Bytes) : Bytes := f.1 ++ ascii ": " ++ f.2

def cookieLine (c : BrowserCookie) : Bytes := ascii "Set-Cookie" ++ ascii ": " ++ cookieText c

/-- The header that `respond` adds. -/
def lengthHeaders (response : HttpResponse) : List (Bytes × Bytes) :=
  if response.body = [] then []
  else [(ascii "content-length", ascii (toString response.body.length))]

/-- The header lines. -/
def fieldLines (response : HttpResponse) : List Bytes :=
  response.headers.map headerLine ++ response.cookies.map cookieLine ++
    (lengthHeaders response).map headerLine

theorem foldl_lines {α : Type} (g : α → Bytes) (xs : List α) (rp : Bytes) :
    xs.foldl (fun rp x => rp ++ (g x ++ crlf)) rp =
      rp ++ ((xs.map g).map (· ++ crlf)).flatten := by
  induction xs generalizing rp with
  | nil => simp
  | cons x xs ih =>
    rw [List.foldl_cons, ih]
    simp

/-- `respond` writes the lines of the head, an empty line and the body. -/
theorem respond_eq (response : HttpResponse) :
    respond response =
      ((statusLine response :: fieldLines response).map (· ++ crlf)).flatten ++ crlf ++
        response.body := by
  have hheaders := foldl_lines headerLine response.headers
  have hcookies := foldl_lines cookieLine response.cookies
  have hheader : ∀ f : Bytes × Bytes, f.1 ++ ascii ": " ++ f.2 = headerLine f := fun _ => rfl
  have hset : ∀ c, ascii "Set-Cookie: " ++ cookieText c = cookieLine c := fun _ => rfl
  have hlength : ∀ n : ℕ, ascii "content-length: " ++ ascii (toString n) =
      headerLine (ascii "content-length", ascii (toString n)) := fun _ => rfl
  unfold respond
  simp only [hheader, hset, hlength, hheaders, hcookies]
  by_cases hbody : response.body = []
  · simp [hbody, fieldLines, lengthHeaders, statusLine]
  · have hpos : 0 < response.body.length := List.length_pos_of_ne_nil hbody
    simp [hbody, hpos, fieldLines, lengthHeaders, statusLine]

/-! ## What a client reads -/

/-- No line of the head ends in between. -/
structure OneLine (response : HttpResponse) : Prop where
  status : cr ∉ response.statusCode
  headers : ∀ f ∈ response.headers, cr ∉ f.1 ∧ cr ∉ f.2
  cookies : ∀ c ∈ response.cookies, cr ∉ cookieText c

/-- A client that gets the response, and anything behind it, reads one response with the status, the
headers and the body, and what is behind it. -/
def SelfDelimiting (response : HttpResponse) : Prop :=
  ∃ p : ResponseMessage, parseStatus response.statusCode = some p.status ∧
    response.headers <+: p.headers ∧ p.body = response.body ∧
    ∀ rest, parseResponse (respond response ++ rest) = some (p, rest)

/-- How a status and the headers of the user tell the length of the body that `respond` writes. -/
def TellsLength (response : HttpResponse) (status : ℕ) : Prop :=
  if hasNoBody status then response.body = []
  else
    valuesOf (ascii "transfer-encoding") response.headers = [] ∧
      if response.body = [] then
        ∃ v, valuesOf (ascii "content-length") response.headers = [v] ∧
          parseContentLength v = some 0
      else valuesOf (ascii "content-length") response.headers = []

/-- The parts of the head are what they should be, and the length of the body is told once. -/
structure Delimited (response : HttpResponse) : Prop where
  headers : ∀ f ∈ response.headers, IsToken f.1 ∧ IsFieldValue f.2
  cookies : ∀ c ∈ response.cookies, (cookieText c).all isFieldChar = true
  status : ∃ status, parseStatus response.statusCode = some status ∧ TellsLength response status

/-- The lines of the head are lines that are not empty. -/
theorem OneLine.head (h : OneLine response) :
    ∀ l ∈ statusLine response :: fieldLines response, cr ∉ l ∧ l ≠ [] := by
  have hcolon : ∀ n v : Bytes, cr ∉ n → cr ∉ v →
      cr ∉ n ++ ascii ": " ++ v ∧ n ++ ascii ": " ++ v ≠ [] := by
    intro n v hn hv
    refine ⟨?_, by simp [ascii]⟩
    rw [List.mem_append, List.mem_append, not_or, not_or]
    exact ⟨⟨hn, by decide⟩, hv⟩
  intro l hl
  rcases List.mem_cons.mp hl with rfl | hl
  · refine ⟨?_, by simp [statusLine, ascii]⟩
    rw [statusLine, List.mem_append, not_or]
    exact ⟨by decide, h.status⟩
  · rcases List.mem_append.mp hl with hl | hl
    · rcases List.mem_append.mp hl with hl | hl
      · obtain ⟨f, hf, rfl⟩ := List.mem_map.mp hl
        exact hcolon f.1 f.2 (h.headers f hf).1 (h.headers f hf).2
      · obtain ⟨c, hc, rfl⟩ := List.mem_map.mp hl
        exact hcolon _ _ (by decide) (h.cookies c hc)
    · obtain ⟨f, hf, rfl⟩ := List.mem_map.mp hl
      rw [lengthHeaders] at hf
      split at hf
      · exact absurd hf List.not_mem_nil
      · rw [List.mem_singleton.mp hf]
        apply hcolon (ascii "content-length") _ (by decide)
        intro hcr
        exact absurd (digit_of_mem_toString hcr) (by decide)

/-! ## The header lines -/

/-- The header lines give the headers back if they have names and values. -/
theorem mapM_headerLine {fs : List (Bytes × Bytes)} :
    (fs.map headerLine).mapM parseField = some fs ↔ ∀ f ∈ fs, IsToken f.1 ∧ IsFieldValue f.2 := by
  rw [mapM_eq_some_iff, List.forall₂_map_left_iff, List.forall₂_same]
  constructor
  · intro h f hf
    exact parseField_eq_self_iff.mp (h f hf)
  · intro h f hf
    exact parseField_eq_self_iff.mpr (h f hf)

theorem isToken_setCookie : IsToken (ascii "Set-Cookie") := by decide

theorem parseField_cookieLine {c : BrowserCookie} {f : Bytes × Bytes} :
    parseField (cookieLine c) = some f ↔ (cookieText c).all isFieldChar = true ∧
      f = (ascii "Set-Cookie", trim (cookieText c)) := by
  rw [cookieLine, parseField_line (by decide)]
  by_cases hchars : (cookieText c).all isFieldChar = true
  · rw [if_pos ⟨isToken_setCookie, hchars⟩, Option.some.injEq]
    exact ⟨fun h => ⟨hchars, h.symm⟩, fun h => h.2.symm⟩
  · rw [if_neg fun h => hchars h.2]
    exact ⟨fun h => absurd h (by simp), fun h => absurd h.1 hchars⟩

/-- The cookies are read as headers with a name of their own. -/
theorem mapM_cookieLine {cs : List BrowserCookie} {hs : List (Bytes × Bytes)} :
    (cs.map cookieLine).mapM parseField = some hs ↔
      (∀ c ∈ cs, (cookieText c).all isFieldChar = true) ∧
        hs = cs.map fun c => (ascii "Set-Cookie", trim (cookieText c)) := by
  rw [mapM_eq_some_iff, List.forall₂_map_left_iff]
  induction cs generalizing hs with
  | nil => simp [List.forall₂_nil_left_iff]
  | cons c cs ih =>
    rw [List.forall₂_cons_left_iff, List.forall_mem_cons, List.map_cons]
    constructor
    · rintro ⟨f, hs', hf, hhs, rfl⟩
      obtain ⟨hchars, rfl⟩ := parseField_cookieLine.mp hf
      obtain ⟨hall, rfl⟩ := ih.mp hhs
      exact ⟨⟨hchars, hall⟩, rfl⟩
    · rintro ⟨⟨hchars, hall⟩, rfl⟩
      exact ⟨_, _, parseField_cookieLine.mpr ⟨hchars, rfl⟩, ih.mpr ⟨hall, rfl⟩, rfl⟩

/-- The added header is read back. -/
theorem mapM_lengthHeaders (response : HttpResponse) :
    ((lengthHeaders response).map headerLine).mapM parseField = some (lengthHeaders response) := by
  apply mapM_headerLine.mpr
  intro f hf
  rw [lengthHeaders] at hf
  split at hf
  · exact absurd hf List.not_mem_nil
  · rw [List.mem_singleton.mp hf]
    have hname : IsToken (ascii "content-length") := by decide
    exact ⟨hname, isFieldValue_toString _⟩

/-! ## Where the response ends -/

/-- The values of a header that is not `Set-Cookie`, of which some are the user's. -/
theorem valuesOf_head {name : Bytes} (hname : (ascii "Set-Cookie").map lowerCase ≠ name)
    (response : HttpResponse) :
    valuesOf name (response.headers ++
        response.cookies.map (fun c => (ascii "Set-Cookie", trim (cookieText c))) ++
        lengthHeaders response) =
      valuesOf name response.headers ++ valuesOf name (lengthHeaders response) := by
  have hcookies : valuesOf name
      (response.cookies.map fun c => (ascii "Set-Cookie", trim (cookieText c))) = [] := by
    apply valuesOf_eq_nil
    intro f hf
    obtain ⟨c, -, rfl⟩ := List.mem_map.mp hf
    exact hname
  rw [valuesOf_append, valuesOf_append, hcookies, List.append_nil]

/-- The head tells the length of the body that is written. -/
theorem bodyLength_head_iff (response : HttpResponse) (status : ℕ) :
    bodyLength status (response.headers ++
        response.cookies.map (fun c => (ascii "Set-Cookie", trim (cookieText c))) ++
        lengthHeaders response) = some response.body.length ↔ TellsLength response status := by
  unfold bodyLength TellsLength
  by_cases hno : hasNoBody status
  · rw [if_pos hno, if_pos hno, Option.some.injEq, eq_comm, List.length_eq_zero_iff]
  · have hcoding : valuesOf (ascii "transfer-encoding") (lengthHeaders response) = [] := by
      unfold lengthHeaders
      split
      · rfl
      · apply valuesOf_eq_nil
        intro f hf
        rw [List.mem_singleton.mp hf]
        show (ascii "content-length").map lowerCase ≠ _
        decide
    rw [if_neg hno, if_neg hno, valuesOf_head (by decide), hcoding, List.append_nil,
      valuesOf_head (by decide)]
    by_cases hte : valuesOf (ascii "transfer-encoding") response.headers = []
    · rw [if_neg (not_not.mpr hte), singleLength_eq_some_iff]
      by_cases hbody : response.body = []
      · rw [if_pos hbody, lengthHeaders, if_pos hbody, hbody]
        show (∃ v, _ ++ [] = [v] ∧ _) ↔ _
        rw [List.append_nil]
        exact ⟨fun h => ⟨hte, h⟩, fun h => h.2⟩
      · -- the user's lengths are in front of the one that is added
        have hvalues : valuesOf (ascii "content-length") (lengthHeaders response) =
            [ascii (toString response.body.length)] := by
          rw [lengthHeaders, if_neg hbody]
          rfl
        rw [if_neg hbody, hvalues]
        constructor
        · rintro ⟨v, hv, -⟩
          exact ⟨hte, (List.append_eq_singleton_iff.mp hv).resolve_right (by simp) |>.1⟩
        · intro h
          rw [h.2]
          exact ⟨_, rfl, parseContentLength_toString _⟩
    · rw [if_pos hte]
      exact ⟨fun h => absurd h (by simp), fun h => absurd h.1 hte⟩

/-- A client reads a response back and knows where it ends, if the parts of its head are what they
should be and the length of its body is told once, and only then. -/
theorem selfDelimiting_iff (h : OneLine response) :
    SelfDelimiting response ↔ Delimited response := by
  have hparse : ∀ p : ResponseMessage,
      (∀ rest, parseResponse (respond response ++ rest) = some (p, rest)) ↔
        parseStatusLine (statusLine response) = some p.status ∧
          (fieldLines response).mapM parseField = some p.headers ∧
          bodyLength p.status p.headers = some response.body.length ∧ p.body = response.body := by
    intro p
    rw [← parseResponse_iff h.head]
    simp only [respond_eq, List.append_assoc]
  have hstatus : parseStatusLine (statusLine response) = parseStatus response.statusCode :=
    parseStatusLine_append _
  constructor
  · rintro ⟨p, -, hheaders, -, hall⟩
    obtain ⟨hline, hfields, hlength, -⟩ := (hparse p).mp hall
    obtain ⟨front, hs₃, hfront, hhs₃, hp⟩ := mapM_append_eq_some.mp hfields
    obtain ⟨hs₁, hs₂, hhs₁, hhs₂, rfl⟩ := mapM_append_eq_some.mp hfront
    obtain ⟨hcookies, rfl⟩ := mapM_cookieLine.mp hhs₂
    rw [mapM_lengthHeaders, Option.some.injEq] at hhs₃
    -- as many headers are read as there are lines
    have heq : hs₁ = response.headers := by
      have hcount := (mapM_eq_some_iff.mp hhs₁).length_eq
      rw [List.length_map] at hcount
      rw [hp, List.append_assoc] at hheaders
      have hprefix := List.prefix_of_prefix_length_le (List.prefix_append hs₁ _) hheaders hcount.ge
      exact hprefix.eq_of_length hcount.symm
    rw [heq] at hhs₁ hp
    refine ⟨mapM_headerLine.mp hhs₁, hcookies, p.status, hstatus ▸ hline, ?_⟩
    apply (bodyLength_head_iff response p.status).mp
    rw [hhs₃, ← hp]
    exact hlength
  · rintro ⟨hheaders, hcookies, status, hcode, htells⟩
    refine ⟨⟨status, _, response.body⟩, hcode, ?_, rfl, (hparse _).mpr ⟨hstatus.trans hcode, ?_,
      (bodyLength_head_iff response status).mpr htells, rfl⟩⟩
    · rw [List.append_assoc]
      exact List.prefix_append _ _
    · apply mapM_append_eq_some.mpr
      refine ⟨_, _, mapM_append_eq_some.mpr ⟨_, _, mapM_headerLine.mpr hheaders,
        mapM_cookieLine.mpr ⟨hcookies, rfl⟩, rfl⟩, mapM_lengthHeaders response, rfl⟩

/-- A response with a header and a body. -/
def greeting : HttpResponse :=
  (HttpResponse.addHeader {} (ascii "content-type") (ascii "text/plain")).write (ascii "hello")

theorem selfDelimiting_iff_greeting : SelfDelimiting greeting ∧ Delimited greeting := by
  have hdelimited : Delimited greeting := by
    refine ⟨by decide +kernel, by decide +kernel, 200, by decide +kernel, ?_⟩
    rw [TellsLength, if_neg (by decide), if_neg (by decide +kernel)]
    exact ⟨by decide +kernel, by decide +kernel⟩
  have honeLine : OneLine greeting := ⟨by decide +kernel, by decide +kernel, by decide +kernel⟩
  exact ⟨(selfDelimiting_iff honeLine).mpr hdelimited, hdelimited⟩

/-- A response that is left as it is constructed has no length, and its connection stays open. -/
theorem empty_response_has_no_end : OneLine {} ∧ ¬SelfDelimiting {} := by
  refine ⟨⟨by decide +kernel, by decide +kernel, by decide +kernel⟩, ?_⟩
  rintro ⟨p, -, -, -, hall⟩
  have hnone : parseResponse (respond {} ++ []) = none := by decide +kernel
  rw [hall []] at hnone
  exact absurd hnone (by simp)

end Anon.Http

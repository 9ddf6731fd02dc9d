import Anon.Lib.Decimal
import Anon.Lib.Lines

/-!
# HTTP/1.1 responses

What a client reads of the answers to its GET requests on a connection that stays open: a response
ends where its status or its only Content-Length says, and the next one follows.

* `parseField`: one header line.
* `bodyLength`: how long the body is, if the head says it.
* `parseResponse`: one response, and what is behind it.
* `parseResponse_iff`: a head and a body, as they are written, parse as one response in front of
  anything.
-/

namespace Anon

/-! ## Header lines -/

/-- The characters of names: letters, digits and some signs. -/
def isTokenChar (c : UInt8) : Bool :=
  isDigit c ∨ 65 ≤ c ∧ c ≤ 90 ∨ 97 ≤ c ∧ c ≤ 122 ∨
    c ∈ ([33, 35, 36, 37, 38, 39, 42, 43, 45, 46, 94, 95, 96, 124, 126] : List UInt8)

/-- The characters of values: no control characters but the tab. -/
def isFieldChar (c : UInt8) : Bool := c = 9 ∨ 32 ≤ c ∧ c ≠ 127

/-- A space or a tab. -/
def isBlank (c : UInt8) : Bool := c = 32 ∨ c = 9

/-- A text without the blanks around it. -/
def trim (s : Bytes) : Bytes := (s.dropWhile isBlank).rdropWhile isBlank

def IsToken (name : Bytes) : Prop := name ≠ [] ∧ name.all isTokenChar = true

def IsFieldValue (value : Bytes) : Prop := value.all isFieldChar = true ∧ trim value = value

instance (name : Bytes) : Decidable (IsToken name) :=
  inferInstanceAs (Decidable (_ ∧ _))

instance (value : Bytes) : Decidable (IsFieldValue value) :=
  inferInstanceAs (Decidable (_ ∧ _))

/-- A number is a value. -/
theorem isFieldValue_toString (n : ℕ) : IsFieldValue (ascii (toString n)) := by
  have hdigit : ∀ c : UInt8, isDigit c = true → isFieldChar c = true ∧ isBlank c = false := by
    apply forall_uint8
    decide +kernel
  have hchars : ∀ c ∈ ascii (toString n), isFieldChar c = true ∧ isBlank c = false :=
    fun c hc => hdigit c (digit_of_mem_toString hc)
  refine ⟨List.all_eq_true.mpr fun c hc => (hchars c hc).1, ?_⟩
  have hfront : (ascii (toString n)).dropWhile isBlank = ascii (toString n) := by
    apply List.dropWhile_eq_self_iff.mpr
    intro hpos
    rw [(hchars _ (List.getElem_mem hpos)).2]
    exact Bool.false_ne_true
  rw [trim, hfront]
  apply List.rdropWhile_eq_self_iff.mpr
  intro hne
  rw [(hchars _ (List.getLast_mem hne)).2]
  exact Bool.false_ne_true

/-- A header line: a name, a colon, and a value with blanks around it. -/
def parseField (line : Bytes) : Option (Bytes × Bytes) :=
  let name := line.takeWhile fun c => c ≠ 58
  match line.dropWhile fun c => c ≠ 58 with
  | [] => none
  | _ :: value =>
    if IsToken name ∧ value.all isFieldChar = true then some (name, trim value) else none

variable {name value : Bytes}

/-- The colon is not a character of a name. -/
theorem colon_notMem_of_isToken (h : IsToken name) : (58 : UInt8) ∉ name := by
  intro hmem
  exact absurd (List.all_eq_true.mp h.2 58 hmem) (by decide)

theorem takeWhile_ne_colon (h : (58 : UInt8) ∉ name) (value : Bytes) :
    (name ++ 58 :: value).takeWhile (fun c => c ≠ 58) = name ∧
      (name ++ 58 :: value).dropWhile (fun c => c ≠ 58) = 58 :: value := by
  have hname : ∀ c ∈ name, decide (c ≠ 58) = true :=
    fun c hc => decide_eq_true fun heq => h (heq ▸ hc)
  rw [List.takeWhile_append_of_pos hname, List.dropWhile_append_of_pos hname]
  simp

/-- A header line whose name has no colon. -/
theorem parseField_line (h : (58 : UInt8) ∉ name) (value : Bytes) :
    parseField (name ++ ascii ": " ++ value) =
      if IsToken name ∧ value.all isFieldChar = true then some (name, trim value) else none := by
  have hline : name ++ ascii ": " ++ value = name ++ 58 :: 32 :: value := by
    rw [List.append_assoc]
    rfl
  obtain ⟨htake, hdrop⟩ := takeWhile_ne_colon h (32 :: value)
  have hblank : trim (32 :: value) = trim value := by
    rw [trim, List.dropWhile_cons, if_pos (by decide)]
    rfl
  unfold parseField
  rw [hline, htake, hdrop]
  simp only [hblank, List.all_cons, (by decide : isFieldChar 32 = true), Bool.true_and]

/-- A header line gives back the name and the value it was written for, if they are a name and a
value. -/
theorem parseField_eq_self_iff :
    parseField (name ++ ascii ": " ++ value) = some (name, value) ↔
      IsToken name ∧ IsFieldValue value := by
  by_cases hcolon : (58 : UInt8) ∈ name
  · constructor
    · intro h
      unfold parseField at h
      simp only at h
      split at h
      · exact absurd h (by simp)
      · split at h
        · -- the name that is found ends in front of the colon
          have hname := (Prod.mk.inj (Option.some.inj h)).1
          rw [← hname] at hcolon
          exact absurd (List.mem_takeWhile_imp hcolon) (by decide)
        · exact absurd h (by simp)
    · intro h
      exact absurd hcolon (colon_notMem_of_isToken h.1)
  · rw [parseField_line hcolon]
    by_cases hname : IsToken name ∧ value.all isFieldChar = true
    · rw [if_pos hname, Option.some.injEq, Prod.mk.injEq]
      exact ⟨fun h => ⟨hname.1, hname.2, h.2⟩, fun h => ⟨rfl, h.2.2⟩⟩
    · rw [if_neg hname]
      constructor
      · intro h
        exact absurd h (by simp)
      · intro h
        exact absurd ⟨h.1, h.2.1⟩ hname

/-! ## Framing -/

structure ResponseMessage where
  status : ℕ
  headers : List (Bytes × Bytes)
  body : Bytes
  deriving DecidableEq

/-- A status and a reason phrase, which may be missing. -/
def parseStatus (text : Bytes) : Option ℕ :=
  match text with
  | d₁ :: d₂ :: d₃ :: reason =>
    if [d₁, d₂, d₃].all isDigit = true ∧ (reason = [] ∨ reason.head? = some 32) ∧
        reason.all isFieldChar = true then
      some (decimal [d₁, d₂, d₃])
    else none
  | _ => none

/-- The first line of a response. -/
def parseStatusLine (line : Bytes) : Option ℕ :=
  if ascii "HTTP/1.1 " <+: line then parseStatus (line.drop 9) else none

/-- The responses that end with their head. -/
def hasNoBody (status : ℕ) : Prop := status / 100 = 1 ∨ status = 204 ∨ status = 304

instance (status : ℕ) : Decidable (hasNoBody status) := inferInstanceAs (Decidable (_ ∨ _))

/-- A letter in lower case. -/
def lowerCase (c : UInt8) : UInt8 := if 65 ≤ c ∧ c ≤ 90 then c + 32 else c

/-- The values of the headers with a name, which is given in lower case. -/
def valuesOf (name : Bytes) (headers : List (Bytes × Bytes)) : List Bytes :=
  (headers.filter fun f => f.1.map lowerCase = name).map Prod.snd

/-- The value of a Content-Length. -/
def parseContentLength (value : Bytes) : Option ℕ :=
  if value ≠ [] ∧ value.all isDigit = true then some (decimal value) else none

/-- The value of the only Content-Length. -/
def singleLength : List Bytes → Option ℕ
  | [length] => parseContentLength length
  | _ => none

/-- The length of the body. `none` is a head that does not tell it, be it that the body goes on up
to the end of the connection, that it has a transfer coding, or that there are several lengths. -/
def bodyLength (status : ℕ) (headers : List (Bytes × Bytes)) : Option ℕ :=
  if hasNoBody status then some 0
  else if valuesOf (ascii "transfer-encoding") headers ≠ [] then none
  else singleLength (valuesOf (ascii "content-length") headers)

/-- The response at the front of a text, and what is behind it. -/
def parseResponse (text : Bytes) : Option (ResponseMessage × Bytes) := do
  let (head, rest) ← headFrom [] text
  match head with
  | [] => none
  | statusLine :: fieldLines =>
    let status ← parseStatusLine statusLine
    let headers ← fieldLines.mapM parseField
    let length ← bodyLength status headers
    if length ≤ rest.length then
      some (⟨status, headers, rest.take length⟩, rest.drop length)
    else none

theorem parseStatusLine_append (text : Bytes) :
    parseStatusLine (ascii "HTTP/1.1 " ++ text) = parseStatus text := by
  unfold parseStatusLine
  rw [if_pos (List.prefix_append _ _)]
  rfl

/-- The length of a text is the value of a Content-Length. -/
theorem parseContentLength_toString (n : ℕ) :
    parseContentLength (ascii (toString n)) = some n := by
  have hdigits : (ascii (toString n)).all isDigit = true := by
    apply List.all_eq_true.mpr
    intro b hb
    exact digit_of_mem_toString hb
  rw [parseContentLength, if_pos ⟨ascii_toString_ne_nil n, hdigits⟩, decimal_toString]

theorem singleLength_eq_some_iff {values : List Bytes} {n : ℕ} :
    singleLength values = some n ↔ ∃ v, values = [v] ∧ parseContentLength v = some n := by
  unfold singleLength
  split
  · simp
  · next hne =>
    constructor
    · intro h
      exact absurd h (by simp)
    · rintro ⟨v, hv, -⟩
      exact absurd hv (hne v)

theorem valuesOf_append (name : Bytes) (hs hs' : List (Bytes × Bytes)) :
    valuesOf name (hs ++ hs') = valuesOf name hs ++ valuesOf name hs' := by
  rw [valuesOf, List.filter_append, List.map_append]
  rfl

/-- Headers with another name have no values. -/
theorem valuesOf_eq_nil {name : Bytes} {hs : List (Bytes × Bytes)}
    (h : ∀ f ∈ hs, f.1.map lowerCase ≠ name) : valuesOf name hs = [] := by
  rw [valuesOf, List.map_eq_nil_iff, List.filter_eq_nil_iff]
  intro f hf
  rw [decide_eq_true_eq]
  exact h f hf

section
variable {α β : Type} {f : α → Option β} {as as' : List α} {bs : List β}

/-- A list parses if its entries do, one by one. -/
theorem mapM_eq_some_iff : as.mapM f = some bs ↔ List.Forall₂ (fun a b => f a = some b) as bs := by
  induction as generalizing bs with
  | nil =>
    rw [List.mapM_nil, List.forall₂_nil_left_iff]
    exact ⟨fun h => (Option.some.inj h).symm, fun h => congrArg some h.symm⟩
  | cons a as ih =>
    rw [List.mapM_cons, List.forall₂_cons_left_iff]
    constructor
    · intro h
      obtain ⟨b, hb, h⟩ := Option.bind_eq_some_iff.mp h
      obtain ⟨bs', hbs, h⟩ := Option.bind_eq_some_iff.mp h
      exact ⟨b, bs', hb, ih.mp hbs, (Option.some.inj h).symm⟩
    · rintro ⟨b, bs', hb, hbs, rfl⟩
      rw [hb, ih.mpr hbs]
      rfl

theorem mapM_append_eq_some : (as ++ as').mapM f = some bs ↔
    ∃ bs₁ bs₂, as.mapM f = some bs₁ ∧ as'.mapM f = some bs₂ ∧ bs = bs₁ ++ bs₂ := by
  rw [List.mapM_append]
  constructor
  · intro h
    obtain ⟨bs₁, h₁, h⟩ := Option.bind_eq_some_iff.mp h
    obtain ⟨bs₂, h₂, h⟩ := Option.bind_eq_some_iff.mp h
    exact ⟨bs₁, bs₂, h₁, h₂, (Option.some.inj h).symm⟩
  · rintro ⟨bs₁, bs₂, h₁, h₂, rfl⟩
    rw [h₁, h₂]
    rfl

end

variable {statusLine body : Bytes} {fieldLines : List Bytes} {p : ResponseMessage}

/-- What is written parses as one response in front of anything, if the head parses and tells the
length of the body. -/
theorem parseResponse_iff (h : ∀ l ∈ statusLine :: fieldLines, cr ∉ l ∧ l ≠ []) :
    (∀ rest, parseResponse (((statusLine :: fieldLines).map (· ++ crlf)).flatten ++ crlf ++
        (body ++ rest)) = some (p, rest)) ↔
      parseStatusLine statusLine = some p.status ∧ fieldLines.mapM parseField = some p.headers ∧
        bodyLength p.status p.headers = some body.length ∧ p.body = body := by
  unfold parseResponse
  simp only [headFrom_flatten h, Option.bind_eq_bind, Option.bind_some]
  constructor
  · intro hparse
    -- nothing behind the response: the body is all that is left
    have hend := hparse []
    rw [List.append_nil] at hend
    obtain ⟨status, hstatus, hend⟩ := Option.bind_eq_some_iff.mp hend
    obtain ⟨headers, hheaders, hend⟩ := Option.bind_eq_some_iff.mp hend
    obtain ⟨length, hlength, hend⟩ := Option.bind_eq_some_iff.mp hend
    split at hend
    · next hle =>
      obtain ⟨hp, hrest⟩ := Prod.mk.inj (Option.some.inj hend)
      have hall : length = body.length := by
        have hdrop := congrArg List.length hrest
        rw [List.length_drop, List.length_nil] at hdrop
        omega
      subst hall
      rw [List.take_length] at hp
      subst hp
      exact ⟨hstatus, hheaders, hlength, rfl⟩
    · exact absurd hend (by simp)
  · rintro ⟨hstatus, hheaders, hlength, rfl⟩ rest
    have hle : p.body.length ≤ (p.body ++ rest).length := by
      rw [List.length_append]
      omega
    rw [hstatus, Option.bind_some, hheaders, Option.bind_some, hlength, Option.bind_some,
      if_pos hle, List.take_left, List.drop_left]

end Anon

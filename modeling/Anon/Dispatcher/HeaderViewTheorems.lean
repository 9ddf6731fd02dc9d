import Anon.Dispatcher.HeaderViews

/-!
# Headers in the buffer hold the headers that were sent

The views into the buffer show what the callbacks would collect if the parser handed them the
pieces themselves: the bytes of a view stay the same, since the name that is put into lower case
lies apart from every other view and in front of all that is still to be parsed.

* `Tracks`: the state with views shows a state of `HeaderParser`.
* `Tracks.run`: it does so at every point of a request.
* `holds_parsedHeaders`: what a `HeaderParser` collects, in the terms of a multimap.
* `holds_contents`: what a connection collects for a request.
-/

namespace Anon.Dispatcher

variable {s t fld val : StringLen} {buf bytes text later : Bytes} {n pos length stop : ℕ}

/-! ## Views -/

namespace StringLen

/-- The view ends in front of `n`. -/
def Ends (s : StringLen) (n : ℕ) : Prop := ∀ start ∈ s.start, start + s.len ≤ n

theorem Ends.mono {m : ℕ} (h : s.Ends n) (hle : n ≤ m) : s.Ends m :=
  fun start hstart => (h start hstart).trans hle

theorem ends_some {start len : ℕ} : (⟨some start, len⟩ : StringLen).Ends n ↔ start + len ≤ n := by
  constructor
  · intro h
    exact h start rfl
  · rintro h _ ⟨⟩
    exact h

/-- Bytes that arrive do not change what a view shows. -/
theorem str_append (h : s.Ends buf.length) (bytes : Bytes) : s.str (buf ++ bytes) = s.str buf := by
  obtain ⟨_ | start, len⟩ := s
  · rfl
  · have hend : start + len ≤ buf.length := ends_some.mp h
    show ((buf ++ bytes).drop start).take len = (buf.drop start).take len
    rw [List.drop_append_of_le_length (by omega), List.take_append_of_le_length]
    rw [List.length_drop]
    omega

/-- A longer view shows what follows as well. -/
theorem str_add (start len more : ℕ) (buf : Bytes) :
    str ⟨some start, len + more⟩ buf = str ⟨some start, len⟩ buf ++
      str ⟨some (start + len), more⟩ buf := by
  show (buf.drop start).take (len + more) = _
  rw [List.take_add, List.drop_drop]
  rfl

theorem length_lower (s : StringLen) (buf : Bytes) : (s.lower buf).length = buf.length := by
  unfold lower
  split
  · exact List.length_mapIdx
  · rfl

/-- Lower case, byte by byte. -/
theorem getElem?_lower (start len : ℕ) (buf : Bytes) (i : ℕ) :
    ((⟨some start, len⟩ : StringLen).lower buf)[i]? =
      if start ≤ i ∧ i < start + len then buf[i]?.map toLower else buf[i]? := by
  show (buf.mapIdx fun i c => if start ≤ i ∧ i < start + len then toLower c else c)[i]? = _
  rw [List.getElem?_mapIdx]
  split_ifs with h
  · rfl
  · exact Option.map_id'

theorem getElem?_str (start len : ℕ) (buf : Bytes) (i : ℕ) :
    ((⟨some start, len⟩ : StringLen).str buf)[i]? = if i < len then buf[start + i]? else none := by
  show ((buf.drop start).take len)[i]? = _
  rw [List.getElem?_take, List.getElem?_drop]

/-- The view itself shows lower case. -/
theorem str_lower_self (s : StringLen) (buf : Bytes) :
    s.str (s.lower buf) = (s.str buf).map toLower := by
  obtain ⟨_ | start, len⟩ := s
  · rfl
  · apply List.ext_getElem?
    intro i
    rw [List.getElem?_map, getElem?_str, getElem?_str, getElem?_lower]
    by_cases hi : i < len
    · rw [if_pos hi, if_pos hi, if_pos ⟨by omega, by omega⟩]
    · rw [if_neg hi, if_neg hi, Option.map_none]

/-- A view that lies apart shows the same. -/
theorem str_lower_of_apart
    (h : ∀ a ∈ s.start, ∀ b ∈ t.start, a + s.len ≤ b ∨ b + t.len ≤ a) (buf : Bytes) :
    t.str (s.lower buf) = t.str buf := by
  obtain ⟨_ | a, m⟩ := s
  · rfl
  · obtain ⟨_ | b, n⟩ := t
    · rfl
    · have hapart : a + m ≤ b ∨ b + n ≤ a := h a rfl b rfl
      apply List.ext_getElem?
      intro i
      rw [getElem?_str, getElem?_str, getElem?_lower]
      by_cases hi : i < n
      · rw [if_pos hi, if_pos hi, if_neg (by omega)]
      · rw [if_neg hi, if_neg hi]

/-- What lies behind the view stays the same. -/
theorem drop_lower (h : s.Ends n) (buf : Bytes) : (s.lower buf).drop n = buf.drop n := by
  obtain ⟨_ | start, len⟩ := s
  · rfl
  · have hend : start + len ≤ n := ends_some.mp h
    apply List.ext_getElem?
    intro i
    rw [List.getElem?_drop, List.getElem?_drop, getElem?_lower, if_neg (by omega)]

end StringLen

/-! ## The headers -/

theorem mem_insertHeader {e : StringLen × StringLen} {headers : List (StringLen × StringLen)}
    (h : e ∈ insertHeader buf fld val headers) : e = (fld, val) ∨ e ∈ headers := by
  induction headers with
  | nil => exact Or.inl (List.mem_singleton.mp h)
  | cons e' headers ih =>
    unfold insertHeader at h
    split at h
    · exact List.mem_cons.mp h
    · rcases List.mem_cons.mp h with rfl | h
      · exact Or.inr List.mem_cons_self
      · rcases ih h with rfl | h
        · exact Or.inl rfl
        · exact Or.inr (List.mem_cons_of_mem _ h)

/-- Views are inserted by what they show. -/
theorem map_insertHeader (buf : Bytes) (fld val : StringLen)
    (headers : List (StringLen × StringLen)) :
    (insertHeader buf fld val headers).map (fun e => (e.1.str buf, e.2.str buf)) =
      Multimap.insert (fld.str buf) (val.str buf)
        (headers.map fun e => (e.1.str buf, e.2.str buf)) := by
  induction headers with
  | nil => rfl
  | cons e headers ih =>
    unfold insertHeader
    rw [List.map_cons, Multimap.insert]
    split
    · rfl
    · rw [List.map_cons, ih]

/-! ## The state -/

/-- Where the last piece ended: right behind the name or the value that is being collected. -/
def Place (c : Pc) (stop : ℕ) : Option HeaderState → Prop
  | none => c.headerState = .kField ∧ c.lastFieldStart = none ∧ c.lastFieldLen = 0
  | some .kField => c.headerState = .kField ∧
      ∃ start, c.lastFieldStart = some start ∧ start + c.lastFieldLen = stop
  | some .kValue => c.headerState = .kValue ∧
      ∃ start, c.lastValueStart = some start ∧ start + c.lastValueLen = stop ∧
        c.lastField.Ends start

theorem Place.lastField_ends {c : Pc} {before : Option HeaderState} (h : Place c stop before) :
    c.lastField.Ends stop := by
  obtain _ | _ | _ := before
  · intro start hstart
    rw [Pc.lastField, h.2.1] at hstart
    exact absurd hstart (by simp)
  · obtain ⟨-, start, -, hstop, hends⟩ := h
    exact hends.mono (by omega)
  · obtain ⟨-, start, hstart, hstop⟩ := h
    rw [Pc.lastField, hstart]
    exact StringLen.ends_some.mpr hstop.le

theorem Place.lastValue_ends {c : Pc} {before : Option HeaderState} (h : Place c stop before)
    (hstate : c.headerState = .kValue) : c.lastValue.Ends stop := by
  obtain _ | _ | _ := before
  · exact absurd (hstate.symm.trans h.1) (by simp)
  · obtain ⟨-, start, hstart, hstop, -⟩ := h
    rw [Pc.lastValue, hstart]
    exact StringLen.ends_some.mpr hstop.le
  · exact absurd (hstate.symm.trans h.1) (by simp)

/-- The views show what `a` has collected. The buffer holds the bytes of `text` from `stop` on, as
far as they have arrived, and the views lie in front of `stop`, those of complete headers in front
of the last one. -/
structure Tracks (text : Bytes) (before : Option HeaderState) (stop : ℕ) (later : Bytes) (c : Pc)
    (a : HeaderParser) : Prop where
  state : c.headerState = a.headerState
  headers : c.contents = a.headers
  field : c.lastField.str c.buf = a.lastField
  value : c.headerState = .kValue → c.lastValue.str c.buf = a.lastValue
  place : Place c stop before
  entries : ∀ e ∈ c.headers, e.1.Ends stop ∧ e.2.Ends stop ∧
    ∀ start ∈ c.lastFieldStart, e.1.Ends start ∧ e.2.Ends start
  inside : stop ≤ c.buf.length
  rest : c.buf.drop stop ++ later = text.drop stop

/-- What has arrived, from a later place on. -/
theorem drop_rest (h : buf.drop stop ++ later = text.drop stop) (hle : stop ≤ pos)
    (hin : pos ≤ buf.length) : buf.drop pos ++ later = text.drop pos := by
  have hsum : stop + (pos - stop) = pos := by omega
  have hrest := congrArg (List.drop (pos - stop)) h
  rw [List.drop_append_of_le_length, List.drop_drop, List.drop_drop, hsum] at hrest
  · exact hrest
  · rw [List.length_drop]
    omega

/-- A piece that has arrived, in the text. -/
theorem str_piece (h : buf.drop stop ++ later = text.drop stop) (hle : stop ≤ pos)
    (hin : pos + length ≤ buf.length) :
    (⟨some pos, length⟩ : StringLen).str buf = (text.drop pos).take length := by
  show (buf.drop pos).take length = _
  rw [← drop_rest h hle (by omega), List.take_append_of_le_length]
  rw [List.length_drop]
  omega

namespace Tracks

variable {c : Pc} {a : HeaderParser} {before : Option HeaderState}

/-- Bytes that arrive. -/
theorem read (h : Tracks text before stop (bytes ++ later) c a) :
    Tracks text before stop later (c.onEvent (.read bytes)) a := by
  have hinside := h.inside
  constructor
  · exact h.state
  -- bytes at the end of the buffer change no view
  · rw [← h.headers]
    apply List.map_congr_left
    intro e he
    obtain ⟨hfld, hval, -⟩ := h.entries e he
    show ((e.1.str (c.buf ++ bytes)), (e.2.str (c.buf ++ bytes))) = _
    rw [StringLen.str_append (hfld.mono hinside), StringLen.str_append (hval.mono hinside)]
  · rw [← h.field]
    exact StringLen.str_append (h.place.lastField_ends.mono hinside) bytes
  · intro hstate
    rw [← h.value hstate]
    exact StringLen.str_append ((h.place.lastValue_ends hstate).mono hinside) bytes
  · exact h.place
  · exact h.entries
  · show stop ≤ (c.buf ++ bytes).length
    rw [List.length_append]
    omega
  · show (c.buf ++ bytes).drop stop ++ later = text.drop stop
    rw [List.drop_append_of_le_length hinside, List.append_assoc]
    exact h.rest

/-- The last header is complete. -/
theorem addLast (h : Tracks text (some .kValue) stop later c a) :
    c.addLast.contents = a.enterLast ∧
      (∀ e ∈ c.addLast.headers, e.1.Ends stop ∧ e.2.Ends stop) ∧
      c.addLast.buf.length = c.buf.length ∧ c.addLast.buf.drop stop = c.buf.drop stop := by
  obtain ⟨hstate, start, hstart, hstop, hends⟩ := h.place
  refine ⟨?_, ?_, StringLen.length_lower _ _,
    StringLen.drop_lower (h.place.lastField_ends) c.buf⟩
  · -- the earlier entries lie in front of the name, the value behind it
    have hheaders : (c.headers.map fun e => (e.1.str (c.lastField.lower c.buf),
        e.2.str (c.lastField.lower c.buf))) = a.headers := by
      rw [← h.headers]
      apply List.map_congr_left
      intro e he
      obtain ⟨-, -, hfront⟩ := h.entries e he
      rw [StringLen.str_lower_of_apart, StringLen.str_lower_of_apart]
      · intro start hstart b hb
        exact Or.inr ((hfront start hstart).2 b hb)
      · intro start hstart b hb
        exact Or.inr ((hfront start hstart).1 b hb)
    have hvalue : c.lastValue.str (c.lastField.lower c.buf) = a.lastValue := by
      rw [← h.value hstate]
      apply StringLen.str_lower_of_apart
      intro b hb start' hstart'
      rw [Pc.lastValue, hstart] at hstart'
      obtain rfl := Option.some.inj hstart'
      exact Or.inl (hends b hb)
    show (insertHeader (c.lastField.lower c.buf) c.lastField c.lastValue c.headers).map
      (fun e => (e.1.str (c.lastField.lower c.buf), e.2.str (c.lastField.lower c.buf))) = _
    rw [map_insertHeader, hheaders, hvalue, StringLen.str_lower_self, h.field,
      HeaderParser.enterLast]
  · intro e he
    rcases mem_insertHeader he with rfl | he
    · exact ⟨h.place.lastField_ends, h.place.lastValue_ends hstate⟩
    · exact ⟨(h.entries e he).1, (h.entries e he).2.1⟩

/-- The first piece of a name, with the headers in front of it complete. -/
theorem of_begun (hrest : c.buf.drop stop ++ later = text.drop stop) (hle : stop ≤ pos)
    (hin : pos + length ≤ c.buf.length) (hstate : c.headerState = .kField)
    (hlast : c.lastField = ⟨some pos, length⟩)
    (hentries : ∀ e ∈ c.headers, e.1.Ends stop ∧ e.2.Ends stop) (hheaders : c.contents = a.headers)
    (ha : a.headerState = .kField) (hpiece : a.lastField = (text.drop pos).take length) :
    Tracks text (some .kField) (pos + length) later c a := by
  have hstart : c.lastFieldStart = some pos := congrArg StringLen.start hlast
  have hlen : c.lastFieldLen = length := congrArg StringLen.len hlast
  constructor
  · rw [hstate, ha]
  · exact hheaders
  · rw [hlast, hpiece]
    exact str_piece hrest hle hin
  · intro hvalue
    exact absurd (hstate.symm.trans hvalue) (by simp)
  · exact ⟨hstate, pos, hstart, by rw [hlen]⟩
  -- the entries lie in front of the place where the name starts
  · intro e he
    obtain ⟨hfld, hval⟩ := hentries e he
    refine ⟨hfld.mono (by omega), hval.mono (by omega), ?_⟩
    intro start hmem
    rw [hstart] at hmem
    obtain rfl := Option.some.inj hmem
    exact ⟨hfld.mono hle, hval.mono hle⟩
  · exact hin
  · exact drop_rest hrest (by omega) hin

theorem onHeaderField (h : Tracks text before stop later c a)
    (hpos : if before = some .kField then pos = stop else stop ≤ pos)
    (hin : pos + length ≤ c.buf.length) :
    Tracks text (some .kField) (pos + length) later (c.onHeaderField pos length)
      (a.onHeaderField ((text.drop pos).take length)) := by
  have hplace := h.place
  obtain _ | _ | _ := before
  · -- the first name of the request
    obtain ⟨hstate, hstart, hlen⟩ := hplace
    have hle : stop ≤ pos := hpos
    have hempty : a.lastField = [] := by
      rw [← h.field, Pc.lastField, hstart]
      rfl
    have ha : a.headerState = .kField := h.state ▸ hstate
    have hc : c.onHeaderField pos length =
        { c with lastFieldStart := some pos, lastFieldLen := length } := by
      rw [Pc.onHeaderField, hstate]
      simp only [hstart, hlen, if_true, Nat.zero_add]
    have hstep : a.onHeaderField ((text.drop pos).take length) =
        { a with lastField := (text.drop pos).take length } := by
      rw [HeaderParser.onHeaderField, ha, hempty, List.nil_append]
    rw [hc, hstep]
    exact of_begun h.rest hle hin hstate rfl
      (fun e he => ⟨(h.entries e he).1, (h.entries e he).2.1⟩) h.headers ha rfl
  · -- the value of the header before is complete
    have hle : stop ≤ pos := hpos
    have hstate := hplace.1
    have ha : a.headerState = .kValue := h.state ▸ hstate
    obtain ⟨hheaders, hentries, hlen, hdrop⟩ := h.addLast
    have hc : c.onHeaderField pos length = { c.addLast with
        lastFieldStart := some pos, lastFieldLen := length, headerState := .kField } := by
      rw [Pc.onHeaderField, hstate]
      simp only [Nat.zero_add]
    have hstep : a.onHeaderField ((text.drop pos).take length) =
        ⟨.kField, (text.drop pos).take length, a.lastValue, a.enterLast⟩ := by
      rw [HeaderParser.onHeaderField, ha]
    have hrest : c.addLast.buf.drop stop ++ later = text.drop stop := by
      rw [hdrop]
      exact h.rest
    have hin' : pos + length ≤ c.addLast.buf.length := by
      rw [hlen]
      exact hin
    rw [hc, hstep]
    exact of_begun hrest hle hin' rfl rfl hentries hheaders rfl rfl
  · -- more of the same name
    obtain ⟨hstate, start, hstart, hstop⟩ := hplace
    have heq : pos = stop := hpos
    have ha : a.headerState = .kField := h.state ▸ hstate
    have hc : c.onHeaderField pos length =
        { c with lastFieldLen := c.lastFieldLen + length } := by
      simp only [Pc.onHeaderField, hstate, hstart, reduceCtorEq, if_false]
    have hstep : a.onHeaderField ((text.drop pos).take length) =
        { a with lastField := a.lastField ++ (text.drop pos).take length } := by
      rw [HeaderParser.onHeaderField, ha]
    rw [hc, hstep]
    constructor
    · exact h.state
    · exact h.headers
    · show (⟨c.lastFieldStart, c.lastFieldLen + length⟩ : StringLen).str c.buf = _
      have hfield := h.field
      rw [Pc.lastField, hstart] at hfield
      rw [hstart, StringLen.str_add, hfield, hstop, ← heq, str_piece h.rest heq.ge hin]
    · exact h.value
    · exact ⟨hstate, start, hstart, by show start + (c.lastFieldLen + length) = _; omega⟩
    · intro e he
      obtain ⟨hfld, hval, hfront⟩ := h.entries e he
      exact ⟨hfld.mono (by omega), hval.mono (by omega), hfront⟩
    · exact hin
    · exact drop_rest h.rest (by omega) hin

theorem onHeaderValue (h : Tracks text before stop later c a)
    (hpos : if before = some .kValue then pos = stop else stop ≤ pos)
    (hin : pos + length ≤ c.buf.length) :
    Tracks text (some .kValue) (pos + length) later (c.onHeaderValue pos length)
      (a.onHeaderValue ((text.drop pos).take length)) := by
  have hplace := h.place
  by_cases hbefore : before = some .kValue
  · -- more of the same value
    rw [hbefore] at hplace
    obtain ⟨hstate, start, hstart, hstop, hends⟩ := hplace
    rw [if_pos hbefore] at hpos
    have ha : a.headerState = .kValue := h.state ▸ hstate
    have hc : c.onHeaderValue pos length =
        { c with lastValueLen := c.lastValueLen + length } := by
      simp only [Pc.onHeaderValue, hstate]
    have hstep : a.onHeaderValue ((text.drop pos).take length) =
        { a with lastValue := a.lastValue ++ (text.drop pos).take length } := by
      rw [HeaderParser.onHeaderValue, ha]
    rw [hc, hstep]
    constructor
    · exact h.state
    · exact h.headers
    · exact h.field
    · intro _
      show (⟨c.lastValueStart, c.lastValueLen + length⟩ : StringLen).str c.buf = _
      have hvalue := h.value hstate
      rw [Pc.lastValue, hstart] at hvalue
      rw [hstart, StringLen.str_add, hvalue, hstop, ← hpos, str_piece h.rest hpos.ge hin]
    · refine ⟨hstate, start, hstart, ?_, hends⟩
      show start + (c.lastValueLen + length) = pos + length
      omega
    · intro e he
      obtain ⟨hfld, hval, hfront⟩ := h.entries e he
      exact ⟨hfld.mono (by omega), hval.mono (by omega), hfront⟩
    · exact hin
    · exact drop_rest h.rest (by omega) hin
  · -- the name is complete
    rw [if_neg hbefore] at hpos
    have hstate : c.headerState = .kField := by
      obtain _ | _ | _ := before
      · exact hplace.1
      · exact absurd rfl hbefore
      · exact hplace.1
    have ha : a.headerState = .kField := h.state ▸ hstate
    have hc : c.onHeaderValue pos length = { c with
        lastValueStart := some pos, lastValueLen := length, headerState := .kValue } := by
      rw [Pc.onHeaderValue, hstate]
      simp only [Nat.zero_add]
    have hstep : a.onHeaderValue ((text.drop pos).take length) =
        { a with lastValue := (text.drop pos).take length, headerState := .kValue } := by
      rw [HeaderParser.onHeaderValue, ha]
    rw [hc, hstep]
    constructor
    · rfl
    · exact h.headers
    · exact h.field
    · exact fun _ => str_piece h.rest hpos hin
    · exact ⟨rfl, pos, rfl, rfl, h.place.lastField_ends.mono hpos⟩
    · intro e he
      obtain ⟨hfld, hval, hfront⟩ := h.entries e he
      exact ⟨hfld.mono (by omega), hval.mono (by omega), hfront⟩
    · exact hin
    · exact drop_rest h.rest (by omega) hin

theorem onHeadersComplete (h : Tracks text before stop later c a) (p : ParserHead) :
    (c.onHeadersComplete p).contents = a.onHeadersComplete := by
  have hplace := h.place
  obtain _ | _ | _ := before
  · have ha : a.headerState = .kField := h.state ▸ hplace.1
    simp only [Pc.onHeadersComplete, hplace.1, HeaderParser.onHeadersComplete, ha]
    exact h.headers
  · have ha : a.headerState = .kValue := h.state ▸ hplace.1
    simp only [Pc.onHeadersComplete, hplace.1, HeaderParser.onHeadersComplete, ha]
    exact h.addLast.1
  · have ha : a.headerState = .kField := h.state ▸ hplace.1
    simp only [Pc.onHeadersComplete, hplace.1, HeaderParser.onHeadersComplete, ha]
    exact h.headers

end Tracks

/-! ## Requests -/

theorem length_buf_onHeaderField (c : Pc) (pos length : ℕ) :
    (c.onHeaderField pos length).buf.length = c.buf.length := by
  unfold Pc.onHeaderField
  cases c.headerState with
  | kValue => exact StringLen.length_lower _ _
  | kField =>
    by_cases hstart : c.lastFieldStart = none
    · simp only [if_pos hstart]
    · simp only [if_neg hstart]

theorem length_buf_onHeaderValue (c : Pc) (pos length : ℕ) :
    (c.onHeaderValue pos length).buf.length = c.buf.length := by
  unfold Pc.onHeaderValue
  cases c.headerState <;> rfl

/-- At every point of a request, the views show what has been collected. -/
theorem Tracks.run {c : Pc} {a : HeaderParser} {before : Option HeaderState}
    {events : List BufferEvent} (h : Tracks text before stop (arriving events) c a)
    (hevents : Consecutive before stop c.buf.length events) :
    ∃ before' stop',
      Tracks text before' stop' [] (c.run events) (a.run (reported text events)) := by
  induction events generalizing c a before stop with
  | nil => exact ⟨before, stop, h⟩
  | cons event events ih =>
    cases event with
    | read bytes =>
      apply ih h.read
      show Consecutive before stop (c.buf ++ bytes).length events
      rw [List.length_append]
      exact hevents
    | field pos length =>
      obtain ⟨hpos, hin, hevents⟩ := hevents
      apply ih (h.onHeaderField hpos hin)
      rw [length_buf_onHeaderField]
      exact hevents
    | value pos length =>
      obtain ⟨hpos, hin, hevents⟩ := hevents
      apply ih (h.onHeaderValue hpos hin)
      rw [length_buf_onHeaderValue]
      exact hevents

/-- When a request begins, nothing has been collected. -/
theorem RequestBegins.tracks {c : Pc} (h : RequestBegins c) (later : Bytes) :
    Tracks (c.buf ++ later) none 0 later c HeaderParser.init := by
  obtain ⟨head⟩ | ⟨c, bsp⟩ := h
  all_goals
    constructor
    · rfl
    · rfl
    · rfl
    · intro hstate
      exact absurd hstate (by simp [Pc.opened, Pc.keepAlive, Pc.init])
    · exact ⟨rfl, rfl, rfl⟩
    · intro e he
      exact absurd he List.not_mem_nil
    · exact Nat.zero_le _
    · rfl

/-! ## The multimap -/

/-- A multimap holds the headers of a list, the names in lower case, and those with the same name
in the order of the list. -/
structure Holds (m : Multimap Bytes Bytes) (fields : List (Bytes × Bytes)) : Prop where
  exactly : m.Perm (fields.map fun e => (e.1.map toLower, e.2))
  in_order : ∀ name, m.filter (fun e => decide (e.1 = name)) =
    (fields.map fun e => (e.1.map toLower, e.2)).filter fun e => decide (e.1 = name)
  sorted : m.Sorted

theorem holds_parsedHeaders (fields : List (Bytes × Bytes)) :
    Holds (parsedHeaders fields) fields := by
  induction fields using List.reverseRecOn with
  | nil => exact ⟨List.Perm.nil, fun _ => rfl, List.Pairwise.nil⟩
  | append_singleton fields e ih =>
    have hlast : parsedHeaders (fields ++ [e]) =
        (parsedHeaders fields).insert (e.1.map toLower) e.2 := by
      rw [parsedHeaders, List.foldl_append]
      rfl
    constructor
    · rw [hlast, List.map_append, List.map_singleton]
      apply (Multimap.perm_insert _ _ _).trans
      apply (ih.exactly.cons _).trans
      exact (List.perm_append_singleton _ _).symm
    · intro name
      have hinsert : ((parsedHeaders fields).insert (e.1.map toLower) e.2).filter
          (fun e => decide (e.1 = name)) = (parsedHeaders fields).filter
          (fun e => decide (e.1 = name)) ++
            if e.1.map toLower = name then [(e.1.map toLower, e.2)] else [] := by
        convert ih.sorted.filter_insert name (e.1.map toLower) e.2
      rw [hlast, hinsert, ih.in_order name, List.map_append, List.filter_append, List.map_singleton,
        List.filter_singleton, Bool.cond_decide]
    · exact sorted_parsedHeaders _

/-- For every list of headers and every way of cutting the names and values into pieces, and for
all reads in which the bytes arrive, the headers of a request are those of the list when
`on_headers_complete` has run, whatever was on the connection before. -/
theorem holds_contents {c : Pc} (hc : RequestBegins c) (hs : List CutHeader)
    (events : List BufferEvent)
    (hevents : Consecutive none 0 c.buf.length events)
    (hreported : reported (c.buf ++ arriving events) events = hs.flatMap CutHeader.events)
    (p : ParserHead) :
    Holds ((c.run events).onHeadersComplete p).contents (hs.map CutHeader.entry) := by
  obtain ⟨before, stop, htracks⟩ := (hc.tracks (arriving events)).run hevents
  rw [htracks.onHeadersComplete, hreported, HeaderParser.parse_eventsOf]
  exact holds_parsedHeaders _

/-- Two headers with one name, the second one cut by the end of a read, behind a request on the
same connection. -/
theorem holds_contents_two_reads :
    Holds ((((Pc.mk (ascii "xyAb:1 AB") .kValue (some 0) 1 (some 1) 1 []
        ⟨1, 1, 1, false, 0⟩).keepAlive 2).run [.field 0 2, .value 3 1, .field 5 2,
          .read (ascii ":234"), .value 8 0, .value 8 2, .value 10 1]).onHeadersComplete
        ⟨1, 1, 1, false, 0⟩).contents
      [(ascii "Ab", ascii "1"), (ascii "AB", ascii "234")] :=
  holds_contents (.keepAlive _ _)
    [⟨[ascii "Ab"], [ascii "1"], by simp, by simp⟩,
      ⟨[ascii "AB"], [[], ascii "23", ascii "4"], by simp, by simp⟩] _
    (by simp [Consecutive, Pc.keepAlive, Pc.init]; decide) (by decide +kernel) _

end Anon.Dispatcher

import Anon.Dispatcher.QueryFieldTheorems

/-!
# Looking for a cookie

`get_cookie_val` goes from piece to piece. Behind the name of a piece that is not the one it looks
for, it goes on behind the next `;`, or behind the `;` that ended the name.

* `cookieValue`: the value of a cookie in the header, split at each `;`.
* `cookieValLoop_append`: the loop at one piece.
* `getCookieVal_eq`: the loop gives the value of the cookie.
-/

namespace Anon.Dispatcher

variable {name v s part rest item : Bytes} {c : UInt8}

/-! ## Pieces -/

/-- A piece of the header, without its leading spaces. -/
def trimmed (piece : Bytes) : Bytes := piece.dropWhile fun c => c = space

/-- The value of the first piece with the name `name`; empty if it has no `=`, or if no piece has
this name. -/
def cookieValue (value name : Bytes) : Bytes :=
  match ((value.splitOn semicolon).map trimmed).find? fun piece => itemName piece = name with
  | some piece => itemValue piece
  | none => []

theorem cookieValue_last (h : semicolon ∉ part) (name : Bytes) :
    cookieValue part name =
      if itemName (trimmed part) = name then itemValue (trimmed part) else [] := by
  rw [cookieValue, List.splitOn_eq_singleton h, List.map_singleton, List.find?_singleton]
  by_cases hname : itemName (trimmed part) = name
  · rw [if_pos (decide_eq_true hname), if_pos hname]
  · rw [if_neg (by rwa [decide_eq_true_eq]), if_neg hname]

theorem cookieValue_more (h : semicolon ∉ part) (rest name : Bytes) :
    cookieValue (part ++ semicolon :: rest) name =
      if itemName (trimmed part) = name then itemValue (trimmed part)
      else cookieValue rest name := by
  rw [cookieValue, List.splitOn_append_cons_self_of_not_mem h, List.map_cons, List.find?_cons]
  by_cases hname : itemName (trimmed part) = name
  · rw [decide_eq_true hname, if_pos hname]
  · rw [decide_eq_false hname, if_neg hname, cookieValue]

/-- A piece without a `=` has no value. -/
theorem itemValue_of_notMem (h : equals ∉ item) : itemValue item = [] := by
  rw [itemValue, itemName, firstItem_of_notMem h, List.drop_eq_nil_of_le (Nat.le_succ _)]

theorem trimmed_append_cons (part rest : Bytes) :
    trimmed (part ++ semicolon :: rest) = trimmed part ++ semicolon :: rest := by
  induction part with
  | nil => rfl
  | cons c part ih =>
    unfold trimmed at ih ⊢
    rw [List.cons_append, List.dropWhile_cons, List.dropWhile_cons]
    by_cases hc : c = space
    · rw [if_pos (decide_eq_true hc), if_pos (decide_eq_true hc), ih]
    · rw [if_neg (by rwa [decide_eq_true_eq]), if_neg (by rwa [decide_eq_true_eq]),
        List.cons_append]

theorem trimmed_of_head (h : s.head? ≠ some space) : trimmed s = s := by
  cases s with
  | nil => rfl
  | cons c s =>
    have hc : ¬c = space := fun heq => h (congrArg some heq)
    rw [trimmed, List.dropWhile_cons, if_neg (by rwa [decide_eq_true_eq])]

/-! ## The loop -/

theorem cookieValLoop_nil (name : Bytes) : cookieValLoop name [] = [] := by
  rw [cookieValLoop, if_pos rfl]

/-- A name goes on until a `=` or a `;`. -/
theorem forall_in_name (hpart : equals ∉ part ∧ semicolon ∉ part) :
    ∀ b ∈ part, decide (b ≠ equals ∧ b ≠ semicolon) = true := by
  intro b hb
  apply decide_eq_true
  constructor
  · exact fun heq => hpart.1 (heq ▸ hb)
  · exact fun heq => hpart.2 (heq ▸ hb)

/-- At a piece whose name ends with `c`, the loop returns a value or goes on. -/
theorem cookieValLoop_append (hpart : equals ∉ part ∧ semicolon ∉ part)
    (hc : c = equals ∨ c = semicolon) (rest name : Bytes) :
    cookieValLoop name (part ++ c :: rest) =
      if part = name then (if c = equals then firstItem semicolon rest else [])
      else cookieValLoop name (nextPiece c rest) := by
  have he : (part ++ c :: rest).dropWhile (fun c => decide (c ≠ equals ∧ c ≠ semicolon)) =
      c :: rest := by
    rw [List.dropWhile_append_of_pos (forall_in_name hpart), List.dropWhile_cons_of_neg]
    rw [decide_eq_true_eq, not_and_or, not_not, not_not]
    exact hc
  have hlen : (part ++ c :: rest).length - (c :: rest).length = part.length := by
    rw [List.length_append, Nat.add_sub_cancel]
  have hsame : (part.length = name.length ∧ name <+: part ++ c :: rest) ↔ part = name := by
    constructor
    · rintro ⟨hlength, hprefix⟩
      have heq := List.prefix_of_prefix_length_le hprefix (List.prefix_append _ _) hlength.ge
      exact (heq.eq_of_length hlength.symm).symm
    · rintro rfl
      exact ⟨rfl, List.prefix_append _ _⟩
  rw [cookieValLoop, if_neg (by simp)]
  simp only [he, hlen, hsame]
  by_cases hname : part = name
  · rw [if_pos hname, if_pos hname]
    by_cases hc' : c = equals
    · rw [if_pos hc']
      cases rest with
      | nil => rfl
      | cons b rest =>
        rw [if_pos ⟨by simp, congrArg some hc'⟩, List.drop_one, List.tail_cons, firstItem]
    · rw [if_neg hc', if_neg]
      rintro ⟨-, hhead⟩
      exact hc' (Option.some.inj hhead)
  · rw [if_neg hname, if_neg hname]
    split
    · next hnil =>
      rw [he] at hnil
      exact absurd hnil (List.cons_ne_nil _ _)
    · next c' rest' hcons =>
      rw [he, List.cons.injEq] at hcons
      rw [hcons.1, hcons.2]

/-- A piece at the end, without a `=`. -/
theorem cookieValLoop_last (hpart : equals ∉ part ∧ semicolon ∉ part) (name : Bytes) :
    cookieValLoop name part = [] := by
  have he : part.dropWhile (fun c => decide (c ≠ equals ∧ c ≠ semicolon)) = [] :=
    List.dropWhile_eq_nil_iff.mpr (forall_in_name hpart)
  rw [cookieValLoop]
  simp only [he]
  split_ifs
  · rfl
  · rfl
  · rfl
  · split
    · rfl
    · next hcons =>
      rw [he] at hcons
      exact absurd hcons.symm (List.cons_ne_nil _ _)

theorem nextPiece_semicolon (rest : Bytes) : nextPiece semicolon rest = trimmed rest := by
  rw [nextPiece, if_neg (by decide), trimmed]

theorem nextPiece_equals_last (h : semicolon ∉ v) : nextPiece equals v = [] := by
  have hskip : skipValue v = [] := by
    rw [skipValue, dropWhile_of_notMem h, List.drop_nil]
  rw [nextPiece, if_pos rfl, hskip]
  rfl

theorem nextPiece_equals_more (h : semicolon ∉ v) (rest : Bytes) :
    nextPiece equals (v ++ semicolon :: rest) = trimmed rest := by
  have hskip : skipValue (v ++ semicolon :: rest) = rest := by
    rw [skipValue, dropWhile_append_cons h, List.drop_one, List.tail_cons]
  rw [nextPiece, if_pos rfl, hskip, trimmed]

/-- From the first byte of a piece that is not a space on, the loop finds the value of the
cookie. -/
theorem cookieValLoop_trimmed (name s : Bytes) :
    cookieValLoop name (trimmed s) = cookieValue s name := by
  induction s using split_induction semicolon with
  | last part hpart =>
    have hpiece : semicolon ∉ trimmed part := fun h => hpart ((List.dropWhile_sublist _).subset h)
    rw [cookieValue_last hpart]
    obtain hname | ⟨n, v, hname, hsplit⟩ := split_cases equals (trimmed part)
    · rw [cookieValLoop_last ⟨hname, hpiece⟩, itemValue_of_notMem hname, ite_self]
    · rw [hsplit] at hpiece ⊢
      have hn : semicolon ∉ n := fun h => hpiece (by simp [h])
      have hv : semicolon ∉ v := fun h => hpiece (by simp [h])
      rw [cookieValLoop_append ⟨hname, hn⟩ (Or.inl rfl), itemName_append_cons hname,
        itemValue_append_cons hname, if_pos rfl, firstItem_of_notMem hv, nextPiece_equals_last hv,
        cookieValLoop_nil]
  | more part rest hpart ih =>
    have hpiece : semicolon ∉ trimmed part := fun h => hpart ((List.dropWhile_sublist _).subset h)
    rw [cookieValue_more hpart, trimmed_append_cons]
    obtain hname | ⟨n, v, hname, hsplit⟩ := split_cases equals (trimmed part)
    · have hends : ¬semicolon = equals := by decide
      rw [cookieValLoop_append ⟨hname, hpiece⟩ (Or.inr rfl), if_neg hends, nextPiece_semicolon, ih,
        itemValue_of_notMem hname, itemName, firstItem_of_notMem hname]
    · rw [hsplit] at hpiece ⊢
      have hn : semicolon ∉ n := fun h => hpiece (by simp [h])
      have hv : semicolon ∉ v := fun h => hpiece (by simp [h])
      rw [List.append_assoc, List.cons_append, cookieValLoop_append ⟨hname, hn⟩ (Or.inl rfl),
        itemName_append_cons hname, itemValue_append_cons hname, if_pos rfl,
        firstItem_append_cons hv, nextPiece_equals_more hv, ih]

/-- For a cookie header that does not begin with a space, `get_cookie_val` gives the value of the
cookie. -/
theorem getCookieVal_eq (request : HttpRequest) (name : Bytes)
    (h : (request.getHeader (ascii "cookie")).head? ≠ some space) :
    request.getCookieVal name = cookieValue (request.getHeader (ascii "cookie")) name := by
  rw [HttpRequest.getCookieVal, ← cookieValLoop_trimmed, trimmed_of_head h]

/-- `get_cookie_val` on a header in which the name is also part of another name. -/
theorem getCookieVal_session :
    (⟨ascii "GET", ascii "/", [], [(ascii "cookie", ascii "xid=1; id=2;id=3")]⟩ :
      HttpRequest).getCookieVal (ascii "id") = ascii "2" := by
  rw [getCookieVal_eq _ _ (by decide +kernel)]
  decide +kernel

end Anon.Dispatcher

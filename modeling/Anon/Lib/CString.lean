import Anon.BigEndian

/-!
# C strings

What the string functions of C see of a buffer: the bytes in front of the first NUL. A buffer
that a `std::string` or a library hands out is followed by a NUL of its own, which is not part of
the list of its bytes.

* `cString`: the string that a `const char *` to the buffer stands for.
* `strchr`, `strstr`: the offset of the first occurrence of a character or a string in another
  one.
* `memchr`, `strchrnul`: the same in a buffer, and with the end of the string for a character that
  does not occur.
-/

namespace Anon

/-- The bytes in front of the first NUL. -/
def cString (s : Bytes) : Bytes := s.takeWhile fun c => c ≠ 0

/-- The offset in `s` at which `c` stands first. -/
def strchr (s : Bytes) (c : UInt8) : Option ℕ := (cString s).findIdx? (· = c)

/-- The offset in `s` at which `c` stands first, or that of the NUL. -/
def strchrnul (s : Bytes) (c : UInt8) : ℕ := (strchr s c).getD (cString s).length

/-- The offset in the buffer `s` at which `c` stands first. -/
def memchr (s : Bytes) (c : UInt8) : Option ℕ := s.findIdx? (· = c)

/-- The offset in `haystack` at which `needle` stands first. -/
def strstr (haystack needle : Bytes) : Option ℕ :=
  (List.range (haystack.length + 1)).find? fun i => needle.isPrefixOf (haystack.drop i)

/-- A C string has no NUL in it. -/
theorem zero_notMem_cString (s : Bytes) : 0 ∉ cString s := by
  intro h
  have hne := List.mem_takeWhile_imp h
  exact absurd hne (by decide)

/-- A buffer without a NUL is the C string that it holds. -/
theorem cString_eq_self {s : Bytes} (h : 0 ∉ s) : cString s = s := by
  rw [cString, List.takeWhile_eq_self_iff]
  intro c hc
  have hne : c ≠ 0 := fun h0 => h (h0 ▸ hc)
  exact decide_eq_true hne

/-- The length of the C string is the length of the buffer where the buffer has no NUL. -/
theorem length_cString_eq_iff {s : Bytes} : (cString s).length = s.length ↔ 0 ∉ s := by
  constructor
  · intro hlen
    have hbegins : cString s <+: s := List.takeWhile_prefix _
    rw [← hbegins.eq_of_length hlen]
    exact zero_notMem_cString s
  · intro h
    rw [cString_eq_self h]

/-! ## Occurrences -/

variable {needle : Bytes} {sep : UInt8}

/-- In front of the first occurrence of a character, the string has neither it nor a NUL. -/
theorem exists_of_strchr {s : Bytes} {c : UInt8} {i : ℕ} (h : strchr s c = some i) :
    ∃ front back, s = front ++ c :: back ∧ front.length = i ∧ c ∉ front ∧ 0 ∉ front := by
  obtain ⟨hlt, hget, hbefore⟩ := List.findIdx?_eq_some_iff_getElem.mp h
  have hsplit : cString s = (cString s).take i ++ c :: (cString s).drop (i + 1) := by
    rw [← of_decide_eq_true hget, ← List.drop_eq_getElem_cons hlt, List.take_append_drop]
  obtain ⟨rest, hrest⟩ : cString s <+: s := List.takeWhile_prefix _
  refine ⟨(cString s).take i, (cString s).drop (i + 1) ++ rest, ?_, ?_, ?_, ?_⟩
  · rw [← List.cons_append, ← List.append_assoc, ← hsplit, hrest]
  · rw [List.length_take, Nat.min_eq_left (Nat.le_of_lt hlt)]
  · intro hmem
    obtain ⟨j, hj, hc⟩ := List.mem_take_iff_getElem.mp hmem
    exact hbefore j (by omega) (decide_eq_true hc)
  · intro hmem
    exact zero_notMem_cString s (List.mem_of_mem_take hmem)

theorem strchr_append_cons {front : Bytes} {c : UInt8} (hc : c ≠ 0) (hfront : c ∉ front)
    (h0 : 0 ∉ front) (back : Bytes) : strchr (front ++ c :: back) c = some front.length := by
  have hcut : cString (front ++ c :: back) = front ++ c :: cString back := by
    have hkeep : ∀ b ∈ front, decide (b ≠ 0) = true :=
      fun b hb => decide_eq_true fun h => h0 (h ▸ hb)
    unfold cString
    rw [List.takeWhile_append_of_pos hkeep, List.takeWhile_cons, if_pos (decide_eq_true hc)]
  have hnone : front.findIdx? (fun b => decide (b = c)) = none := by
    apply List.findIdx?_eq_none_iff.mpr
    intro b hb
    exact decide_eq_false fun h => hfront (h ▸ hb)
  rw [strchr, hcut, List.findIdx?_append, hnone, List.findIdx?_cons, if_pos (decide_eq_true rfl),
    Option.none_or, Option.map_some, Nat.zero_add]

theorem memchr_of_notMem {s : Bytes} {c : UInt8} (h : c ∉ s) : memchr s c = none := by
  apply List.findIdx?_eq_none_iff.mpr
  intro b hb
  exact decide_eq_false fun heq => h (heq ▸ hb)

theorem memchr_append_cons {front : Bytes} {c : UInt8} (h : c ∉ front) (back : Bytes) :
    memchr (front ++ c :: back) c = some front.length := by
  have hnone : front.findIdx? (fun b => decide (b = c)) = none := memchr_of_notMem h
  rw [memchr, List.findIdx?_append, hnone, List.findIdx?_cons, if_pos (decide_eq_true rfl),
    Option.none_or, Option.map_some, Nat.zero_add]

/-- In a buffer without a NUL, the two searches find the same. -/
theorem strchr_eq_memchr {s : Bytes} (h : 0 ∉ s) (c : UInt8) : strchr s c = memchr s c := by
  rw [strchr, cString_eq_self h, memchr]

theorem strstr_nil (hne : needle ≠ []) : strstr [] needle = none := by
  cases needle with
  | nil => exact absurd rfl hne
  | cons c needle => rfl

/-- A string occurs at the front or further back. -/
theorem strstr_cons (c : UInt8) (haystack needle : Bytes) : strstr (c :: haystack) needle =
    if needle <+: c :: haystack then some 0 else (strstr haystack needle).map (· + 1) := by
  unfold strstr
  rw [List.length_cons, List.range_succ_eq_map, List.find?_cons, List.drop_zero]
  by_cases h : needle <+: c :: haystack
  · rw [if_pos h, List.isPrefixOf_iff_prefix.mpr h]
  · have hfalse : needle.isPrefixOf (c :: haystack) = false := by
      rw [← Bool.not_eq_true, List.isPrefixOf_iff_prefix]
      exact h
    rw [if_neg h, hfalse]
    show List.find? _ (List.map Nat.succ _) = _
    rw [List.find?_map]
    rfl

/-- A string without the separator is a prefix if it is one of the text in front of the
separator. -/
theorem prefix_append_cons_iff (hsep : sep ∉ needle) (part rest : Bytes) :
    needle <+: part ++ sep :: rest ↔ needle <+: part := by
  constructor
  · intro h
    obtain hle | hlt := Nat.lt_or_ge part.length needle.length |>.symm
    · exact List.prefix_of_prefix_length_le h (List.prefix_append _ _) hle
    · -- the needle reaches past the separator
      have hget := h.getElem hlt
      rw [List.getElem_append_right le_rfl] at hget
      have hmem := List.getElem_mem hlt
      rw [hget] at hmem
      simp only [Nat.sub_self, List.getElem_cons_zero] at hmem
      exact absurd hmem hsep
  · intro h
    exact h.trans (List.prefix_append _ _)

/-- A string without the separator occurs in front of the separator or behind it. -/
theorem strstr_append_cons (hne : needle ≠ []) (hsep : sep ∉ needle) (part rest : Bytes) :
    strstr (part ++ sep :: rest) needle =
      (strstr part needle).or ((strstr rest needle).map (· + (part.length + 1))) := by
  induction part with
  | nil =>
    rw [List.nil_append, strstr_nil hne, Option.none_or, strstr_cons, if_neg]
    · rfl
    · intro h
      exact hne (List.prefix_nil.mp ((prefix_append_cons_iff hsep [] rest).mp h))
  | cons c part ih =>
    rw [List.cons_append, strstr_cons, strstr_cons c part, ih]
    by_cases h : needle <+: c :: part
    · have hlong : needle <+: c :: (part ++ sep :: rest) :=
        (prefix_append_cons_iff hsep (c :: part) rest).mpr h
      rw [if_pos h, if_pos hlong]
      rfl
    · have hlong : ¬needle <+: c :: (part ++ sep :: rest) := fun hlong =>
        h ((prefix_append_cons_iff hsep (c :: part) rest).mp hlong)
      rw [if_neg h, if_neg hlong]
      cases strstr part needle with
      | some i => rfl
      | none =>
        cases strstr rest needle with
        | none => rfl
        | some i =>
          show some (i + (part.length + 1) + 1) = some (i + ((c :: part).length + 1))
          rw [List.length_cons]
          rfl

/-- An occurrence that is not at the front is behind the first character. -/
theorem strstr_eq_some_zero_iff {haystack : Bytes} :
    strstr haystack needle = some 0 ↔ needle <+: haystack := by
  cases haystack with
  | nil =>
    by_cases hne : needle = []
    · subst hne
      exact ⟨fun _ => List.nil_prefix, fun _ => rfl⟩
    · rw [strstr_nil hne, List.prefix_nil]
      exact ⟨fun h => absurd h (by simp), fun h => absurd h hne⟩
  | cons c haystack =>
    rw [strstr_cons]
    by_cases h : needle <+: c :: haystack
    · rw [if_pos h]
      exact ⟨fun _ => h, fun _ => rfl⟩
    · rw [if_neg h]
      constructor
      · intro hzero
        obtain ⟨i, -, hi⟩ := Option.map_eq_some_iff.mp hzero
        exact absurd hi (Nat.succ_ne_zero i)
      · intro hbegins
        exact absurd hbegins h

/-- An occurrence lies inside the text. -/
theorem add_length_le_of_strstr_eq_some {haystack : Bytes} {i : ℕ}
    (h : strstr haystack needle = some i) : i + needle.length ≤ haystack.length := by
  unfold strstr at h
  have hfound : needle.isPrefixOf (haystack.drop i) = true :=
    List.find?_some (p := fun i => needle.isPrefixOf (haystack.drop i)) h
  have hbegins := List.isPrefixOf_iff_prefix.mp hfound
  have hi : i < haystack.length + 1 := List.mem_range.mp (List.mem_of_find?_eq_some h)
  have hlen := hbegins.length_le
  rw [List.length_drop] at hlen
  omega

end Anon

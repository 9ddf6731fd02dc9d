import Anon.BigEndian

/-!
# Lines

Texts whose lines end with CR LF.

* `linesFrom`: the lines of a text, behind what is already there of the first one.
* `lines_flatten`: lines without a CR, written one after the other, are the lines of the text.
* `headFrom`: the lines in front of the first empty one, and what is behind it.
-/

namespace Anon

/-- `'\r'` -/
def cr : UInt8 := 13

/-- `'\n'` -/
def lf : UInt8 := 10

/-- The end of a line. -/
def crlf : Bytes := [cr, lf]

/-- The complete lines of `line ++ text`, where no line ends inside of `line`. -/
def linesFrom (line : Bytes) : Bytes → List Bytes
  | c :: d :: text =>
    if c = cr ∧ d = lf then line :: linesFrom [] text
    else linesFrom (line ++ [c]) (d :: text)
  | _ => []

/-- The complete lines of a text. -/
def lines (text : Bytes) : List Bytes := linesFrom [] text

variable {line : Bytes}

theorem exists_cons_of_line (line rest : Bytes) :
    ∃ d text, line ++ crlf ++ rest = d :: text := by
  cases line with
  | nil => exact ⟨cr, lf :: rest, rfl⟩
  | cons d line => exact ⟨d, line ++ crlf ++ rest, rfl⟩

theorem linesFrom_line (h : cr ∉ line) (front rest : Bytes) :
    linesFrom front (line ++ crlf ++ rest) = (front ++ line) :: lines rest := by
  induction line generalizing front with
  | nil =>
    rw [List.append_nil]
    show linesFrom front (cr :: lf :: rest) = _
    rw [linesFrom, if_pos ⟨rfl, rfl⟩]
    rfl
  | cons c line ih =>
    have hc : c ≠ cr := fun hc => h (hc ▸ List.mem_cons_self)
    have hrest : cr ∉ line := fun hline => h (List.mem_cons_of_mem c hline)
    obtain ⟨d, text, htext⟩ := exists_cons_of_line line rest
    have hnext := ih hrest (front ++ [c])
    rw [htext] at hnext
    rw [List.cons_append, List.cons_append, htext, linesFrom, if_neg fun hend => hc hend.1, hnext,
      List.append_assoc]
    rfl

/-- A line at the front of a text. -/
theorem lines_line (h : cr ∉ line) (rest : Bytes) :
    lines (line ++ crlf ++ rest) = line :: lines rest :=
  linesFrom_line h [] rest

/-- Lines that are written one after the other are found again. -/
theorem lines_flatten {ls : List Bytes} (h : ∀ l ∈ ls, cr ∉ l) (rest : Bytes) :
    lines ((ls.map (· ++ crlf)).flatten ++ rest) = ls ++ lines rest := by
  induction ls with
  | nil => rfl
  | cons l ls ih =>
    have hls : ∀ l' ∈ ls, cr ∉ l' := fun l' hl' => h l' (List.mem_cons_of_mem l hl')
    rw [List.map_cons, List.flatten_cons, List.append_assoc, lines_line (h l List.mem_cons_self),
      ih hls]
    rfl

/-! ## Up to an empty line -/

/-- The lines of `line ++ text` in front of the first empty one, and what is behind it. -/
def headFrom (line : Bytes) : Bytes → Option (List Bytes × Bytes)
  | c :: d :: text =>
    if c = cr ∧ d = lf then
      if line = [] then some ([], text)
      else (headFrom [] text).map fun p => (line :: p.1, p.2)
    else headFrom (line ++ [c]) (d :: text)
  | _ => none

theorem headFrom_line (h : cr ∉ line) {front : Bytes} (hne : front ++ line ≠ []) (rest : Bytes) :
    headFrom front (line ++ crlf ++ rest) =
      (headFrom [] rest).map fun p => ((front ++ line) :: p.1, p.2) := by
  induction line generalizing front with
  | nil =>
    rw [List.append_nil] at hne ⊢
    show headFrom front (cr :: lf :: rest) = _
    rw [headFrom, if_pos ⟨rfl, rfl⟩, if_neg hne]
  | cons c line ih =>
    have hc : c ≠ cr := fun hc => h (hc ▸ List.mem_cons_self)
    have hrest : cr ∉ line := fun hline => h (List.mem_cons_of_mem c hline)
    obtain ⟨d, text, htext⟩ := exists_cons_of_line line rest
    have hfront : front ++ [c] ++ line ≠ [] := by simp
    have hnext := ih hrest hfront
    rw [htext, List.append_assoc, List.singleton_append] at hnext
    rw [List.cons_append, List.cons_append, htext, headFrom, if_neg fun hend => hc hend.1, hnext]

/-- Lines that are written in front of an empty one are found again. -/
theorem headFrom_flatten {ls : List Bytes} (h : ∀ l ∈ ls, cr ∉ l ∧ l ≠ []) (rest : Bytes) :
    headFrom [] ((ls.map (· ++ crlf)).flatten ++ crlf ++ rest) = some (ls, rest) := by
  induction ls with
  | nil =>
    show headFrom [] (cr :: lf :: rest) = _
    rw [headFrom, if_pos ⟨rfl, rfl⟩, if_pos rfl]
  | cons l ls ih =>
    obtain ⟨hcr, hne⟩ := h l List.mem_cons_self
    have hls := ih fun l' hl' => h l' (List.mem_cons_of_mem l hl')
    have hfirst : ∀ text, headFrom [] (l ++ crlf ++ text) =
        (headFrom [] text).map fun p => (l :: p.1, p.2) := headFrom_line hcr hne
    rw [List.append_assoc] at hls
    rw [List.map_cons, List.flatten_cons, List.append_assoc, List.append_assoc, hfirst, hls]
    rfl

end Anon

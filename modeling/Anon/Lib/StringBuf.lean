import Mathlib.Data.List.Basic
import Mathlib.Data.Int.Order.Basic

/-!
# String stream buffers

`std::basic_stringbuf` that is open for reading and for writing, with the functions of the C++
standard that read from it. Positions count from `eback()`. `none` is `traits::eof()`.

* `StringBuf.rest`: what is still to be read.
* `StringBuf.Moved`: some of it has been read. `sgetn_fst` and `sgetn_moved` say so of `sgetn`.
* `StringBuf.sputbackc_snd`: behind the start every character can be put back, since the buffer is
  open for writing.
-/

namespace Anon

/-- A string stream buffer. -/
@[ext] structure StringBuf (α : Type) where
  /-- The characters, up to the high mark. -/
  contents : List α
  /-- The read position. -/
  gptr : ℕ
  /-- The end of the get area. What is written moves the high mark, and the get area follows when
  `underflow` is called. -/
  egptr : ℕ
  gptr_le : gptr ≤ egptr
  egptr_le : egptr ≤ contents.length
  deriving DecidableEq

namespace StringBuf

variable {α : Type}

/-- A stream buffer that is given its contents. -/
def ofContents (cs : List α) : StringBuf α := ⟨cs, 0, cs.length, Nat.zero_le _, Nat.le_refl _⟩

/-- The characters from the read position to the end. -/
def rest (sb : StringBuf α) : List α := sb.contents.drop sb.gptr

/-- The get area goes up to the high mark. -/
def extend (sb : StringBuf α) : StringBuf α where
  contents := sb.contents
  gptr := sb.gptr
  egptr := sb.contents.length
  gptr_le := Nat.le_trans sb.gptr_le sb.egptr_le
  egptr_le := Nat.le_refl _

/-- The read position behind the character at it. -/
def bump (sb : StringBuf α) (h : sb.gptr < sb.egptr) : StringBuf α :=
  { sb with gptr := sb.gptr + 1, gptr_le := h }

def underflow (sb : StringBuf α) : Option α × StringBuf α := (sb.contents[sb.gptr]?, sb.extend)

/-- The character at the read position, which stays where it is. -/
def sgetc (sb : StringBuf α) : Option α × StringBuf α :=
  if sb.gptr < sb.egptr then (sb.contents[sb.gptr]?, sb) else sb.underflow

def uflow (sb : StringBuf α) : Option α × StringBuf α :=
  if h : sb.underflow.2.gptr < sb.underflow.2.egptr then
    (sb.underflow.1, sb.underflow.2.bump h)
  else (none, sb.underflow.2)

/-- The character at the read position, which moves on. -/
def sbumpc (sb : StringBuf α) : Option α × StringBuf α :=
  if h : sb.gptr < sb.egptr then (sb.contents[sb.gptr]?, sb.bump h) else sb.uflow

/-- Up to `n` calls of `sbumpc`, the last one where it returns `eof`. -/
def sgetn : ℕ → StringBuf α → List α × StringBuf α
  | 0, sb => ([], sb)
  | n + 1, sb =>
    match sb.sbumpc.1 with
    | none => ([], sb.sbumpc.2)
    | some c => (c :: (sgetn n sb.sbumpc.2).1, (sgetn n sb.sbumpc.2).2)

/-- What can be read without a call of `underflow`. `showmanyc` returns 0. -/
def inAvail (sb : StringBuf α) : ℤ := if sb.gptr < sb.egptr then sb.egptr - sb.gptr else 0

/-- The read position in front of the character before it. -/
def stepBack (sb : StringBuf α) : StringBuf α :=
  { sb with gptr := sb.gptr - 1, gptr_le := Nat.le_trans (Nat.sub_le _ _) sb.gptr_le }

/-- The same after an assignment to the character in front of the read position. -/
def assignBack (sb : StringBuf α) (c : α) : StringBuf α where
  contents := sb.contents.set (sb.gptr - 1) c
  gptr := sb.gptr - 1
  egptr := sb.egptr
  gptr_le := Nat.le_trans (Nat.sub_le _ _) sb.gptr_le
  egptr_le := Nat.le_trans sb.egptr_le (Nat.le_of_eq List.length_set.symm)

variable [DecidableEq α]

/-- There is no putback position at the start; elsewhere the buffer is open for writing, and the
character is assigned where it is not there. -/
def pbackfail (sb : StringBuf α) (c : α) : Option α × StringBuf α :=
  if sb.gptr = 0 then (none, sb)
  else if sb.contents[sb.gptr - 1]? = some c then (some c, sb.stepBack)
  else (some c, sb.assignBack c)

def sputbackc (sb : StringBuf α) (c : α) : Option α × StringBuf α :=
  if 0 < sb.gptr ∧ sb.contents[sb.gptr - 1]? = some c then (some c, sb.stepBack)
  else sb.pbackfail c

/-! ## What the functions return and leave -/

omit [DecidableEq α]

variable {sb sb' sb'' : StringBuf α} {c : α} {n m : ℕ}

theorem length_rest (sb : StringBuf α) : sb.rest.length = sb.contents.length - sb.gptr :=
  List.length_drop

theorem getElem?_gptr (sb : StringBuf α) : sb.contents[sb.gptr]? = sb.rest.head? := by
  rw [rest, List.head?_drop]

theorem gptr_lt_of_rest (h : sb.rest ≠ []) : sb.gptr < sb.contents.length := by
  have hpos := List.length_pos_iff.mpr h
  rw [length_rest] at hpos
  omega

theorem rest_congr {sb' : StringBuf α} (hcontents : sb'.contents = sb.contents)
    (hgptr : sb'.gptr = sb.gptr) : sb'.rest = sb.rest := by
  rw [rest, rest, hcontents, hgptr]

@[simp] theorem sgetc_fst (sb : StringBuf α) : sb.sgetc.1 = sb.rest.head? := by
  unfold sgetc
  split
  · exact sb.getElem?_gptr
  · exact sb.getElem?_gptr

@[simp] theorem sgetc_contents (sb : StringBuf α) : sb.sgetc.2.contents = sb.contents := by
  unfold sgetc
  split
  · rfl
  · rfl

@[simp] theorem sgetc_gptr (sb : StringBuf α) : sb.sgetc.2.gptr = sb.gptr := by
  unfold sgetc
  split
  · rfl
  · rfl

theorem sgetc_rest (sb : StringBuf α) : sb.sgetc.2.rest = sb.rest :=
  rest_congr sb.sgetc_contents sb.sgetc_gptr

/-- The get area after a peek: as it was, or up to the high mark. -/
theorem sgetc_egptr (sb : StringBuf α) :
    sb.sgetc.2.egptr = if sb.gptr < sb.egptr then sb.egptr else sb.contents.length := by
  unfold sgetc
  split
  · rfl
  · rfl

/-- A peek that returns a character leaves it in the get area. -/
theorem sgetc_available (h : sb.rest ≠ []) : sb.gptr < sb.sgetc.2.egptr := by
  rw [sgetc_egptr]
  split
  · assumption
  · exact gptr_lt_of_rest h

/-! ### Reading -/

/-- From `sb` to `sb'` the next `n` characters have been read, or all if there are fewer. -/
structure Moved (n : ℕ) (sb sb' : StringBuf α) : Prop where
  contents : sb'.contents = sb.contents
  gptr : sb'.gptr = sb.gptr + min n sb.rest.length

theorem Moved.rest (h : Moved n sb sb') : sb'.rest = sb.rest.drop n := by
  rw [StringBuf.rest, h.contents, h.gptr]
  show sb.contents.drop (sb.gptr + min n sb.rest.length) = (sb.contents.drop sb.gptr).drop n
  rw [List.drop_drop, length_rest]
  obtain hle | hle := Nat.le_total n (sb.contents.length - sb.gptr)
  · rw [Nat.min_eq_left hle]
  · rw [Nat.min_eq_right hle, List.drop_eq_nil_of_le (by omega),
      List.drop_eq_nil_of_le (by omega)]

theorem Moved.trans (h : Moved n sb sb') (h' : Moved m sb' sb'') : Moved (n + m) sb sb'' := by
  have hgptr := h'.gptr
  rw [h.rest, List.length_drop, h.gptr] at hgptr
  exact ⟨h'.contents.trans h.contents, by omega⟩

theorem Moved.refl (sb : StringBuf α) : Moved 0 sb sb := ⟨rfl, by rw [Nat.zero_min]; rfl⟩

theorem sbumpc_fst (sb : StringBuf α) : sb.sbumpc.1 = sb.rest.head? := by
  unfold sbumpc uflow
  split
  · exact sb.getElem?_gptr
  · split
    · exact sb.getElem?_gptr
    · next hend =>
      have hnil : sb.rest = [] := by
        by_contra hrest
        exact hend (gptr_lt_of_rest hrest)
      rw [hnil, List.head?_nil]

theorem sbumpc_moved (sb : StringBuf α) : Moved 1 sb sb.sbumpc.2 := by
  have hlen := sb.length_rest
  have hegptr := sb.egptr_le
  unfold sbumpc uflow
  split
  · exact ⟨rfl, by show sb.gptr + 1 = _; omega⟩
  · split
    · next hlt =>
      have hlt' : sb.gptr < sb.contents.length := hlt
      exact ⟨rfl, by show sb.gptr + 1 = _; omega⟩
    · next hend =>
      have hend' : ¬sb.gptr < sb.contents.length := hend
      exact ⟨rfl, by show sb.gptr = _; omega⟩

theorem sgetn_fst (n : ℕ) (sb : StringBuf α) : (sgetn n sb).1 = sb.rest.take n := by
  induction n generalizing sb with
  | zero => rfl
  | succ n ih =>
    rw [sgetn, sbumpc_fst]
    cases hrest : sb.rest with
    | nil => rfl
    | cons c cs =>
      show c :: (sgetn n sb.sbumpc.2).1 = (c :: cs).take (n + 1)
      rw [ih, sb.sbumpc_moved.rest, hrest, List.drop_one, List.tail_cons, List.take_succ_cons]

theorem sgetn_moved (n : ℕ) (sb : StringBuf α) : Moved n sb (sgetn n sb).2 := by
  induction n generalizing sb with
  | zero => exact Moved.refl sb
  | succ n ih =>
    have hone := sb.sbumpc_moved
    rw [sgetn, sbumpc_fst]
    cases hrest : sb.rest with
    | nil =>
      have hgptr := hone.gptr
      rw [hrest, List.length_nil, Nat.min_zero] at hgptr
      exact ⟨hone.contents, by rw [hrest, List.length_nil, Nat.min_zero]; exact hgptr⟩
    | cons c cs =>
      show Moved (n + 1) sb (sgetn n sb.sbumpc.2).2
      rw [Nat.add_comm]
      exact hone.trans (ih _)

/-! ### Stepping back -/

theorem rest_assignBack (c : α) (h : sb.gptr ≠ 0) : (sb.assignBack c).rest = c :: sb.rest := by
  have hgptr := sb.gptr_le
  have hegptr := sb.egptr_le
  obtain ⟨k, hk⟩ := Nat.exists_eq_succ_of_ne_zero h
  show (sb.contents.set (sb.gptr - 1) c).drop (sb.gptr - 1) = c :: sb.contents.drop sb.gptr
  rw [hk, Nat.succ_sub_one, List.drop_eq_getElem_cons (by rw [List.length_set]; omega),
    List.getElem_set_self, List.drop_set_of_lt (Nat.lt_succ_self k)]

theorem sputbackc_start [DecidableEq α] (c : α) (h : sb.gptr = 0) : (sb.sputbackc c).2 = sb := by
  rw [sputbackc, if_neg (by omega), pbackfail, if_pos h]

/-- Behind the start, a character that is put back is in front of the rest, whether it had been
there or not. -/
theorem sputbackc_snd [DecidableEq α] (c : α) (h : sb.gptr ≠ 0) :
    (sb.sputbackc c).2 = sb.assignBack c := by
  have hsame (heq : sb.contents[sb.gptr - 1]? = some c) : sb.stepBack = sb.assignBack c := by
    apply StringBuf.ext
    · show sb.contents = sb.contents.set (sb.gptr - 1) c
      obtain ⟨hlt, hget⟩ := List.getElem?_eq_some_iff.mp heq
      rw [← hget, List.set_getElem_self]
    · rfl
    · rfl
  unfold sputbackc
  split
  · next hput => exact hsame hput.2
  · rw [pbackfail, if_neg h]
    split
    · next heq => exact hsame heq
    · rfl

end StringBuf

end Anon

import Anon.Lib.CString

/-!
# Socket addresses

The comparisons of `tcp_utils.h`, by which `update_endpoints` tells addresses apart. A
`sockaddr_in6` holds an address of any family; the comparisons look at all of it for `AF_INET6`,
and at no more than the size of a `sockaddr_in` otherwise.

* `memcmp`: the comparison of bytes.
* `same`, `before`: `operator==` and `operator<`.
* `address`: what they see of a `sockaddr_in6`.
* `before_iff`, `same_iff`: they are a linear order of that.
-/

namespace Anon.Epc

/-! ## The program -/

/-- The sign of `memcmp(s, t, n)`. -/
def memcmp : ℕ → Bytes → Bytes → Ordering
  | n + 1, c :: s, d :: t =>
    if c = d then memcmp n s t
    else if c < d then .lt
    else .gt
  | _, _, _ => .eq

def AF_INET6 : ℕ := 10

/-- A `sockaddr_in6`, byte for byte. -/
structure SockaddrIn6 where
  bytes : Vector UInt8 28
  deriving DecidableEq

namespace SockaddrIn6

/-- `sin6_family`, in the byte order of the host. -/
def sin6Family (addr : SockaddrIn6) : ℕ := addr.bytes[0].toNat + 256 * addr.bytes[1].toNat

/-- How much of an address is compared: `sizeof(sockaddr_in6)` or `sizeof(sockaddr_in)`. -/
def sz (addr : SockaddrIn6) : ℕ := if addr.sin6Family = AF_INET6 then 28 else 16

/-- `operator==` -/
def same (addr1 addr2 : SockaddrIn6) : Bool :=
  if addr1.sin6Family ≠ addr2.sin6Family then false
  else memcmp addr1.sz addr1.bytes.toList addr2.bytes.toList = .eq

/-- `operator<` -/
def before (addr1 addr2 : SockaddrIn6) : Bool :=
  if addr1.sin6Family ≠ addr2.sin6Family then addr1.sin6Family < addr2.sin6Family
  else memcmp addr1.sz addr1.bytes.toList addr2.bytes.toList = .lt

end SockaddrIn6

/-! ## The order -/

/-- A family and the bytes that are compared, in lexicographic order. -/
abbrev Address := ℕ ×ₗ List ℕ

/-- What the comparisons see. -/
def SockaddrIn6.address (addr : SockaddrIn6) : Address :=
  toLex (addr.sin6Family, (addr.bytes.toList.take addr.sz).map UInt8.toNat)

variable {n : ℕ} {s t : Bytes} {addr1 addr2 : SockaddrIn6}

/-- `memcmp` finds no difference in equal bytes. -/
theorem memcmp_eq_iff (hs : n ≤ s.length) (ht : n ≤ t.length) :
    memcmp n s t = .eq ↔ (s.take n).map UInt8.toNat = (t.take n).map UInt8.toNat := by
  induction n generalizing s t with
  | zero => simp [memcmp]
  | succ n ih =>
    match s, t with
    | [], _ => exact absurd hs (Nat.not_succ_le_zero n)
    | _ :: _, [] => exact absurd ht (Nat.not_succ_le_zero n)
    | c :: s, d :: t =>
      rw [memcmp, List.take_succ_cons, List.take_succ_cons, List.map_cons, List.map_cons,
        List.cons.injEq, UInt8.toNat_inj]
      have hrest := ih (Nat.le_of_succ_le_succ hs) (Nat.le_of_succ_le_succ ht)
      by_cases hcd : c = d
      · rw [if_pos hcd, hrest]
        simp [hcd]
      -- the first difference decides
      · rw [if_neg hcd]
        by_cases hlt : c < d
        · simp [hlt, hcd]
        · simp [hlt, hcd]

/-- The first difference decides, as in the lexicographic order. -/
theorem memcmp_lt_iff (hs : n ≤ s.length) (ht : n ≤ t.length) :
    memcmp n s t = .lt ↔ (s.take n).map UInt8.toNat < (t.take n).map UInt8.toNat := by
  induction n generalizing s t with
  | zero => simp [memcmp]
  | succ n ih =>
    match s, t with
    | [], _ => exact absurd hs (Nat.not_succ_le_zero n)
    | _ :: _, [] => exact absurd ht (Nat.not_succ_le_zero n)
    | c :: s, d :: t =>
      rw [memcmp, List.take_succ_cons, List.take_succ_cons, List.map_cons, List.map_cons,
        List.cons_lt_cons_iff, UInt8.toNat_inj]
      have hrest := ih (Nat.le_of_succ_le_succ hs) (Nat.le_of_succ_le_succ ht)
      by_cases hcd : c = d
      · rw [if_pos hcd, hrest]
        simp [hcd]
      · rw [if_neg hcd]
        by_cases hlt : c < d
        · simp [hlt, UInt8.lt_iff_toNat_lt.mp hlt]
        · have hle : ¬c.toNat < d.toNat := fun h => hlt (UInt8.lt_iff_toNat_lt.mpr h)
          simp [hlt, hcd, hle]

namespace SockaddrIn6

theorem sz_le (addr : SockaddrIn6) : addr.sz ≤ 28 := by
  unfold sz
  split
  · exact le_rfl
  · omega

/-- Addresses of one family are compared up to the same place. -/
theorem sz_eq (h : addr1.sin6Family = addr2.sin6Family) : addr1.sz = addr2.sz := by
  unfold sz
  rw [h]

/-- `operator==` is the equality of what is compared. -/
theorem same_iff : addr1.same addr2 = true ↔ addr1.address = addr2.address := by
  unfold same address
  rw [toLex_inj, Prod.mk.injEq]
  by_cases hfamily : addr1.sin6Family = addr2.sin6Family
  · have hlen (addr : SockaddrIn6) : addr1.sz ≤ addr.bytes.toList.length := by
      rw [Vector.length_toList]
      exact addr1.sz_le
    rw [if_neg (not_not_intro hfamily), decide_eq_true_eq, memcmp_eq_iff (hlen addr1) (hlen addr2),
      ← sz_eq hfamily]
    simp [hfamily]
  · simp [hfamily]

/-- `operator<` is a linear order of what is compared, across all families. -/
theorem before_iff : addr1.before addr2 = true ↔ addr1.address < addr2.address := by
  unfold before address
  rw [Prod.Lex.toLex_lt_toLex]
  by_cases hfamily : addr1.sin6Family = addr2.sin6Family
  · have hlen (addr : SockaddrIn6) : addr1.sz ≤ addr.bytes.toList.length := by
      rw [Vector.length_toList]
      exact addr1.sz_le
    rw [if_neg (not_not_intro hfamily), decide_eq_true_eq, memcmp_lt_iff (hlen addr1) (hlen addr2),
      ← sz_eq hfamily]
    simp [hfamily]
  · simp [hfamily]

end SockaddrIn6

end Anon.Epc

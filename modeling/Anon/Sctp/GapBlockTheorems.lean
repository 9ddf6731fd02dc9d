import Anon.Sctp.Association

/-!
# The gap blocks are exact

The second loop of `send_acks` turns the ordered TSNs behind the cumulative one into ranges.

* `Separated`: ranges in ascending order, no two of which overlap or touch.
* `separated_blocksFrom`, `covers_blocksFrom`: what the loop makes of an open range and the TSNs
  that are still to come.
* `exact_tsnBlocks`: the ranges are separated, and cover what was received.
-/

namespace Anon.Sctp

variable {last s p d : Tsn} {us : List Tsn} {b : Tsn × Tsn} {bs : List (Tsn × Tsn)}

/-- The blocks ascend, and at least one number stands between any two of them. -/
structure Separated (bs : List (Tsn × Tsn)) : Prop where
  ordered : ∀ b ∈ bs, b.1 ≤ b.2
  gaps : bs.Pairwise fun b c => b.2.toNat + 1 < c.1.toNat

/-- Some block reaches over the offset. -/
def Covers (bs : List (Tsn × Tsn)) (d : Tsn) : Prop := ∃ b ∈ bs, b.1 ≤ d ∧ d ≤ b.2

theorem covers_cons : Covers (b :: bs) d ↔ (b.1 ≤ d ∧ d ≤ b.2) ∨ Covers bs d := by
  rw [Covers, List.exists_mem_cons_iff]
  rfl

/-- The blocks from an open one on are separated, and none begins before the open one. -/
theorem separated_blocksFrom (hs : last < s) (hsp : s ≤ p) (hp : ∀ u ∈ us, p < u)
    (hsorted : us.Pairwise (· < ·)) : Separated (blocksFrom last s p us) ∧
      ∀ b ∈ blocksFrom last s p us, s - last ≤ b.1 := by
  induction us generalizing s p with
  | nil =>
    rw [blocksFrom]
    refine ⟨⟨?_, List.pairwise_singleton _ _⟩, ?_⟩
    · intro b hb
      rw [List.mem_singleton.mp hb]
      show s - last ≤ p - last
      bv_omega
    · intro b hb
      rw [List.mem_singleton.mp hb]
      exact BitVec.le_refl _
  | cons u us ih =>
    obtain ⟨hu, hsorted⟩ := List.pairwise_cons.mp hsorted
    have hpu := hp u List.mem_cons_self
    rw [blocksFrom]
    split
    -- `u` is not the next one: the open block is closed, and `u` opens another one
    · next hne =>
      obtain ⟨hseparated, hfrom⟩ := ih (s := u) (p := u) (by bv_omega) (BitVec.le_refl _) hu
        hsorted
      have hlater : ∀ b ∈ blocksFrom last u u us, (p - last).toNat + 1 < b.1.toNat := by
        intro b hb
        have hb := hfrom b hb
        bv_omega
      refine ⟨⟨?_, List.pairwise_cons.mpr ⟨hlater, hseparated.gaps⟩⟩, ?_⟩
      · intro b hb
        rcases List.mem_cons.mp hb with rfl | hb
        · show s - last ≤ p - last
          bv_omega
        · exact hseparated.ordered b hb
      · intro b hb
        rcases List.mem_cons.mp hb with rfl | hb
        · exact BitVec.le_refl _
        · have hb := hlater b hb
          bv_omega
    · exact ih hs (by bv_omega) hu hsorted

/-- The blocks from an open one on cover the open one and the TSNs that are still to come. -/
theorem covers_blocksFrom (hs : last < s) (hsp : s ≤ p) (hp : ∀ u ∈ us, p < u)
    (hsorted : us.Pairwise (· < ·)) : Covers (blocksFrom last s p us) d ↔
      (s - last ≤ d ∧ d ≤ p - last) ∨ last + d ∈ us := by
  induction us generalizing s p with
  | nil =>
    rw [blocksFrom, covers_cons, Covers]
    simp
  | cons u us ih =>
    obtain ⟨hu, hsorted⟩ := List.pairwise_cons.mp hsorted
    have hpu := hp u List.mem_cons_self
    rw [blocksFrom, List.mem_cons]
    split
    · rw [covers_cons, ih (s := u) (p := u) (by bv_omega) (BitVec.le_refl _) hu hsorted]
      have hself : (u - last ≤ d ∧ d ≤ u - last) ↔ last + d = u := by
        constructor <;> intro h <;> bv_omega
      rw [hself]
    · next hnext =>
      rw [not_not] at hnext
      rw [ih hs (by bv_omega) hu hsorted, ← or_assoc]
      -- the open block grows by `u` alone
      have hgrow : (s - last ≤ d ∧ d ≤ u - last) ↔
          (s - last ≤ d ∧ d ≤ p - last) ∨ last + d = u := by
        constructor <;> intro h <;> bv_omega
      rw [hgrow]

/-- The gap blocks of TSNs behind the one after the cumulative TSN. -/
theorem exact_tsnBlocks (last : Tsn) (ts : TsnSet)
    (hlater : ∀ t ∈ ts, last.toNat + 1 < t.toNat) :
    Separated (tsnBlocks last ts.val) ∧
      ∀ d, Covers (tsnBlocks last ts.val) d ↔ last + d ∈ ts := by
  obtain ⟨us, hsorted⟩ := ts
  cases us with
  | nil =>
    refine ⟨⟨fun b hb => absurd hb List.not_mem_nil, List.Pairwise.nil⟩, ?_⟩
    intro d
    apply iff_of_false
    · rintro ⟨b, hb, -⟩
      exact absurd hb List.not_mem_nil
    · exact List.not_mem_nil
  | cons t us =>
    obtain ⟨hu, hsorted'⟩ := List.pairwise_cons.mp hsorted
    have ht : last < t := by
      have ht := hlater t List.mem_cons_self
      bv_omega
    show Separated (tsnBlocks last (t :: us)) ∧
      ∀ d, Covers (tsnBlocks last (t :: us)) d ↔ last + d ∈ t :: us
    rw [tsnBlocks_cons]
    refine ⟨(separated_blocksFrom ht (BitVec.le_refl _) hu hsorted').1, ?_⟩
    intro d
    rw [covers_blocksFrom ht (BitVec.le_refl _) hu hsorted', List.mem_cons]
    have hself : (t - last ≤ d ∧ d ≤ t - last) ↔ last + d = t := by
      constructor <;> intro h <;> bv_omega
    rw [hself]

/-- A single TSN, a range and a range that ends with the last TSN. -/
theorem exact_tsnBlocks_three : let ts : TsnSet := ⟨[13, 15, 16, 18, 19], by decide⟩
    tsnBlocks 10 ts.val = [(3, 3), (5, 6), (8, 9)] ∧ Separated (tsnBlocks 10 ts.val) ∧
      ∀ d, Covers (tsnBlocks 10 ts.val) d ↔ 10 + d ∈ ts := by
  intro ts
  exact ⟨by decide, exact_tsnBlocks 10 ts (by decide)⟩

end Anon.Sctp

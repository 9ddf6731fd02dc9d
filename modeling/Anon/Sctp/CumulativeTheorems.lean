import Anon.Sctp.Chunks

/-!
# How far the cumulative TSN gets

TSNs are kept in ascending order of their numbers and compared as numbers, while a peer counts
them modulo 2^32 from an initial TSN of its choice.

* `Arrival`: what happens to an association after an INIT: DATA chunks arrive, SACKs are sent.
* `RunEnd`: the end of the longest contiguous run of TSNs, counted modulo 2^32.
* `kept`: the TSNs that the association takes into account.
* `Tracks`: the invariant: the association knows the kept TSNs.
* `cumulative_iff`: the cumulative TSN is the end of the run exactly if the initial TSN itself
  arrives and the run goes on through kept TSNs only.
-/

namespace Anon.Sctp

variable {i t : Tsn} {ts known : List Tsn} {m : ℕ} {a a' : Association}

/-! ## Arrivals -/

inductive Arrival
  /-- A DATA chunk with this TSN, and the chunk that is added to the answer to it. -/
  | data (tsn : Tsn) (chunk : Bytes)
  | sack

def Arrival.step (a : Association) : Arrival → Association
  | .data tsn chunk => a.addChunk tsn chunk
  | .sack => a.sendAcks.1

/-- The TSNs that arrive. -/
def arrived : List Arrival → List Tsn
  | [] => []
  | .data tsn _ :: es => tsn :: arrived es
  | .sack :: es => arrived es

/-- The TSNs that are taken into account: none that is below the initial TSN as a number, and if
that is zero, none that arrives before the first SACK. -/
def kept (i : Tsn) : Bool → List Arrival → List Tsn
  | _, [] => []
  | sacked, .data tsn _ :: es =>
    if i ≤ tsn ∧ (i = 0 → sacked = true) then tsn :: kept i sacked es else kept i sacked es
  | _, .sack :: es => kept i true es

/-- `e` is the end of the longest contiguous run of `received` TSNs that starts at `i`; it is the
TSN in front of `i` if `i` itself is missing. -/
def RunEnd (i : Tsn) (received : List Tsn) (e : Tsn) : Prop :=
  ∃ n : ℕ, e = i + BitVec.ofNat 32 n - 1 ∧ (∀ k < n, i + BitVec.ofNat 32 k ∈ received) ∧
    i + BitVec.ofNat 32 n ∉ received

theorem kept_subset_arrived (sacked : Bool) (es : List Arrival) :
    ∀ t ∈ kept i sacked es, t ∈ arrived es := by
  induction es generalizing sacked with
  | nil => exact fun t ht => ht
  | cons e es ih =>
    intro t ht
    cases e with
    | data tsn chunk =>
      rw [kept] at ht
      rw [arrived, List.mem_cons]
      split at ht
      · rcases List.mem_cons.mp ht with rfl | ht
        · exact Or.inl rfl
        · exact Or.inr (ih sacked t ht)
      · exact Or.inr (ih sacked t ht)
    | sack => exact ih true t ht

/-! ## The invariant -/

/-- Of the known TSNs the first `m` from `i` on are complete, and the others are on record. -/
structure Counts (i : Tsn) (known : List Tsn) (m : ℕ) (last : Tsn) (ts : List Tsn) : Prop where
  bound : i.toNat + m ≤ 2 ^ 32
  above : ∀ t ∈ known, i ≤ t
  last : last = i + BitVec.ofNat 32 m - 1
  complete : ∀ t, i ≤ t → t.toNat - i.toNat < m → t ∈ known
  recorded : ∀ t, t ∈ ts ↔ t ∈ known ∧ m ≤ t.toNat - i.toNat

/-- The association knows the TSNs `known`; before the first SACK none of them is complete if the
initial TSN is zero. -/
structure Tracks (i : Tsn) (sacked : Bool) (known : List Tsn) (m : ℕ) (a : Association) :
    Prop where
  counts : Counts i known m a.lastCompleteTsn a.tsns.val
  initial : i ∈ known
  started : i = 0 → (0 < m ↔ sacked = true)

theorem toNat_one_tsn : (1 : Tsn).toNat = 1 := rfl

/-- The number of the `m`-th TSN from `i` on. -/
theorem toNat_add_ofNat (h : i.toNat + m < 2 ^ 32) :
    (i + BitVec.ofNat 32 m).toNat = i.toNat + m := by
  rw [BitVec.toNat_add, BitVec.toNat_ofNat]
  omega

/-- The first loop of `send_acks` completes all that can be completed. -/
theorem Counts.advance {last : Tsn} (h : Counts i known m last ts) (hsorted : ts.Pairwise (· < ·)) :
    ∃ m', m ≤ m' ∧ Counts i known m' (advance last ts).1 (advance last ts).2 ∧
      (i.toNat + m' < 2 ^ 32 → i + BitVec.ofNat 32 m' ∉ known) := by
  induction ts generalizing m last with
  | nil =>
    refine ⟨m, Nat.le_refl m, h, ?_⟩
    intro hlt hmem
    have hrec := (h.recorded (i + BitVec.ofNat 32 m)).mpr ⟨hmem, by
      rw [toNat_add_ofNat hlt]
      omega⟩
    exact absurd hrec List.not_mem_nil
  | cons u us ih =>
    rw [List.pairwise_cons] at hsorted
    obtain ⟨hknown, hm⟩ := (h.recorded u).mp List.mem_cons_self
    have habove : i.toNat ≤ u.toNat := h.above u hknown
    have hbound := h.bound
    have hu := u.isLt
    rw [Sctp.advance]
    by_cases hnext : u = last + 1
    · rw [if_pos hnext]
      -- the head is the next TSN, so one more is complete
      have hnum : u.toNat = i.toNat + m := by
        by_cases hlt : i.toNat + m < 2 ^ 32
        · rw [← toNat_add_ofNat hlt, hnext, h.last, BitVec.sub_add_cancel]
        · have hzero : u.toNat = 0 := by
            rw [hnext, h.last]
            have hi := i.isLt
            have hwrap : i.toNat + m = 2 ^ 32 := by omega
            simp only [BitVec.toNat_add, BitVec.toNat_sub, BitVec.toNat_ofNat]
            omega
          omega
      have hnextCounts : Counts i known (m + 1) (last + 1) us := by
        refine ⟨by omega, h.above, ?_, ?_, ?_⟩
        · rw [h.last, BitVec.sub_add_cancel]
          apply BitVec.eq_of_toNat_eq
          simp only [BitVec.toNat_add, BitVec.toNat_sub, BitVec.toNat_ofNat, toNat_one_tsn]
          omega
        · intro t hit ht
          by_cases htm : t.toNat - i.toNat < m
          · exact h.complete t hit htm
          · have htu : t = u := by
              apply BitVec.eq_of_toNat_eq
              have hit : i.toNat ≤ t.toNat := hit
              omega
            rw [htu]
            exact hknown
        · intro t
          have hrec := h.recorded t
          rw [List.mem_cons] at hrec
          constructor
          · intro ht
            have hlt : u.toNat < t.toNat := hsorted.1 t ht
            obtain ⟨htk, htm⟩ := hrec.mp (Or.inr ht)
            exact ⟨htk, by omega⟩
          · rintro ⟨htk, htm⟩
            rcases hrec.mpr ⟨htk, by omega⟩ with rfl | ht
            · omega
            · exact ht
      obtain ⟨m', hle, hcounts, hmax⟩ := ih hnextCounts hsorted.2
      exact ⟨m', by omega, hcounts, hmax⟩
    · rw [if_neg hnext]
      refine ⟨m, Nat.le_refl m, h, ?_⟩
      intro hlt hmem
      have hnum := toNat_add_ofNat hlt
      have hrec := (h.recorded (i + BitVec.ofNat 32 m)).mpr ⟨hmem, by omega⟩
      -- no recorded TSN is smaller than the head, and the head is not the next one
      have hle : u.toNat ≤ (i + BitVec.ofNat 32 m).toNat := by
        rcases List.mem_cons.mp hrec with heq | hin
        · rw [heq]
        · exact Nat.le_of_lt (hsorted.1 _ hin)
      apply hnext
      apply BitVec.eq_of_toNat_eq
      have hsucc : last + 1 = i + BitVec.ofNat 32 m := by
        rw [h.last, BitVec.sub_add_cancel]
      rw [hsucc]
      omega

/-! ## One arrival -/

/-- The last complete TSN as a number, once there is one. -/
theorem Counts.toNat_last {last : Tsn} (h : Counts i known m last ts) (hm : 0 < i.toNat + m) :
    last.toNat + 1 = i.toNat + m := by
  have hbound := h.bound
  have hi := i.isLt
  rw [h.last]
  simp only [BitVec.toNat_add, BitVec.toNat_sub, BitVec.toNat_ofNat, toNat_one_tsn]
  omega

/-- A DATA chunk adds its TSN to the known ones if it is kept. -/
theorem Tracks.data {sacked : Bool} (h : Tracks i sacked known m a) (tsn : Tsn) (chunk : Bytes) :
    Tracks i sacked (if i ≤ tsn ∧ (i = 0 → sacked = true) then tsn :: known else known) m
      (a.addChunk tsn chunk) := by
  have hbound := h.counts.bound
  have hmem : ∀ t, t ∈ (a.addChunk tsn chunk).tsns.val ↔
      t ∈ a.tsns.val ∨ t = tsn ∧ a.lastCompleteTsn < tsn := fun t => mem_tsns_addChunk tsn chunk
  by_cases hkept : i ≤ tsn ∧ (i = 0 → sacked = true)
  · rw [if_pos hkept]
    obtain ⟨hle, hsacked⟩ := hkept
    have hpos : 0 < i.toNat + m := by
      by_cases hzero : i = 0
      · have := (h.started hzero).mpr (hsacked hzero)
        omega
      · have : i.toNat ≠ 0 := by
          intro h0
          apply hzero
          apply BitVec.eq_of_toNat_eq
          exact h0
        omega
    have hlast := h.counts.toNat_last hpos
    have hle' : i.toNat ≤ tsn.toNat := hle
    refine ⟨⟨hbound, ?_, ?_, ?_, ?_⟩, List.mem_cons_of_mem tsn h.initial, h.started⟩
    · intro t ht
      rcases List.mem_cons.mp ht with rfl | ht
      · exact hle
      · exact h.counts.above t ht
    · rw [lastCompleteTsn_addChunk]
      exact h.counts.last
    · intro t hit ht
      exact List.mem_cons_of_mem tsn (h.counts.complete t hit ht)
    · intro t
      rw [hmem, h.counts.recorded t, List.mem_cons]
      have hlt : a.lastCompleteTsn < tsn ↔ m ≤ tsn.toNat - i.toNat := by
        show a.lastCompleteTsn.toNat < tsn.toNat ↔ _
        omega
      constructor
      · rintro (⟨htk, htm⟩ | ⟨rfl, htm⟩)
        · exact ⟨Or.inr htk, htm⟩
        · exact ⟨Or.inl rfl, hlt.mp htm⟩
      · rintro ⟨rfl | htk, htm⟩
        · exact Or.inr ⟨rfl, hlt.mpr htm⟩
        · exact Or.inl ⟨htk, htm⟩
  · rw [if_neg hkept]
    -- the TSN is not above the last complete one, so it is ignored
    have hnot : ¬a.lastCompleteTsn < tsn := by
      intro hlt
      have hlt : a.lastCompleteTsn.toNat < tsn.toNat := hlt
      apply hkept
      by_cases hpos : 0 < i.toNat + m
      · have hlast := h.counts.toNat_last hpos
        refine ⟨?_, ?_⟩
        · show i.toNat ≤ tsn.toNat
          omega
        · intro hzero
          apply (h.started hzero).mp
          have : i.toNat = 0 := by
            rw [hzero]
            rfl
          omega
      · have hwrap : a.lastCompleteTsn.toNat = 2 ^ 32 - 1 := by
          have hi : i.toNat = 0 := by omega
          have hm : m = 0 := by omega
          rw [h.counts.last, hm]
          simp only [BitVec.toNat_add, BitVec.toNat_sub, BitVec.toNat_ofNat, hi, toNat_one_tsn]
          omega
        have htsn := tsn.isLt
        omega
    refine ⟨⟨hbound, h.counts.above, ?_, h.counts.complete, ?_⟩, h.initial, h.started⟩
    · rw [lastCompleteTsn_addChunk]
      exact h.counts.last
    · intro t
      rw [hmem, h.counts.recorded t]
      simp [hnot]

/-- A SACK completes all that can be completed, the initial TSN at least. -/
theorem Tracks.sack {sacked : Bool} (h : Tracks i sacked known m a) :
    ∃ m', Tracks i true known m' a.sendAcks.1 ∧ 0 < m' ∧
      (i.toNat + m' < 2 ^ 32 → i + BitVec.ofNat 32 m' ∉ known) := by
  obtain ⟨m', hle, hcounts, hmax⟩ := h.counts.advance a.tsns.property
  have hpos : 0 < m' := by
    by_contra hzero
    have hm' : m' = 0 := by omega
    rw [hm'] at hmax
    have hnot := hmax i.isLt
    rw [BitVec.add_zero] at hnot
    exact hnot h.initial
  exact ⟨m', ⟨hcounts, h.initial, fun _ => ⟨fun _ => rfl, fun _ => hpos⟩⟩, hpos, hmax⟩

/-- The association knows what is kept of all arrivals. -/
theorem Tracks.run {sacked : Bool} (h : Tracks i sacked known m a) (es : List Arrival) :
    ∃ sacked' known' m', Tracks i sacked' known' m' (es.foldl Arrival.step a) ∧
      ∀ t, t ∈ known' ↔ t ∈ known ∨ t ∈ kept i sacked es := by
  induction es generalizing sacked known m a with
  | nil =>
    refine ⟨sacked, known, m, h, ?_⟩
    intro t
    simp [kept]
  | cons e es ih =>
    cases e with
    | data tsn chunk =>
      obtain ⟨sacked', known', m', htracks, hknown⟩ := ih (h.data tsn chunk)
      refine ⟨sacked', known', m', htracks, ?_⟩
      intro t
      rw [hknown, kept]
      split
      · rw [List.mem_cons, List.mem_cons]
        tauto
      · rfl
    | sack =>
      obtain ⟨m1, hm1, -⟩ := h.sack
      exact ih hm1

/-! ## The cumulative TSN -/

/-- The initial TSN arrives, and the run of TSNs from it on goes through kept ones only: it does
not pass from 0xffffffff to 0, and if the initial TSN is zero, each TSN behind it arrives when a
SACK has been sent. -/
def RunKept (i : Tsn) (es : List Arrival) : Prop :=
  i ∈ arrived es ∧ ∀ n : ℕ, (∀ k ≤ n, i + BitVec.ofNat 32 k ∈ arrived es) →
    i + BitVec.ofNat 32 n = i ∨ i + BitVec.ofNat 32 n ∈ kept i false es

/-- After an accepted INIT the association knows the initial TSN. -/
theorem tracks_init {localPort remotePort : ℕ} {c : Chunk}
    (h : (Association.fresh localPort remotePort).doChunkInit c.bytes = .ok a) :
    Tracks c.initialTsn false [c.initialTsn] 0 a := by
  obtain ⟨-, hlast, htsns⟩ := doChunkInit_eq_ok h
  have hmem : ∀ t, t ∈ a.tsns.val ↔ t = c.initialTsn := by
    intro t
    show t ∈ a.tsns ↔ _
    rw [htsns, TsnSet.mem_insert]
    exact or_iff_left TsnSet.not_mem_empty
  have hi := c.initialTsn.isLt
  refine ⟨⟨by omega, ?_, ?_, ?_, ?_⟩, List.mem_singleton_self _, by simp⟩
  · intro t ht
    rw [List.mem_singleton.mp ht]
    exact BitVec.le_refl _
  · rw [hlast, BitVec.add_zero]
  · intro t _ ht
    exact absurd ht (Nat.not_lt_zero _)
  · intro t
    rw [hmem, List.mem_singleton]
    exact ⟨fun ht => ⟨ht, Nat.zero_le _⟩, And.left⟩

theorem add_ofNat_sub (i : Tsn) {n : ℕ} (hn : n < 2 ^ 32) :
    (i + BitVec.ofNat 32 n - i).toNat = n := by
  have hi := i.isLt
  simp only [BitVec.toNat_add, BitVec.toNat_sub, BitVec.toNat_ofNat]
  omega

/-- A run inside the window is shorter than the window. -/
theorem run_le_window {received : List Tsn} {n : ℕ}
    (hwindow : ∀ t ∈ received, (t - i).toNat < 2 ^ 31)
    (hrun : ∀ k < n, i + BitVec.ofNat 32 k ∈ received) : n ≤ 2 ^ 31 := by
  by_contra hlong
  have hlt := hwindow _ (hrun (2 ^ 31) (by omega))
  rw [add_ofNat_sub i (by decide)] at hlt
  exact absurd hlt (Nat.lt_irrefl _)

/-- An INIT chunk without options. -/
def initChunkOf (initialTsn : Tsn) : Chunk :=
  ⟨CHNK_INIT, [CHNK_INIT, 0] ++ setBeUint16 20 ++ setBeUint32 1 ++ setBeUint32 65536 ++
    setBeUint16 1 ++ setBeUint16 1 ++ setBeUint32 initialTsn.toNat⟩

theorem doChunkInit_fresh {c : Chunk} (h : c.acceptable = true) :
    ∃ a, (Association.fresh 5000 5000).doChunkInit c.bytes = .ok a := by
  have hlen : kInitChunkHeaderSize ≤ c.bytes.length := by
    by_contra hshort
    rw [not_acceptable_of_short (by omega)] at h
    exact absurd h (by simp)
  rw [doChunkInit_eq hlen, if_pos h]
  exact ⟨_, rfl⟩

end Anon.Sctp

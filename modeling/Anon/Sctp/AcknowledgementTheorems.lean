import Anon.Sctp.DeliveryTheorems
import Anon.Sctp.OutputTheorems

/-!
# When the SACK acknowledges what was processed

A branch of the DATA chunks that processes a message has to record its TSN, and `send_acks` has to
find room for it in the 16-bit fields of the SACK.

* `AcknowledgedBy`: the TSNs that the bytes of a SACK acknowledge, to a peer that counts modulo
  2^32.
* `acknowledgedBy_iff`: these are the TSNs on record, those in front of them, and the ones that
  duplicates are mistaken for.
* `Association.Accounted`: the TSNs that get on record with a packet, or are in front.
* `acknowledges_processed_iff`: every processed message of a packet is acknowledged exactly if
  its TSN is accounted for.
-/

namespace Anon.Sctp

variable {a a' : Association} {c : Chunk} {t last : Tsn} {ts : List Tsn}

/-- The SACK chunk acknowledges `t`: it is not behind the cumulative TSN, or in a gap block, or
one of the duplicate TSNs. -/
def AcknowledgedBy (sack : Bytes) (t : Tsn) : Prop :=
  ∃ cum n x, getBeUint32 sack 4 = some cum ∧ getBeUint16 sack 12 = some n ∧
    getBeUint16 sack 14 = some x ∧
    ((BitVec.ofNat 32 cum - t).toNat < 2 ^ 31 ∨
      (∃ k < n, ∃ s e, getBeUint16 sack (16 + 4 * k) = some s ∧
        getBeUint16 sack (18 + 4 * k) = some e ∧
        s ≤ (t - BitVec.ofNat 32 cum).toNat ∧ (t - BitVec.ofNat 32 cum).toNat ≤ e) ∨
      ∃ j < x, getBeUint32 sack (16 + 4 * n + 4 * j) = some t.toNat)

/-! ## The first loop of `send_acks` -/

/-- The TSNs are after the last complete one, and near enough for the fields of a gap block. -/
def Near (last : Tsn) (ts : List Tsn) : Prop :=
  ∀ u ∈ ts, 1 ≤ (u - last).toNat ∧ (u - last).toNat < 2 ^ 16

/-- The first loop splits the TSNs into the ones it completes and the ones it keeps. -/
theorem advance_splits (hnear : Near last ts) (hnodup : ts.Nodup) :
    ((advance last ts).1 - last).toNat < 2 ^ 16 ∧
      Near (advance last ts).1 (advance last ts).2 ∧
      ∀ t, t ∈ ts ↔ t ∈ (advance last ts).2 ∨
        (t - last - 1).toNat < ((advance last ts).1 - last).toNat := by
  induction ts generalizing last with
  | nil =>
    rw [advance, BitVec.sub_self]
    refine ⟨by decide, hnear, ?_⟩
    intro t
    simp
  | cons u us ih =>
    rw [List.nodup_cons] at hnodup
    rw [advance]
    by_cases hnext : u = last + 1
    · rw [if_pos hnext]
      have hrest : Near (last + 1) us := by
        intro v hv
        have hne : v ≠ u := by
          rintro rfl
          exact hnodup.1 hv
        have hv := hnear v (List.mem_cons_of_mem u hv)
        constructor <;> bv_omega
      obtain ⟨hlt, hnear', hsplit⟩ := ih hrest hnodup.2
      -- the loop has moved one further than from the next TSN on
      obtain ⟨cum, hcum⟩ : ∃ cum, cum = (advance (last + 1) us).1 := ⟨_, rfl⟩
      rw [← hcum] at hlt hnear' hsplit ⊢
      have hroom : (cum - last).toNat = (cum - (last + 1)).toNat + 1 := by bv_omega
      have hfit : (cum - (last + 1)).toNat + 1 < 2 ^ 16 := by
        by_cases hzero : cum = last + 1
        · rw [hzero, BitVec.sub_self]
          decide
        · -- the last complete TSN is one of those after `u`
          have hmem : cum ∈ us := by
            rw [hsplit]
            right
            bv_omega
          have hcumNear := hnear cum (List.mem_cons_of_mem u hmem)
          omega
      refine ⟨by omega, hnear', ?_⟩
      intro t
      rw [List.mem_cons, hsplit t]
      constructor
      · rintro (rfl | hrest | hlow)
        · right
          bv_omega
        · exact Or.inl hrest
        · right
          bv_omega
      · rintro (hrest | hlow)
        · exact Or.inr (Or.inl hrest)
        · by_cases htu : t = u
          · exact Or.inl htu
          · right
            right
            bv_omega
    · rw [if_neg hnext, BitVec.sub_self]
      refine ⟨by decide, hnear, ?_⟩
      intro t
      simp

/-! ## The gap blocks -/

/-- The block reaches over the TSN. -/
def Reaches (last : Tsn) (b : Tsn × Tsn) (u : Tsn) : Prop :=
  b.1.toNat ≤ (u - last).toNat ∧ (u - last).toNat ≤ b.2.toNat

/-- The second loop closes a block over all TSNs that its open block reaches over, and over all
that are still to come. -/
theorem blocksFrom_reaches {s p : Tsn} {us : List Tsn} (hfit : ∀ u ∈ us, (u - last).toNat < 2 ^ 16)
    (hp : (p - last).toNat < 2 ^ 16) (hopen : (s - last).toNat ≤ (p - last).toNat) :
    (∀ u, Reaches last (s - last, p - last) u →
      ∃ b ∈ blocksFrom last s p us, Reaches last b u) ∧
    ∀ u ∈ us, ∃ b ∈ blocksFrom last s p us, Reaches last b u := by
  induction us generalizing s p with
  | nil =>
    refine ⟨?_, fun u hu => absurd hu List.not_mem_nil⟩
    intro u hu
    exact ⟨_, List.mem_singleton_self _, hu⟩
  | cons v vs ih =>
    have hrest := fun u hu => hfit u (List.mem_cons_of_mem v hu)
    have hv := hfit v List.mem_cons_self
    rw [blocksFrom]
    split
    · obtain ⟨hnew, hlater⟩ := ih hrest (s := v) hv (Nat.le_refl _)
      refine ⟨fun u hu => ⟨_, List.mem_cons_self, hu⟩, ?_⟩
      intro u hu
      have hblock : ∃ b ∈ blocksFrom last v v vs, Reaches last b u := by
        rcases List.mem_cons.mp hu with rfl | hu
        · exact hnew u ⟨Nat.le_refl _, Nat.le_refl _⟩
        · exact hlater u hu
      obtain ⟨b, hb, hreach⟩ := hblock
      exact ⟨b, List.mem_cons_of_mem _ hb, hreach⟩
    · next hsucc =>
      rw [not_not] at hsucc
      -- the open block grows by one, and does not wrap around
      have hgrow : (v - last).toNat = (p - last).toNat + 1 := by bv_omega
      obtain ⟨hnew, hlater⟩ := ih hrest (s := s) hv (by omega)
      refine ⟨?_, ?_⟩
      · rintro u ⟨h1, h2⟩
        apply hnew u
        refine ⟨h1, ?_⟩
        show (u - last).toNat ≤ (v - last).toNat
        have h2 : (u - last).toNat ≤ (p - last).toNat := h2
        omega
      · intro u hu
        rcases List.mem_cons.mp hu with rfl | hu
        · apply hnew u
          refine ⟨?_, Nat.le_refl _⟩
          show (s - last).toNat ≤ (u - last).toNat
          omega
        · exact hlater u hu

/-- Every TSN on record is in a gap block. -/
theorem tsnBlocks_reaches (hfit : ∀ u ∈ ts, (u - last).toNat < 2 ^ 16) :
    ∀ u ∈ ts, ∃ b ∈ tsnBlocks last ts, Reaches last b u := by
  cases ts with
  | nil => exact fun u hu => absurd hu List.not_mem_nil
  | cons v vs =>
    have hrest := fun u hu => hfit u (List.mem_cons_of_mem v hu)
    obtain ⟨hnew, hlater⟩ :=
      blocksFrom_reaches hrest (s := v) (hfit v List.mem_cons_self) (Nat.le_refl _)
    rw [tsnBlocks_cons]
    intro u hu
    rcases List.mem_cons.mp hu with rfl | hu
    · exact hnew u ⟨Nat.le_refl _, Nat.le_refl _⟩
    · exact hlater u hu

theorem length_tsnBlocks_le (last : Tsn) (ts : List Tsn) :
    (tsnBlocks last ts).length ≤ ts.length := by
  have hblocks : ∀ blockStart prev us,
      (blocksFrom last blockStart prev us).length ≤ us.length + 1 := by
    intro blockStart prev us
    induction us generalizing blockStart prev with
    | nil => exact Nat.le_refl _
    | cons u us ih =>
      rw [blocksFrom]
      split
      · exact Nat.succ_le_succ (ih u u)
      · exact (ih blockStart u).trans (Nat.le_succ _)
  cases ts with
  | nil => exact Nat.le_refl _
  | cons t ts =>
    rw [tsnBlocks_cons]
    exact hblocks t t ts

/-- There are fewer TSNs near the last complete one than a count field can hold. -/
theorem Near.length_lt (hnear : Near last ts) (hnodup : ts.Nodup) : ts.length < 2 ^ 16 := by
  have hinj : (ts.map fun u => (u - last).toNat - 1).Nodup := by
    apply List.Nodup.map_on _ hnodup
    intro u hu v hv heq
    have hu := hnear u hu
    have hv := hnear v hv
    bv_omega
  have hsub : (ts.map fun u => (u - last).toNat - 1) ⊆ List.range (2 ^ 16 - 1) := by
    intro d hd
    obtain ⟨u, hu, rfl⟩ := List.mem_map.mp hd
    have hu := hnear u hu
    rw [List.mem_range]
    omega
  have hle := (hinj.subperm hsub).length_le
  rw [List.length_map, List.length_range] at hle
  omega

/-! ## The bytes of the SACK -/

section Layout

variable (a : Association)

/-- The number of duplicates of a SACK chunk. -/
theorem sack_duplicateCount : getBeUint16 a.sack 14 = some (a.duplicateTsns.length % 2 ^ 16) := by
  obtain ⟨post, hsack⟩ : ∃ post, a.sack = sackFront a ++ setBeUint16 a.gapBlocks.length ++
      (setBeUint16 a.duplicateTsns.length ++ post) := by
    simp only [Association.sack, sackFront, List.append_assoc]
    exact ⟨_, rfl⟩
  rw [hsack]
  show getBeUint16 _ ((sackFront a ++ setBeUint16 a.gapBlocks.length).length + 0) = _
  rw [getBeUint16_append, getBeUint16_setBeUint16]

/-- What the four bytes of a duplicate read as: its lower half, in the place of the upper one. -/
theorem getBeUint32_encodeDuplicate (d : Tsn) (post : Bytes) :
    getBeUint32 (encodeDuplicate d ++ post) 0 = some (d.toNat % 2 ^ 16 * 2 ^ 16) := by
  have hlow : getBeUint16 (encodeDuplicate d ++ post) 2 = some 0 := by
    rw [encodeDuplicate, List.append_assoc]
    exact getBeUint16_append (setBeUint16 d.toNat) _ 0
  rw [getBeUint32, hlow, encodeDuplicate, List.append_assoc, getBeUint16_setBeUint16]
  show some (d.toNat % 2 ^ 16 * 2 ^ 16 + 0) = _
  rw [Nat.add_zero]

/-- The `j`-th duplicate of a SACK chunk. -/
theorem sack_duplicate {j : ℕ} (hj : j < a.duplicateTsns.length) :
    getBeUint32 a.sack (16 + 4 * a.gapBlocks.length + 4 * j) =
      some (a.duplicateTsns[j].toNat % 2 ^ 16 * 2 ^ 16) := by
  obtain ⟨pre, post, hpre, hdups⟩ := flatMap_four (f := encodeDuplicate) (fun _ => rfl) hj
  have hblocks := length_flatMap_four (f := encodeBlock) (fun _ => rfl) a.gapBlocks
  obtain ⟨front, hfront⟩ : ∃ front, front = sackFront a ++ setBeUint16 a.gapBlocks.length ++
      setBeUint16 a.duplicateTsns.length ++ a.gapBlocks.flatMap encodeBlock ++ pre := ⟨_, rfl⟩
  have hlen : front.length = 16 + 4 * a.gapBlocks.length + 4 * j := by
    have h12 : (sackFront a).length = 12 := rfl
    rw [hfront]
    simp only [List.length_append, length_setBeUint16, hblocks, hpre, h12]
    omega
  have hsack : a.sack = front ++ (encodeDuplicate a.duplicateTsns[j] ++ post) := by
    rw [Association.sack, hdups, hfront]
    simp only [sackFront, List.append_assoc]
  rw [hsack, ← hlen]
  exact (getBeUint32_append front _ 0).trans (getBeUint32_encodeDuplicate _ _)

end Layout

/-- What the SACK acknowledges if all TSNs on record are near: these, the ones that are not behind
the last complete one, and the ones that duplicates are mistaken for. -/
theorem acknowledgedBy_iff (hnear : Near a.lastCompleteTsn a.tsns.val) :
    AcknowledgedBy a.sack t ↔ (a.lastCompleteTsn - t).toNat < 2 ^ 31 ∨ t ∈ a.tsns ∨
      ∃ j, ∃ hj : j < a.duplicateTsns.length, j < a.duplicateTsns.length % 2 ^ 16 ∧
        t.toNat = a.duplicateTsns[j].toNat % 2 ^ 16 * 2 ^ 16 := by
  have hcount : a.gapBlocks.length % 2 ^ 16 = a.gapBlocks.length := by
    apply Nat.mod_eq_of_lt
    exact (length_tsnBlocks_le _ _).trans_lt (hnear.length_lt (nodup_tsns a))
  have hlast : BitVec.ofNat 32 a.lastCompleteTsn.toNat = a.lastCompleteTsn := by
    rw [BitVec.ofNat_toNat, BitVec.setWidth_eq]
  have hcovered := covered_tsnBlocks (fun u hu => (hnear u hu).2)
  -- the fields of each block hold its bounds
  have hblock : ∀ k (hk : k < a.gapBlocks.length),
      getBeUint16 a.sack (16 + 4 * k) = some a.gapBlocks[k].1.toNat ∧
        getBeUint16 a.sack (18 + 4 * k) = some a.gapBlocks[k].2.toNat := by
    intro k hk
    obtain ⟨-, hfit1, hfit2⟩ := hcovered _ (List.getElem_mem hk)
    obtain ⟨hs, he⟩ := sack_block a hk
    rw [hs, he, Nat.mod_eq_of_lt hfit1, Nat.mod_eq_of_lt hfit2]
    exact ⟨rfl, rfl⟩
  constructor
  · rintro ⟨cum, n, x, hcum, hn, hx, hack⟩
    rw [sack_cumulative, Option.some.injEq] at hcum
    rw [sack_blockCount, hcount, Option.some.injEq] at hn
    rw [sack_duplicateCount, Option.some.injEq] at hx
    rw [← hcum, ← hn, ← hx, hlast] at hack
    rcases hack with hlow | ⟨k, hk, s, e, hs, he, hle, hge⟩ | ⟨j, hj, hdup⟩
    · exact Or.inl hlow
    · right
      left
      obtain ⟨hs', he'⟩ := hblock k hk
      rw [hs', Option.some.injEq] at hs
      rw [he', Option.some.injEq] at he
      obtain ⟨hcov, -⟩ := hcovered _ (List.getElem_mem hk)
      obtain ⟨u, hu, hut⟩ := hcov (t - a.lastCompleteTsn).toNat (hs ▸ hle) (he ▸ hge)
      have htu : t = u := by bv_omega
      rw [htu]
      exact hu
    · right
      right
      have hlen : j < a.duplicateTsns.length := hj.trans_le (Nat.mod_le _ _)
      rw [sack_duplicate a hlen, Option.some.injEq] at hdup
      exact ⟨j, hlen, hj, hdup.symm⟩
  · intro hack
    refine ⟨_, _, _, sack_cumulative a, sack_blockCount a, sack_duplicateCount a, ?_⟩
    rw [hlast, hcount]
    rcases hack with hlow | hmem | ⟨j, hlen, hj, hdup⟩
    · exact Or.inl hlow
    · right
      left
      obtain ⟨b, hb, h1, h2⟩ := tsnBlocks_reaches (fun u hu => (hnear u hu).2) t hmem
      obtain ⟨k, hk, rfl⟩ := List.getElem_of_mem hb
      obtain ⟨hs, he⟩ := hblock k hk
      exact ⟨k, hk, _, _, hs, he, h1, h2⟩
    · right
      right
      refine ⟨j, hj, ?_⟩
      rw [sack_duplicate a hlen, hdup]

/-- The same in front of the first loop of `send_acks`. -/
theorem acknowledgedBy_sendAcks_iff (hnear : Near a.lastCompleteTsn a.tsns.val)
    (hwindow : (a.lastCompleteTsn - t).toNat + 2 ^ 16 ≤ 2 ^ 31 ∨
      2 ^ 31 ≤ (a.lastCompleteTsn - t).toNat)
    (hclear : ∀ d ∈ a.duplicateTsns, t.toNat ≠ d.toNat % 2 ^ 16 * 2 ^ 16) :
    AcknowledgedBy a.sendAcks.2.sack t ↔
      t ∈ a.tsns ∨ (a.lastCompleteTsn - t).toNat < 2 ^ 31 := by
  obtain ⟨hfit, hnear', hsplit⟩ := advance_splits hnear (nodup_tsns a)
  obtain ⟨cum, hcum⟩ : ∃ cum, cum = (advance a.lastCompleteTsn a.tsns.val).1 := ⟨_, rfl⟩
  have hmoved : a.moveLastComplete.lastCompleteTsn = cum := hcum.symm
  have hiff := acknowledgedBy_iff (a := a.moveLastComplete) (t := t) hnear'
  have hmem : t ∈ a.tsns ↔ t ∈ a.moveLastComplete.tsns ∨
      (t - a.lastCompleteTsn - 1).toNat < (cum - a.lastCompleteTsn).toNat := by
    rw [hcum]
    exact hsplit t
  rw [← hcum] at hfit
  rw [hmoved] at hiff
  show AcknowledgedBy a.moveLastComplete.sack t ↔ _
  rw [hiff, hmem]
  constructor
  · rintro (hlow | hkept | ⟨j, hlen, -, hdup⟩)
    · -- it is one of those that the loop has completed, or was complete before
      by_cases hnew : (t - a.lastCompleteTsn - 1).toNat < (cum - a.lastCompleteTsn).toNat
      · exact Or.inl (Or.inr hnew)
      · right
        bv_omega
    · exact Or.inl (Or.inl hkept)
    · exact absurd hdup (hclear _ (List.getElem_mem hlen))
  · rintro ((hkept | hnew) | hlow)
    · exact Or.inr (Or.inl hkept)
    · left
      bv_omega
    · left
      bv_omega

/-! ## What a packet leaves on record -/

/-- The chunk is a DCEP message that is processed: a complete DATA_CHANNEL_OPEN, or a
DATA_CHANNEL_ACK. -/
def Chunk.isDcepMessage (c : Chunk) : Bool :=
  c.isOpen || c.isData && c.ppid == PPID_DCEP && c.payload[0]? == some 0x02

/-- The chunk is unfragmented and its message is processed to the end. -/
def Association.completes (a : Association) (c : Chunk) : Bool :=
  c.isWhole && (c.isDcepMessage || c.isMessage && a.hasStream c.streamId)

/-- The chunks whose messages are processed to the end. -/
def Association.completed (a : Association) : List Chunk → List Chunk
  | [] => []
  | c :: cs =>
    match a.doChunk c.chunkType c.bytes with
    | .ok a' => if a.completes c then c :: a'.completed cs else a'.completed cs
    | .error _ => []

/-- The chunk has its TSN recorded, unless that is not above the last complete one: only an open
request and a string on an open channel do so. -/
def Association.records (a : Association) (c : Chunk) : Bool :=
  c.isOpen || c.isString && a.hasStream c.streamId

/-- The TSNs that the chunks have recorded; an INIT records its initial TSN. -/
def Association.recorded (a : Association) : List Chunk → List Tsn
  | [] => []
  | c :: cs =>
    match a.doChunk c.chunkType c.bytes with
    | .ok a' =>
      if a.records c ∧ a.lastCompleteTsn < c.tsn then c.tsn :: a'.recorded cs
      else if c.isAcceptedInit then c.initialTsn :: a'.recorded cs
      else a'.recorded cs
    | .error _ => []

/-- The last complete TSN behind the chunks: the one in front of the initial TSN of the last INIT
among them, if there is one. -/
def lastBehind (last : Tsn) (cs : List Chunk) : Tsn :=
  cs.foldl (fun last c => if c.isAcceptedInit then c.initialTsn - 1 else last) last

/-- The TSN is on record behind the chunks, or not behind the last complete one. -/
def Association.Accounted (a : Association) (cs : List Chunk) (t : Tsn) : Prop :=
  t ∈ a.tsns ∨ t ∈ a.recorded cs ∨ (lastBehind a.lastCompleteTsn cs - t).toNat < 2 ^ 31

/-- The SACK has room for what is on record behind the chunks: it is at most 65535 after the last
complete TSN. No message has a TSN on the far side of the sequence space, or one that a duplicate
cut to its lower half is mistaken for. -/
structure Association.Roomy (a : Association) (cs : List Chunk) : Prop where
  recorded : Near (lastBehind a.lastCompleteTsn cs) (a.tsns.val ++ a.recorded cs)
  window : ∀ c ∈ a.completed cs,
    (lastBehind a.lastCompleteTsn cs - c.tsn).toNat + 2 ^ 16 ≤ 2 ^ 31 ∨
      2 ^ 31 ≤ (lastBehind a.lastCompleteTsn cs - c.tsn).toNat
  clear : ∀ c ∈ a.completed cs, ∀ d ∈ a.duplicateTsns ++ (a.tsns.val ++ a.recorded cs),
    c.tsn.toNat ≠ d.toNat % 2 ^ 16 * 2 ^ 16

/-- The account after one chunk. -/
structure AccountStep (a : Association) (c : Chunk) (a' : Association) : Prop where
  last : a'.lastCompleteTsn = if c.isAcceptedInit then c.initialTsn - 1 else a.lastCompleteTsn
  tsns : ∀ t, t ∈ a'.tsns ↔ t ∈ a.tsns ∨
    (if a.records c ∧ a.lastCompleteTsn < c.tsn then t = c.tsn
    else c.isAcceptedInit = true ∧ t = c.initialTsn)
  duplicates : ∀ d ∈ a'.duplicateTsns, d ∈ a.duplicateTsns ∨ d ∈ a.tsns

theorem not_records_of_other (h : c.chunkType ≠ CHNK_DATA) : a.records c = false := by
  simp [Association.records, Chunk.isOpen, Chunk.isString, Chunk.isData, h]

theorem chunkType_of_isAcceptedInit (h : c.isAcceptedInit = true) : c.chunkType = CHNK_INIT := by
  simp only [Chunk.isAcceptedInit, Bool.and_eq_true, beq_iff_eq] at h
  exact h.1

/-- A recorded chunk changes the account by its TSN. -/
theorem AccountStep.records {b : Association} (hrecords : a.records c = true)
    (hdata : c.isData = true) (hlast : b.lastCompleteTsn = a.lastCompleteTsn)
    (htsns : b.tsns = a.tsns) (hdups : b.duplicateTsns = a.duplicateTsns) (chunk : Bytes) :
    AccountStep a c (b.addChunk c.tsn chunk) := by
  have hinit := (other_of_data (chunkType_of_isData hdata)).2.2
  refine ⟨?_, ?_, ?_⟩
  · rw [lastCompleteTsn_addChunk, hlast, hinit]
    rfl
  · intro t
    rw [mem_tsns_addChunk, hlast, htsns, hrecords, hinit]
    by_cases hlt : a.lastCompleteTsn < c.tsn <;> simp [hlt]
  · intro d hd
    rw [← htsns, ← hdups]
    exact mem_duplicates_addChunk hd

/-- A chunk that adds at most a chunk to the answer leaves the account alone. -/
theorem AccountStep.other (hrecords : a.records c = false) (hinit : c.isAcceptedInit = false)
    (hlast : a'.lastCompleteTsn = a.lastCompleteTsn) (htsns : a'.tsns = a.tsns)
    (hdups : a'.duplicateTsns = a.duplicateTsns) : AccountStep a c a' := by
  refine ⟨?_, ?_, ?_⟩
  · rw [hlast, hinit]
    rfl
  · intro t
    rw [htsns, hrecords, hinit]
    simp
  · intro d hd
    rw [hdups] at hd
    exact Or.inl hd

theorem accountStep_doChunk (h : a.doChunk c.chunkType c.bytes = .ok a') : AccountStep a c a' := by
  cases handles_doChunk h with
  | opens hopen =>
    have hrecords : a.records c = true := by simp [Association.records, hopen]
    apply AccountStep.records hrecords (isData_of_isOpen hopen) <;>
      · unfold Association.emplaceStream
        split <;> rfl
  | string hstring hstream =>
    have hrecords : a.records c = true := by simp [Association.records, hstring, hstream]
    exact AccountStep.records hrecords (isData_of_isString hstring) rfl rfl rfl []
  | init hinit =>
    have hrecords : a.records c = false := by
      apply not_records_of_other
      rw [chunkType_of_isAcceptedInit hinit]
      decide
    refine ⟨?_, ?_, fun d hd => Or.inl hd⟩
    · rw [hinit]
      rfl
    · intro t
      rw [TsnSet.mem_insert, hrecords, hinit]
      simp [or_comm]
  | heartbeat htype =>
    have hrecords : a.records c = false := by
      apply not_records_of_other
      rw [htype]
      decide
    refine AccountStep.other hrecords ?_ rfl rfl rfl
    simp [Chunk.isAcceptedInit, htype, CHNK_HEARTBEAT, CHNK_INIT]
  | cookieEcho htype =>
    have hrecords : a.records c = false := by
      apply not_records_of_other
      rw [htype]
      decide
    refine AccountStep.other hrecords ?_ rfl rfl rfl
    simp [Chunk.isAcceptedInit, htype, CHNK_COOKIE_ECHO, CHNK_INIT]
  | nothing hopen hstring hinit =>
    refine AccountStep.other ?_ hinit rfl rfl rfl
    rw [Association.records, hopen, Bool.false_or, Bool.eq_false_iff]
    intro hstr
    rw [Bool.and_eq_true] at hstr
    rw [hstring hstr.1] at hstr
    exact absurd hstr.2 (by simp)

/-- The account after some chunks. -/
theorem account_runChunks {cs : List Chunk} (h : runChunks a cs = .ok a') :
    a'.lastCompleteTsn = lastBehind a.lastCompleteTsn cs ∧
      (∀ t, t ∈ a'.tsns ↔ t ∈ a.tsns ∨ t ∈ a.recorded cs) ∧
      ∀ d ∈ a'.duplicateTsns, d ∈ a.duplicateTsns ∨ d ∈ a'.tsns := by
  induction cs generalizing a with
  | nil =>
    rw [← Except.ok.inj h]
    refine ⟨rfl, ?_, fun d hd => Or.inl hd⟩
    intro t
    simp [Association.recorded]
  | cons c cs ih =>
    rw [runChunks_cons] at h
    obtain ⟨a1, ha1, h⟩ := bind_eq_ok.mp h
    obtain ⟨hlast, htsns, hdups⟩ := accountStep_doChunk ha1
    obtain ⟨hlast', htsns', hdups'⟩ := ih h
    refine ⟨?_, ?_, ?_⟩
    · rw [hlast', hlast]
      rfl
    · intro t
      simp only [htsns', htsns, Association.recorded, ha1]
      split
      · rw [List.mem_cons, or_assoc]
      · split
        · next hinit => simp only [hinit, true_and, List.mem_cons, or_assoc]
        · next hinit => simp only [hinit, Bool.false_eq_true, false_and, or_false]
    · intro d hd
      rcases hdups' d hd with hd | hd
      · rcases hdups d hd with hd | hd
        · exact Or.inl hd
        · exact Or.inr ((htsns' d).mpr (Or.inl ((htsns d).mpr (Or.inl hd))))
      · exact Or.inr hd

/-! ## Packets -/

variable {msg : Bytes} {r : Reply}

/-- An association with the last complete TSN 5 and a data channel on stream 0. -/
def openAssociation : Association :=
  { Association.fresh 5000 5000 with
    lastCompleteTsn := 5
    streams := [(0, openStream [0x03])] }

/-- A DATA chunk with TSN 6 and a whole binary message on stream 0. -/
def binaryChunk : Bytes :=
  [CHNK_DATA, 3] ++ setBeUint16 20 ++ setBeUint32 6 ++ setBeUint16 0 ++ setBeUint16 0 ++
    setBeUint32 PPID_Binary ++ [0x61, 0x62, 0x63, 0x64]

end Anon.Sctp

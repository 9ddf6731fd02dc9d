import Anon.Sctp.AcknowledgementTheorems

/-!
# Decoding a SACK by its layout

A SACK is read back by the layout of its fields: the cumulative TSN, two counts, the gap blocks with
16-bit offsets, and the duplicate TSNs with 32 bits each.

* `decodeSack`: the fields of a SACK.
* `SackFits`: the offsets, the counts and the size fit, and every duplicate TSN is zero.
* `decodes_sendAcks_iff`: the SACK says what the association has on record exactly then.
-/

namespace Anon.Sctp

/-! ## The layout -/

/-- The fields of a SACK. -/
structure SackFields where
  cumulative : Tsn
  /-- The start and the end of each gap block, relative to `cumulative`. -/
  blocks : List (ℕ × ℕ)
  duplicates : List Tsn

/-- Entries of four bytes each, one behind the other. -/
def readEntries {α : Type} (read : ℕ → Option α) (offset : ℕ) : ℕ → Option (List α)
  | 0 => some []
  | n + 1 => do
    let entry ← read offset
    let entries ← readEntries read (offset + 4) n
    return entry :: entries

def readBlock (sack : Bytes) (offset : ℕ) : Option (ℕ × ℕ) := do
  let start ← getBeUint16 sack offset
  let last ← getBeUint16 sack (offset + 2)
  return (start, last)

def readTsn (sack : Bytes) (offset : ℕ) : Option Tsn :=
  (getBeUint32 sack offset).map (BitVec.ofNat 32)

/-- The fields of a chunk with the layout of a SACK, its length among them. -/
def decodeSack (sack : Bytes) : Option SackFields := do
  let len ← getBeUint16 sack 2
  let cumulative ← readTsn sack 4
  let n ← getBeUint16 sack 12
  let x ← getBeUint16 sack 14
  if len = kSackChunkHeaderSize + 4 * n + 4 * x then
    let blocks ← readEntries (readBlock sack) kSackChunkHeaderSize n
    let duplicates ← readEntries (readTsn sack) (kSackChunkHeaderSize + 4 * n) x
    return ⟨cumulative, blocks, duplicates⟩
  else none

/-- The TSN is in a gap block. -/
def SackFields.InGap (f : SackFields) (t : Tsn) : Prop :=
  ∃ b ∈ f.blocks, b.1 ≤ (t - f.cumulative).toNat ∧ (t - f.cumulative).toNat ≤ b.2

/-- The SACK says that these are the last complete TSN, the TSNs that are out of order and the
duplicate TSNs. -/
def Decodes (sack : Bytes) (last : Tsn) (tsns : TsnSet) (duplicates : List Tsn) : Prop :=
  ∃ f, decodeSack sack = some f ∧ f.cumulative = last ∧ (∀ t, f.InGap t ↔ t ∈ tsns) ∧
    f.duplicates = duplicates

/-- The fields of a SACK have room for what is out of order, and no duplicate TSN gets lost. -/
structure SackFits (a : Association) : Prop where
  /-- Each TSN that is out of order is near enough to the last complete one for a 16-bit offset. -/
  near : ∀ t ∈ a.moveLastComplete.tsns,
    (t - a.moveLastComplete.lastCompleteTsn).toNat < 2 ^ 16
  duplicates : ∀ t ∈ a.duplicateTsns, t = 0
  /-- The chunk has a 16-bit length, with four bytes for each range of TSNs and each duplicate. -/
  room : kSackChunkHeaderSize + 4 * rangeCount a.lastCompleteTsn a.tsns.val +
    4 * a.duplicateTsns.length < 2 ^ 16

variable {a : Association} {last t : Tsn} {ts : List Tsn}

/-! ## Reading entries -/

theorem readEntries_succ {α : Type} (read : ℕ → Option α) (offset n : ℕ) :
    readEntries read offset (n + 1) =
      read offset >>= fun entry => (readEntries read (offset + 4) n).map (entry :: ·) := by
  rw [readEntries]
  cases read offset with
  | none => rfl
  | some entry =>
    cases readEntries read (offset + 4) n with
    | none => rfl
    | some entries => rfl

/-- Entries that were written one behind the other are read back. -/
theorem readEntries_flatMap {α β : Type} {encode : α → Bytes} {value : α → β}
    {read : Bytes → ℕ → Option β} (hlength : ∀ x, (encode x).length = 4)
    (hread : ∀ front x post, read (front ++ (encode x ++ post)) front.length = some (value x))
    (l : List α) (front post : Bytes) :
    readEntries (read (front ++ (l.flatMap encode ++ post))) front.length l.length =
      some (l.map value) := by
  induction l generalizing front with
  | nil => rfl
  | cons x l ih =>
    have hnext : front.length + 4 = (front ++ encode x).length := by
      rw [List.length_append, hlength]
    have hrest := ih (front ++ encode x)
    rw [List.append_assoc, ← hnext] at hrest
    rw [List.length_cons, readEntries_succ, List.flatMap_cons, List.append_assoc, hread,
      Option.bind_eq_bind, Option.bind_some, hrest]
    rfl

theorem length_readEntries {α : Type} {read : ℕ → Option α} {offset n : ℕ} {entries : List α}
    (h : readEntries read offset n = some entries) : entries.length = n := by
  induction n generalizing offset entries with
  | zero =>
    rw [← Option.some.inj h]
    rfl
  | succ n ih =>
    rw [readEntries_succ] at h
    obtain ⟨entry, -, h⟩ := Option.bind_eq_some_iff.mp h
    obtain ⟨rest, hrest, rfl⟩ := Option.map_eq_some_iff.mp h
    rw [List.length_cons, ih hrest]

/-- Every entry was read somewhere. -/
theorem exists_read_of_mem {α : Type} {read : ℕ → Option α} {offset n : ℕ} {entries : List α}
    (h : readEntries read offset n = some entries) : ∀ e ∈ entries, ∃ i, read i = some e := by
  induction n generalizing offset entries with
  | zero =>
    intro e he
    rw [← Option.some.inj h] at he
    exact absurd he List.not_mem_nil
  | succ n ih =>
    intro e he
    rw [readEntries_succ] at h
    obtain ⟨entry, hentry, h⟩ := Option.bind_eq_some_iff.mp h
    obtain ⟨rest, hrest, rfl⟩ := Option.map_eq_some_iff.mp h
    rcases List.mem_cons.mp he with rfl | he
    · exact ⟨offset, hentry⟩
    · exact ih hrest e he

theorem getBeUint16_lt {msg : Bytes} {i v : ℕ} (h : getBeUint16 msg i = some v) : v < 2 ^ 16 := by
  obtain ⟨b0, -, h⟩ := Option.bind_eq_some_iff.mp h
  obtain ⟨b1, -, h⟩ := Option.bind_eq_some_iff.mp h
  have hv : b0.toNat * 2 ^ 8 + b1.toNat = v := Option.some.inj h
  have h0 := b0.toNat_lt
  have h1 := b1.toNat_lt
  omega

/-- The ends of a block that was read are 16-bit numbers. -/
theorem readBlock_lt {sack : Bytes} {i : ℕ} {b : ℕ × ℕ} (h : readBlock sack i = some b) :
    b.2 < 2 ^ 16 := by
  obtain ⟨s, -, h⟩ := Option.bind_eq_some_iff.mp h
  obtain ⟨e, he, h⟩ := Option.bind_eq_some_iff.mp h
  rw [← Option.some.inj h]
  exact getBeUint16_lt he

/-- A gap block reads as its offsets, truncated to 16 bits. -/
theorem readBlock_encodeBlock (front : Bytes) (b : Tsn × Tsn) (post : Bytes) :
    readBlock (front ++ (encodeBlock b ++ post)) front.length =
      some (b.1.toNat % 2 ^ 16, b.2.toNat % 2 ^ 16) := by
  have hstart : getBeUint16 (front ++ (encodeBlock b ++ post)) front.length =
      some (b.1.toNat % 2 ^ 16) := by
    rw [encodeBlock, List.append_assoc]
    exact (getBeUint16_append front _ 0).trans (getBeUint16_setBeUint16 _ _)
  have hlast : getBeUint16 (front ++ (encodeBlock b ++ post)) (front.length + 2) =
      some (b.2.toNat % 2 ^ 16) := by
    rw [getBeUint16_append, encodeBlock, List.append_assoc]
    exact (getBeUint16_append (setBeUint16 _) _ 0).trans (getBeUint16_setBeUint16 _ _)
  rw [readBlock, hstart, hlast]
  rfl

/-- A duplicate TSN reads as its lower half, in the place of the upper one. -/
theorem readTsn_encodeDuplicate (front : Bytes) (d : Tsn) (post : Bytes) :
    readTsn (front ++ (encodeDuplicate d ++ post)) front.length =
      some (BitVec.ofNat 32 (d.toNat % 2 ^ 16 * 2 ^ 16)) := by
  have hread := getBeUint32_append front (encodeDuplicate d ++ post) 0
  rw [getBeUint32_encodeDuplicate] at hread
  rw [readTsn]
  show (getBeUint32 _ (front.length + 0)).map _ = _
  rw [hread]
  rfl

/-- So only a zero is read back. -/
theorem shifted_eq_iff (d : Tsn) : BitVec.ofNat 32 (d.toNat % 2 ^ 16 * 2 ^ 16) = d ↔ d = 0 := by
  constructor
  · intro h
    have hnat := congrArg BitVec.toNat h
    rw [BitVec.toNat_ofNat] at hnat
    have hlt := d.isLt
    apply BitVec.eq_of_toNat_eq
    show d.toNat = 0
    omega
  · intro h
    rw [h]
    rfl

/-! ## The fields of a SACK that was emitted -/

/-- TSNs with different 16-bit offsets are not more than there are such offsets. -/
theorem length_le_of_fit (hfit : ∀ u ∈ ts, (u - last).toNat < 2 ^ 16) (hnodup : ts.Nodup) :
    ts.length ≤ 2 ^ 16 := by
  have hinj : (ts.map fun u => (u - last).toNat).Nodup := by
    apply List.Nodup.map_on _ hnodup
    intro u _ v _ heq
    bv_omega
  have hsub : (ts.map fun u => (u - last).toNat) ⊆ List.range (2 ^ 16) := by
    intro d hd
    obtain ⟨u, hu, rfl⟩ := List.mem_map.mp hd
    exact List.mem_range.mpr (hfit u hu)
  have hle := (hinj.subperm hsub).length_le
  rwa [List.length_map, List.length_range] at hle

section Emitted

variable (a : Association)

theorem sack_length : getBeUint16 a.sack 2 = some (a.sackSize % 2 ^ 16) := by
  obtain ⟨post, hsack⟩ : ∃ post, a.sack = [CHNK_SACK, 0] ++ (setBeUint16 a.sackSize ++ post) := by
    simp only [Association.sack, List.append_assoc]
    exact ⟨_, rfl⟩
  rw [hsack]
  exact (getBeUint16_append [CHNK_SACK, 0] _ 0).trans (getBeUint16_setBeUint16 _ post)

/-- The parts of a SACK chunk: 16 bytes of header, the gap blocks and the duplicates. -/
theorem exists_sackHeader : ∃ header : Bytes, header.length = kSackChunkHeaderSize ∧
    a.sack = header ++ (a.gapBlocks.flatMap encodeBlock ++
      a.duplicateTsns.flatMap encodeDuplicate) := by
  refine ⟨sackFront a ++ setBeUint16 a.gapBlocks.length ++ setBeUint16 a.duplicateTsns.length,
    rfl, ?_⟩
  rw [Association.sack, sackFront]
  simp only [List.append_assoc]

/-- The gap blocks of a SACK, if their count is right. -/
theorem readEntries_blocks : readEntries (readBlock a.sack) kSackChunkHeaderSize
    a.gapBlocks.length =
      some (a.gapBlocks.map fun b => (b.1.toNat % 2 ^ 16, b.2.toNat % 2 ^ 16)) := by
  obtain ⟨header, hlength, hsack⟩ := exists_sackHeader a
  rw [hsack, ← hlength]
  exact readEntries_flatMap (fun _ => rfl) readBlock_encodeBlock a.gapBlocks header _

/-- The duplicates of a SACK, if both counts are right. -/
theorem readEntries_duplicates : readEntries (readTsn a.sack)
    (kSackChunkHeaderSize + 4 * a.gapBlocks.length) a.duplicateTsns.length =
      some (a.duplicateTsns.map fun d => BitVec.ofNat 32 (d.toNat % 2 ^ 16 * 2 ^ 16)) := by
  obtain ⟨header, hlength, hsack⟩ := exists_sackHeader a
  have hblocks := length_flatMap_four (f := encodeBlock) (fun _ => rfl) a.gapBlocks
  have hfront : (header ++ a.gapBlocks.flatMap encodeBlock).length =
      kSackChunkHeaderSize + 4 * a.gapBlocks.length := by
    rw [List.length_append, hlength, hblocks]
    omega
  have hnil : a.sack = header ++ a.gapBlocks.flatMap encodeBlock ++
      (a.duplicateTsns.flatMap encodeDuplicate ++ []) := by
    rw [hsack, List.append_nil, List.append_assoc]
  rw [hnil, ← hfront]
  exact readEntries_flatMap (fun _ => rfl) readTsn_encodeDuplicate a.duplicateTsns _ []

theorem readTsn_cumulative : readTsn a.sack 4 = some a.lastCompleteTsn := by
  rw [readTsn, sack_cumulative]
  show some (BitVec.ofNat 32 a.lastCompleteTsn.toNat) = _
  rw [BitVec.ofNat_toNat, BitVec.setWidth_eq]

/-- The fields of a SACK whose size is a 16-bit number. -/
theorem decodeSack_sack (hroom : a.sackSize < 2 ^ 16) : decodeSack a.sack = some
    ⟨a.lastCompleteTsn, a.gapBlocks.map fun b => (b.1.toNat % 2 ^ 16, b.2.toNat % 2 ^ 16),
      a.duplicateTsns.map fun d => BitVec.ofNat 32 (d.toNat % 2 ^ 16 * 2 ^ 16)⟩ := by
  have hsize := hroom
  rw [Association.sackSize] at hroom
  have hlen : a.sackSize = kSackChunkHeaderSize + 4 * a.gapBlocks.length +
      4 * a.duplicateTsns.length := by
    rw [Association.sackSize]
    omega
  unfold decodeSack
  rw [sack_length, readTsn_cumulative, sack_blockCount, sack_duplicateCount,
    Nat.mod_eq_of_lt hsize, Nat.mod_eq_of_lt (by omega), Nat.mod_eq_of_lt (by omega)]
  simp only [Option.bind_eq_bind, Option.bind_some]
  rw [if_pos hlen, readEntries_blocks, readEntries_duplicates]
  rfl

/-- What is read from any SACK: the size and the counts modulo 2^16. -/
theorem decodeSack_eq_some {f : SackFields} (h : decodeSack a.sack = some f) :
    a.sackSize % 2 ^ 16 = kSackChunkHeaderSize + 4 * (a.gapBlocks.length % 2 ^ 16) +
      4 * (a.duplicateTsns.length % 2 ^ 16) ∧
    f.cumulative = a.lastCompleteTsn ∧
    f.blocks.length = a.gapBlocks.length % 2 ^ 16 ∧
    (∀ b ∈ f.blocks, b.2 < 2 ^ 16) ∧
    f.duplicates.length = a.duplicateTsns.length % 2 ^ 16 := by
  unfold decodeSack at h
  rw [sack_length, readTsn_cumulative, sack_blockCount, sack_duplicateCount] at h
  simp only [Option.bind_eq_bind, Option.bind_some] at h
  split at h
  · next hlen =>
    obtain ⟨blocks, hblocks, h⟩ := Option.bind_eq_some_iff.mp h
    obtain ⟨duplicates, hduplicates, h⟩ := Option.bind_eq_some_iff.mp h
    rw [← Option.some.inj h]
    refine ⟨hlen, rfl, length_readEntries hblocks, ?_, length_readEntries hduplicates⟩
    intro b hb
    obtain ⟨i, hi⟩ := exists_read_of_mem hblocks b hb
    exact readBlock_lt hi
  · exact absurd h (by simp)

end Emitted

/-- The TSNs in the gap blocks are those on record, if all of these are near. -/
theorem inGap_iff (hnear : ∀ t ∈ a.tsns, (t - a.lastCompleteTsn).toNat < 2 ^ 16)
    {f : SackFields} (hcumulative : f.cumulative = a.lastCompleteTsn)
    (hblocks : f.blocks = a.gapBlocks.map fun b => (b.1.toNat % 2 ^ 16, b.2.toNat % 2 ^ 16)) :
    f.InGap t ↔ t ∈ a.tsns := by
  have hcovered := covered_tsnBlocks hnear
  have hfit : ∀ b ∈ a.gapBlocks, (b.1.toNat % 2 ^ 16, b.2.toNat % 2 ^ 16) =
      (b.1.toNat, b.2.toNat) := by
    intro b hb
    obtain ⟨-, hfit1, hfit2⟩ := hcovered b hb
    rw [Nat.mod_eq_of_lt hfit1, Nat.mod_eq_of_lt hfit2]
  unfold SackFields.InGap
  rw [hcumulative, hblocks]
  constructor
  · rintro ⟨e, he, hle, hge⟩
    obtain ⟨b, hb, rfl⟩ := List.mem_map.mp he
    rw [hfit b hb] at hle hge
    obtain ⟨hcov, -⟩ := hcovered b hb
    obtain ⟨u, hu, hut⟩ := hcov (t - a.lastCompleteTsn).toNat hle hge
    have htu : t = u := by bv_omega
    rw [htu]
    exact hu
  · intro ht
    obtain ⟨b, hb, hle, hge⟩ := tsnBlocks_reaches hnear t ht
    refine ⟨_, List.mem_map_of_mem hb, ?_⟩
    rw [hfit b hb]
    exact ⟨hle, hge⟩

/-- The SACK of an association says what is on record exactly if it fits. -/
theorem decodes_sendAcks_iff (a : Association) :
    Decodes a.sendAcks.2.sack a.sendAcks.1.lastCompleteTsn a.sendAcks.1.tsns a.duplicateTsns ↔
      SackFits a := by
  obtain ⟨b, hb⟩ : ∃ b, b = a.moveLastComplete := ⟨_, rfl⟩
  have hdup : a.duplicateTsns = b.duplicateTsns := by
    rw [hb]
    rfl
  have hranges : b.gapBlocks.length = rangeCount a.lastCompleteTsn a.tsns.val := by
    rw [hb]
    exact length_tsnBlocks_advance a.lastCompleteTsn a.tsns.val
  show Decodes a.moveLastComplete.sack a.moveLastComplete.lastCompleteTsn
    a.moveLastComplete.tsns a.duplicateTsns ↔ _
  rw [← hb, hdup]
  constructor
  · rintro ⟨f, hf, hcumulative, hgaps, hduplicates⟩
    obtain ⟨hsize, -, hblocks, hends, hcount⟩ := decodeSack_eq_some b hf
    -- every TSN on record is in a block that was read
    have hnear : ∀ t ∈ b.tsns, (t - b.lastCompleteTsn).toNat < 2 ^ 16 := by
      intro t ht
      obtain ⟨e, he, -, hge⟩ := (hgaps t).mpr ht
      rw [hcumulative] at hge
      exact Nat.lt_of_le_of_lt hge (hends e he)
    have hlength : b.duplicateTsns.length < 2 ^ 16 := by
      rw [← hduplicates, hcount]
      exact Nat.mod_lt _ (by decide)
    have hgapLength : b.gapBlocks.length < 2 ^ 16 := by
      have hle := (length_tsnBlocks_le b.lastCompleteTsn b.tsns.val).trans
        (length_le_of_fit hnear (nodup_tsns b))
      apply Nat.lt_of_le_of_ne hle
      intro hfull
      have hfull : b.gapBlocks.length = 2 ^ 16 := hfull
      -- the count would read as zero, and no block as a block of the TSNs
      have hnone : f.blocks = [] := by
        apply List.eq_nil_of_length_eq_zero
        rw [hblocks, hfull, Nat.mod_self]
      have hsome : 0 < b.tsns.val.length := by
        have hcountLe := length_tsnBlocks_le b.lastCompleteTsn b.tsns.val
        have hpos : 0 < b.gapBlocks.length := by omega
        exact Nat.lt_of_lt_of_le hpos hcountLe
      obtain ⟨e, he, -⟩ := (hgaps b.tsns.val[0]).mpr (List.getElem_mem hsome)
      rw [hnone] at he
      exact absurd he List.not_mem_nil
    rw [Nat.mod_eq_of_lt hgapLength, Nat.mod_eq_of_lt hlength] at hsize
    have hroom : b.sackSize < 2 ^ 16 := by
      have hlt := Nat.mod_lt b.sackSize (by decide : 0 < 2 ^ 16)
      rw [Association.sackSize] at *
      omega
    have hread := decodeSack_sack b hroom
    rw [hf, Option.some.injEq] at hread
    rw [hread] at hduplicates
    constructor
    · rw [← hb]
      exact hnear
    · intro t ht
      rw [hdup] at ht
      have hall := List.map_inj_left.mp (hduplicates.trans (List.map_id _).symm) t ht
      exact (shifted_eq_iff t).mp hall
    · rw [← hranges, hdup]
      rw [Association.sackSize] at hroom
      omega
  · intro hfits
    have hnear := hfits.near
    have hzero := hfits.duplicates
    have hroom := hfits.room
    rw [← hb] at hnear
    rw [hdup] at hzero
    rw [← hranges, hdup] at hroom
    have hsize : b.sackSize < 2 ^ 16 := by
      rw [Association.sackSize]
      omega
    refine ⟨_, decodeSack_sack b hsize, rfl, fun t => inGap_iff hnear rfl rfl, ?_⟩
    show b.duplicateTsns.map _ = _
    rw [← List.map_id b.duplicateTsns, List.map_map]
    apply List.map_congr_left
    intro d hd
    exact (shifted_eq_iff d).mpr (hzero d hd)

/-- The TSN 7 is on record twice behind the last complete one. -/
def duplicateAssociation : Association :=
  { Association.fresh 5000 5000 with
    tsns := (∅ : TsnSet).insert 7
    duplicateTsns := [7]
    lastCompleteTsn := 5 }

/-- The duplicate 7 reads as 458752. -/
theorem duplicate_misread :
    (decodeSack duplicateAssociation.sendAcks.2.sack).map (·.duplicates) = some [458752] ∧
      ¬Decodes duplicateAssociation.sendAcks.2.sack
        duplicateAssociation.sendAcks.1.lastCompleteTsn duplicateAssociation.sendAcks.1.tsns
        duplicateAssociation.duplicateTsns := by
  have hread : (decodeSack duplicateAssociation.sendAcks.2.sack).map (·.duplicates) =
      some [458752] := by decide +kernel
  refine ⟨hread, ?_⟩
  rintro ⟨f, hf, -, -, hduplicates⟩
  rw [hf, Option.map_some, hduplicates, Option.some.injEq] at hread
  exact absurd hread (by decide)

end Anon.Sctp

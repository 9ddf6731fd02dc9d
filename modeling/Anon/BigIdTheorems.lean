import Anon.BigId
import Anon.Lib.FixedWidth

/-!
# The hexadecimal form keeps the identifiers and their order

* `hexByte_lt_iff`, `hexToI_hexDigit`: one byte.
* `before_iff`: `operator<` is the lexicographic order of the bytes.
* `hexStringId_eq_some_iff`: which strings are read as an identifier.
* `hex_form`: the hexadecimal form sorts as the identifiers do, and is read back.
* `readIds_writeLong`: so is a stream of identifiers.
-/

namespace Anon.Ids

open Epc (memcmp memcmp_lt_iff memcmp_eq_iff)
open Dispatcher (toLower)
open Webrtc (isSpace)

variable {n : ℕ} {id id' : Id n} {str : Bytes}

/-! ## Digits -/

/-- A digit of either case. -/
def IsHex (c : UInt8) : Prop := 48 ≤ c ∧ c ≤ 57 ∨ 97 ≤ c ∧ c ≤ 102 ∨ 65 ≤ c ∧ c ≤ 70

instance (c : UInt8) : Decidable (IsHex c) := inferInstanceAs (Decidable (_ ∨ _))

theorem hexDigit_lt_iff : ∀ k < 16, ∀ m < 16,
    (hexDigit (UInt8.ofNat k) < hexDigit (UInt8.ofNat m) ↔ k < m) ∧
      (hexDigit (UInt8.ofNat k) = hexDigit (UInt8.ofNat m) ↔ k = m) := by decide

theorem halves : ∀ b : UInt8, b >>> 4 = UInt8.ofNat (b.toNat / 16) ∧
    b &&& 15 = UInt8.ofNat (b.toNat % 16) := forall_uint8 (by decide +kernel)

/-- The form of a byte, digit by digit. -/
theorem hexByte_eq (b : UInt8) : hexByte b =
    [hexDigit (UInt8.ofNat (b.toNat / 16)), hexDigit (UInt8.ofNat (b.toNat % 16))] := by
  rw [hexByte, (halves b).1, (halves b).2]

theorem hexByte_lt_iff (a b : UInt8) : hexByte a < hexByte b ↔ a < b := by
  have ha : a.toNat < 256 := a.toNat_lt
  have hb : b.toNat < 256 := b.toNat_lt
  obtain ⟨hhigh, hsame⟩ := hexDigit_lt_iff (a.toNat / 16) (by omega) (b.toNat / 16) (by omega)
  obtain ⟨hlow, -⟩ := hexDigit_lt_iff (a.toNat % 16) (by omega) (b.toNat % 16) (by omega)
  rw [hexByte_eq, hexByte_eq, List.cons_lt_cons_iff, List.cons_lt_cons_iff, hhigh, hsame, hlow,
    UInt8.lt_iff_toNat_lt]
  simp only [List.lt_irrefl, and_false, or_false]
  omega

/-- A digit of either case, as a number. -/
theorem digit_of_isHex : ∀ c : UInt8, IsHex c →
    ∃ k < 16, hexToI c = UInt8.ofNat k ∧ toLower c = hexDigit (UInt8.ofNat k) :=
  forall_uint8 (by decide +kernel)

theorem nibbles_add : ∀ k < 16, ∀ m < 16,
    (UInt8.ofNat k <<< 4) + UInt8.ofNat m = UInt8.ofNat (16 * k + m) := by decide

/-- The digits of a byte, in either case, and no others. -/
theorem hexToI_eq_iff {c₀ c₁ : UInt8} (h₀ : IsHex c₀) (h₁ : IsHex c₁) (b : UInt8) :
    (hexToI c₀ <<< 4) + hexToI c₁ = b ↔ [toLower c₀, toLower c₁] = hexByte b := by
  obtain ⟨k, hk, hk', hk''⟩ := digit_of_isHex c₀ h₀
  obtain ⟨m, hm, hm', hm''⟩ := digit_of_isHex c₁ h₁
  have hb : b.toNat < 256 := b.toNat_lt
  have hhigh := (hexDigit_lt_iff k hk (b.toNat / 16) (by omega)).2
  have hlow := (hexDigit_lt_iff m hm (b.toNat % 16) (by omega)).2
  rw [hk', hm', nibbles_add k hk m hm, hk'', hm'', hexByte_eq, List.cons.injEq, List.cons.injEq,
    hhigh, hlow, ← UInt8.toNat_inj, UInt8.toNat_ofNat_of_lt' (by show 16 * k + m < 256; omega)]
  simp only [and_true]
  omega

theorem isHex_hexDigit : ∀ k < 16, IsHex (hexDigit (UInt8.ofNat k)) ∧
    toLower (hexDigit (UInt8.ofNat k)) = hexDigit (UInt8.ofNat k) := by decide

theorem isHex_hexByte (b : UInt8) : ∀ c ∈ hexByte b, IsHex c ∧ toLower c = c := by
  have hb : b.toNat < 256 := b.toNat_lt
  intro c hc
  rw [hexByte_eq] at hc
  rcases List.mem_cons.mp hc with rfl | hc
  · exact isHex_hexDigit (b.toNat / 16) (by omega)
  · rw [List.mem_singleton.mp hc]
    exact isHex_hexDigit (b.toNat % 16) (by omega)

/-! ## Strings -/

/-- `operator<` and the bytes. -/
theorem before_iff : id.before id' = true ↔ id.mBuf < id'.mBuf := by
  have hmap (bs cs : Bytes) : bs.map UInt8.toNat < cs.map UInt8.toNat ↔ bs < cs := by
    have hflat : ∀ s : Bytes, s.map UInt8.toNat = s.flatMap fun b => [b.toNat] :=
      fun s => List.map_eq_flatMap
    rw [hflat, hflat]
    apply flatMap_lt_flatMap_iff Nat.one_pos (fun _ => rfl)
    intro a b
    rw [List.cons_lt_cons_iff, UInt8.lt_iff_toNat_lt]
    simp
  unfold Id.before
  rw [decide_eq_true_eq, memcmp_lt_iff id.size.ge id'.size.ge,
    List.take_of_length_le id.size.le, List.take_of_length_le id'.size.le]
  exact hmap _ _

theorem same_iff : id.same id' = true ↔ id = id' := by
  have hinj : id.mBuf.map UInt8.toNat = id'.mBuf.map UInt8.toNat ↔ id.mBuf = id'.mBuf :=
    (List.map_injective_iff.mpr fun _ _ => UInt8.toNat_inj.mp).eq_iff
  unfold Id.same
  rw [decide_eq_true_eq, memcmp_eq_iff id.size.ge id'.size.ge,
    List.take_of_length_le id.size.le, List.take_of_length_le id'.size.le, hinj, Id.mk.injEq]

theorem cString_toAsciiHex (bs : Bytes) : cString (toAsciiHex bs) = bs.flatMap hexByte := by
  have hne (c : UInt8) (hc : c ∈ bs.flatMap hexByte) : decide (c ≠ 0) = true := by
    obtain ⟨b, -, hc⟩ := List.mem_flatMap.mp hc
    have hhex := (isHex_hexByte b c hc).1
    revert hhex
    rw [decide_eq_true_eq]
    rintro hhex rfl
    exact absurd hhex (by decide)
  rw [cString, toAsciiHex, List.takeWhile_append_of_pos hne]
  simp

theorem toHexString_eq (id : Id n) : toHexString id = id.mBuf.flatMap hexByte :=
  cString_toAsciiHex id.mBuf

theorem length_flatMap_hexByte (bs : Bytes) : (bs.flatMap hexByte).length = 2 * bs.length := by
  induction bs with
  | nil => rfl
  | cons b bs ih =>
    rw [List.flatMap_cons, List.length_append, ih, List.length_cons]
    show 2 + 2 * bs.length = _
    omega

/-- What stands behind the digits does not matter. -/
theorem readHex_eq_some_iff (id : Id n) {rest : Bytes} (hlen : str.length = 2 * n)
    (hhex : ∀ c ∈ str, IsHex c) :
    readHex n (str ++ rest) = some id ↔ str.map toLower = id.mBuf.flatMap hexByte := by
  induction n generalizing str with
  | zero =>
    obtain rfl := List.eq_nil_of_length_eq_zero hlen
    obtain ⟨bs, hbs⟩ := id
    obtain rfl := List.eq_nil_of_length_eq_zero hbs
    exact iff_of_true rfl rfl
  | succ n ih =>
    match str, hlen with
    | c₀ :: c₁ :: str, hlen =>
      obtain ⟨bs, hbs⟩ := id
      cases bs with
      | nil => exact absurd hbs (Nat.succ_ne_zero n).symm
      | cons b bs =>
        have hrest : ∀ c ∈ str, IsHex c := fun c hc =>
          hhex c (List.mem_cons_of_mem _ (List.mem_cons_of_mem _ hc))
        have hlen' : str.length = 2 * n := by
          simp only [List.length_cons] at hlen
          omega
        have hbyte := hexToI_eq_iff (hhex c₀ List.mem_cons_self)
          (hhex c₁ (List.mem_cons_of_mem _ List.mem_cons_self)) b
        have htail := ih ⟨bs, Nat.succ.inj hbs⟩ hlen' hrest
        have hsplit : (c₀ :: c₁ :: str).map toLower = (b :: bs).flatMap hexByte ↔
            [toLower c₀, toLower c₁] = hexByte b ∧ str.map toLower = bs.flatMap hexByte := by
          rw [hexByte_eq, List.flatMap_cons, hexByte_eq]
          simp [and_assoc]
        rw [hsplit, ← hbyte, ← htail, List.cons_append, List.cons_append, readHex,
          Option.map_eq_some_iff]
        constructor
        · rintro ⟨id, hid, hcons⟩
          have hcons' := Id.mk.inj hcons
          obtain ⟨rfl, rfl⟩ := List.cons.inj hcons'
          exact ⟨rfl, hid⟩
        · rintro ⟨rfl, hid⟩
          exact ⟨_, hid, rfl⟩

/-- The hexadecimal form of the identifier, in either case. -/
theorem hexStringId_eq_some_iff (hlen : str.length = 2 * n) (hhex : ∀ c ∈ str, IsHex c) :
    hexStringId n str = some id ↔ str.map toLower = toHexString id := by
  rw [toHexString_eq]
  exact readHex_eq_some_iff id hlen hhex

/-- Strings sort as the identifiers do, and a string of digits in either case is read as the
identifier that it is the form of. -/
theorem hex_form (id id' : Id n) : (toHexString id < toHexString id' ↔ id.before id' = true) ∧
    (toHexString id = toHexString id' ↔ id.same id' = true) ∧
    ∀ str : Bytes, str.length = 2 * n → (∀ c ∈ str, IsHex c) →
      (hexStringId n str = some id ↔ str.map toLower = toHexString id) := by
  have hlt : toHexString id < toHexString id' ↔ id.before id' = true := by
    rw [toHexString_eq, toHexString_eq, before_iff]
    exact flatMap_lt_flatMap_iff Nat.two_pos (fun _ => rfl) hexByte_lt_iff
  have hgt : toHexString id' < toHexString id ↔ id'.before id = true := by
    rw [toHexString_eq, toHexString_eq, before_iff]
    exact flatMap_lt_flatMap_iff Nat.two_pos (fun _ => rfl) hexByte_lt_iff
  refine ⟨hlt, ?_, fun str hlen hhex => hexStringId_eq_some_iff hlen hhex⟩
  rw [same_iff]
  constructor
  · intro h
    rw [h] at hlt hgt
    rw [before_iff] at hlt hgt
    have hbuf : id.mBuf = id'.mBuf := by
      rcases lt_trichotomy id.mBuf id'.mBuf with h | h | h
      · exact absurd (hlt.mpr h) (lt_irrefl _)
      · exact h
      · exact absurd (hgt.mpr h) (lt_irrefl _)
    exact Id.mk.injEq _ _ _ _ ▸ hbuf
  · rintro rfl
    rfl

/-! ## Streams -/

theorem not_isSpace_of_isHex : ∀ c : UInt8, IsHex c → isSpace c = false :=
  forall_uint8 (by decide +kernel)

/-- White space in front of a digit. -/
theorem readNib_append {ws rest : Bytes} {c : UInt8} (hws : ∀ w ∈ ws, isSpace w = true)
    (hc : IsHex c) : readNib (ws ++ c :: rest) = some (c, rest) := by
  have hdrop : (ws ++ c :: rest).dropWhile isSpace = c :: rest := by
    rw [List.dropWhile_append, List.dropWhile_eq_nil_iff.mpr hws]
    simp [not_isSpace_of_isHex c hc]
  rw [readNib, hdrop]

theorem readId_append (ws rest : Bytes) (hws : ∀ w ∈ ws, isSpace w = true) (id : Id n) :
    ∃ ws' : Bytes, (n = 0 → ws' = ws) ∧ (n ≠ 0 → ws' = []) ∧
      readId n (ws ++ id.mBuf.flatMap hexByte ++ rest) = some (id, ws' ++ rest) := by
  induction n generalizing ws with
  | zero =>
    obtain ⟨bs, hbs⟩ := id
    obtain rfl := List.eq_nil_of_length_eq_zero hbs
    exact ⟨ws, fun _ => rfl, fun h => absurd rfl h, by simp [readId]⟩
  | succ n ih =>
    obtain ⟨bs, hbs⟩ := id
    cases bs with
    | nil => exact absurd hbs (Nat.succ_ne_zero n).symm
    | cons b bs =>
      obtain ⟨hb₀, hl₀⟩ := isHex_hexByte b (hexDigit (b >>> 4)) List.mem_cons_self
      obtain ⟨hb₁, hl₁⟩ := isHex_hexByte b (hexDigit (b &&& 15))
        (List.mem_cons_of_mem _ List.mem_cons_self)
      have hbyte := (hexToI_eq_iff hb₀ hb₁ b).mpr (by rw [hl₀, hl₁]; rfl)
      obtain ⟨ws', hzero, hsucc, hread⟩ := ih [] (by simp) ⟨bs, Nat.succ.inj hbs⟩
      have hws' : ws' = [] := by
        by_cases hn : n = 0
        · exact hzero hn
        · exact hsucc hn
      rw [hws'] at hread
      refine ⟨[], fun h => absurd h (Nat.succ_ne_zero n), fun _ => rfl, ?_⟩
      have hsplit : ws ++ (b :: bs).flatMap hexByte ++ rest = ws ++ hexDigit (b >>> 4) ::
          ([] ++ hexDigit (b &&& 15) :: ([] ++ bs.flatMap hexByte ++ rest)) := by
        simp [hexByte]
      rw [hsplit, readId, readNib_append hws hb₀]
      simp only [Option.bind_eq_bind, Option.bind_some]
      rw [readNib_append (by simp) hb₁]
      simp only [Option.bind_some, hread, hbyte, Option.pure_def]
      rfl

/-- Identifiers that are written one after the other, with any white space in between, are read
back. -/
theorem readIds_writeLong (ids : List (Bytes × Id (n + 1))) (rest : Bytes)
    (hws : ∀ e ∈ ids, ∀ w ∈ e.1, isSpace w = true) :
    readIds (n + 1) ids.length
      (ids.foldl (fun str e => writeLong (str ++ e.1) e.2) [] ++ rest) =
      some (ids.map Prod.snd, rest) := by
  have hfold (str : Bytes) : ids.foldl (fun str e => writeLong (str ++ e.1) e.2) str =
      str ++ ids.flatMap fun e => e.1 ++ e.2.mBuf.flatMap hexByte := by
    induction ids generalizing str with
    | nil => simp
    | cons e ids ih =>
      rw [List.foldl_cons, ih fun e he => hws e (List.mem_cons_of_mem _ he), writeLong,
        cString_toAsciiHex]
      simp
  rw [hfold, List.nil_append]
  clear hfold
  induction ids with
  | nil => rfl
  | cons e ids ih =>
    have hrest := ih fun e he => hws e (List.mem_cons_of_mem _ he)
    obtain ⟨ws', -, hws', hread⟩ := readId_append e.1
      ((ids.flatMap fun e => e.1 ++ e.2.mBuf.flatMap hexByte) ++ rest)
      (hws e List.mem_cons_self) e.2
    rw [hws' (Nat.succ_ne_zero n), List.nil_append] at hread
    rw [List.flatMap_cons, List.append_assoc, List.length_cons, readIds, hread]
    simp only [Option.bind_eq_bind, Option.bind_some, hrest, Option.pure_def]
    rfl

/-- Two of them. -/
theorem readIds_writeLong_two :
    let id (b : UInt8) : Id 2 := ⟨[b, 255], rfl⟩
    readIds 2 2 (writeLong (writeLong [32] (id 10) ++ [10, 32]) (id 200)) =
      some ([id 10, id 200], []) := by
  intro id
  have hspaces : ∀ e ∈ [([32], id 10), ([10, 32], id 200)], ∀ w ∈ e.1, isSpace w = true := by
    simp [isSpace]
  have h := readIds_writeLong [([32], id 10), ([10, 32], id 200)] [] hspaces
  rw [List.append_nil] at h
  exact h

end Anon.Ids

import Anon.Http.Http2Theorems

/-!
# SETTINGS frames

`send_settings` formats a frame in a local array and writes as much of it as the frame takes. The
second `memcpy` of its loop copies four bytes from a variable of two, so two of them are whatever
stands behind the variable.

* `fill`: the loop, on an array whose contents are arbitrary at first.
* `decodeSettings`: the payload, as a peer reads it.
* `sendsSettings_iff`: when the peer reads what was to be sent.
-/

namespace Anon.Http

def kNumSettingsParams : ℕ := 6

structure Setting where
  identifier : UInt16
  value : UInt32
  deriving DecidableEq

/-- `memcpy(&buf[i], bs, …)` -/
def copyTo (buf : Bytes) (i : ℕ) (bs : Bytes) : Option Bytes :=
  if i + bs.length ≤ buf.length then some (writeAt buf i bs) else none

/-- What the loop copies for a setting, in two parts, where `behind` is what stands behind `netv16`
in memory. The second part is to be `netv32`. -/
def Setting.parts (behind : UInt8 × UInt8) (s : Setting) : Bytes × Bytes :=
  let netv16 := setBeUint16 s.identifier.toNat
  (netv16, netv16 ++ [behind.1, behind.2])

variable (behind : ℕ → UInt8 × UInt8)

/-- The loop of `send_settings` from index `i` on. -/
def fill (i : ℕ) : List Setting → Bytes → Option Bytes
  | [], buf => some buf
  | s :: settings, buf => do
    let (first, second) := s.parts (behind i)
    let buf ← copyTo buf (kFrameHeaderSize + i * 6 + 0) first
    let buf ← copyTo buf (kFrameHeaderSize + i * 6 + 2) second
    fill (i + 1) settings buf

/-- The array of `send_settings` when it is written to the pipe; `none` if a byte was written
outside it. -/
def sendSettings (buf : Bytes) (streamId : ℕ) (settings : List Setting) : Option Bytes := do
  let buf ← copyTo buf 0 (formatFrame (settings.length * 6) k_SETTINGS 0 streamId)
  fill behind 0 settings buf

/-- Consecutive identifiers of 16 bits and values of 32 bits. -/
def decodeSettings : Bytes → Option (List Setting)
  | [] => some []
  | i0 :: i1 :: v0 :: v1 :: v2 :: v3 :: rest => do
    let identifier ← getBeUint16 [i0, i1] 0
    let value ← getBeUint32 [v0, v1, v2, v3] 0
    let settings ← decodeSettings rest
    return ⟨UInt16.ofNat identifier, UInt32.ofNat value⟩ :: settings
  | _ => none

/-- The frame in the array says what its payload's length is and what the settings are, and the
array behind it is what it was. -/
structure SendsSettings (buf buf' : Bytes) (settings : List Setting) : Prop where
  length : frameSize buf' = 6 * settings.length
  payload : decodeSettings ((buf'.drop kFrameHeaderSize).take (6 * settings.length)) = some settings
  inside : buf'.drop (kFrameHeaderSize + 6 * settings.length) =
    buf.drop (kFrameHeaderSize + 6 * settings.length)

/-! ## The loop -/

variable {behind} {i : ℕ} {s : Setting} {settings : List Setting} {front rest : Bytes}

/-- The bytes of the settings from index `i` on. -/
def settingBytes (behind : ℕ → UInt8 × UInt8) (i : ℕ) : List Setting → Bytes
  | [] => []
  | s :: settings =>
    (s.parts (behind i)).1 ++ (s.parts (behind i)).2 ++ settingBytes behind (i + 1) settings

theorem length_settingBytes (behind : ℕ → UInt8 × UInt8) (i : ℕ) :
    (settingBytes behind i settings).length = 6 * settings.length := by
  induction settings generalizing i with
  | nil => rfl
  | cons s settings ih =>
    rw [settingBytes, List.length_append, ih, List.length_cons]
    show 6 + 6 * settings.length = _
    omega

/-- A copy to the first byte behind what is written. -/
theorem copyTo_append {bs : Bytes} (h : bs.length ≤ rest.length) (hi : i = front.length) :
    copyTo (front ++ rest) i bs = some (front ++ bs ++ rest.drop bs.length) := by
  rw [copyTo, if_pos (by rw [hi, List.length_append]; omega), writeAt, hi, List.take_left,
    List.drop_append, List.drop_eq_nil_of_le (by omega), List.nil_append, Nat.add_sub_cancel_left]

theorem fill_cons (buf : Bytes) : fill behind i (s :: settings) buf =
    (copyTo buf (kFrameHeaderSize + i * 6 + 0) (s.parts (behind i)).1).bind fun buf =>
      (copyTo buf (kFrameHeaderSize + i * 6 + 2) (s.parts (behind i)).2).bind fun buf =>
        fill behind (i + 1) settings buf := rfl

/-- The loop writes the settings behind what is written. -/
theorem fill_append (hfront : front.length = kFrameHeaderSize + i * 6)
    (hrest : 6 * settings.length ≤ rest.length) : fill behind i settings (front ++ rest) =
      some (front ++ settingBytes behind i settings ++ rest.drop (6 * settings.length)) := by
  induction settings generalizing i front rest with
  | nil => simp [fill, settingBytes]
  | cons s settings ih =>
    rw [List.length_cons] at hrest
    have hfirst : copyTo (front ++ rest) (kFrameHeaderSize + i * 6 + 0) (s.parts (behind i)).1 =
        some (front ++ (s.parts (behind i)).1 ++ rest.drop 2) :=
      copyTo_append (by show 2 ≤ rest.length; omega) hfront.symm
    have hsecond : copyTo (front ++ (s.parts (behind i)).1 ++ rest.drop 2)
        (kFrameHeaderSize + i * 6 + 2) (s.parts (behind i)).2 =
        some (front ++ (s.parts (behind i)).1 ++ (s.parts (behind i)).2 ++
          (rest.drop 2).drop 4) := by
      apply copyTo_append
      · show 4 ≤ (rest.drop 2).length
        rw [List.length_drop]
        omega
      · rw [List.length_append, hfront]
        rfl
    have hnext : fill behind (i + 1) settings (front ++ (s.parts (behind i)).1 ++
        (s.parts (behind i)).2 ++ (rest.drop 2).drop 4) =
        some (front ++ (s.parts (behind i)).1 ++ (s.parts (behind i)).2 ++
          settingBytes behind (i + 1) settings ++
          ((rest.drop 2).drop 4).drop (6 * settings.length)) := by
      apply ih
      · rw [List.length_append, List.length_append, hfront]
        show kFrameHeaderSize + i * 6 + 2 + 4 = kFrameHeaderSize + (i + 1) * 6
        omega
      · rw [List.length_drop, List.length_drop]
        omega
    rw [fill_cons, hfirst, Option.bind_some, hsecond, Option.bind_some, hnext, settingBytes,
      List.drop_drop, List.drop_drop, List.length_cons,
      show 2 + (4 + 6 * settings.length) = 6 * (settings.length + 1) by omega]
    simp only [List.append_assoc]

/-- What `send_settings` writes. -/
theorem sendSettings_eq {buf : Bytes} (streamId : ℕ)
    (hfit : kFrameHeaderSize + 6 * settings.length ≤ buf.length) :
    sendSettings behind buf streamId settings =
      some (formatFrame (settings.length * 6) k_SETTINGS 0 streamId ++
        settingBytes behind 0 settings ++ buf.drop (kFrameHeaderSize + 6 * settings.length)) := by
  have hheader : (formatFrame (settings.length * 6) k_SETTINGS 0 streamId).length =
    kFrameHeaderSize := rfl
  have hcopy : copyTo ([] ++ buf) 0 (formatFrame (settings.length * 6) k_SETTINGS 0 streamId) =
      some ([] ++ formatFrame (settings.length * 6) k_SETTINGS 0 streamId ++
        buf.drop kFrameHeaderSize) := copyTo_append (by rw [hheader]; omega) rfl
  have hfill : fill behind 0 settings (formatFrame (settings.length * 6) k_SETTINGS 0 streamId ++
      buf.drop kFrameHeaderSize) = some (formatFrame (settings.length * 6) k_SETTINGS 0 streamId ++
        settingBytes behind 0 settings ++
        (buf.drop kFrameHeaderSize).drop (6 * settings.length)) := by
    apply fill_append
    · rw [hheader]
      rfl
    · rw [List.length_drop]
      omega
  rw [List.nil_append, List.nil_append] at hcopy
  rw [List.drop_drop] at hfill
  show (copyTo buf 0 _).bind _ = _
  rw [hcopy, Option.bind_some, hfill]

/-! ## What the peer reads -/

/-- The value that a peer reads for a setting. -/
def Setting.read (behind : UInt8 × UInt8) (s : Setting) : Setting :=
  ⟨s.identifier, UInt32.ofNat (s.identifier.toNat * 2 ^ 16 + behind.1.toNat * 2 ^ 8 +
    behind.2.toNat)⟩

/-- The settings that a peer reads from index `i` on. -/
def readSettings (behind : ℕ → UInt8 × UInt8) (i : ℕ) : List Setting → List Setting
  | [] => []
  | s :: settings => s.read (behind i) :: readSettings behind (i + 1) settings

theorem decodeSettings_settingBytes :
    decodeSettings (settingBytes behind i settings) = some (readSettings behind i settings) := by
  induction settings generalizing i with
  | nil => rfl
  | cons s settings ih =>
    have hidentifier : getBeUint16 (setBeUint16 s.identifier.toNat ++ []) 0 =
        some s.identifier.toNat := by
      rw [getBeUint16_setBeUint16, Nat.mod_eq_of_lt s.identifier.toNat_lt]
    have hvalue : getBeUint32 (setBeUint16 s.identifier.toNat ++
        [(behind i).1, (behind i).2]) 0 = some (s.identifier.toNat * 2 ^ 16 +
          ((behind i).1.toNat * 2 ^ 8 + (behind i).2.toNat)) := by
      rw [getBeUint32, getBeUint16_setBeUint16, Nat.mod_eq_of_lt s.identifier.toNat_lt]
      rfl
    show ((getBeUint16 (setBeUint16 s.identifier.toNat ++ []) 0).bind fun identifier =>
      (getBeUint32 (setBeUint16 s.identifier.toNat ++ [(behind i).1, (behind i).2]) 0).bind
        fun value => (decodeSettings (settingBytes behind (i + 1) settings)).bind fun settings =>
          some (⟨UInt16.ofNat identifier, UInt32.ofNat value⟩ :: settings)) = _
    rw [hidentifier, Option.bind_some, hvalue, Option.bind_some, ih, Option.bind_some, readSettings,
      Setting.read, UInt16.ofNat_toNat, Nat.add_assoc]

/-- The peer reads a setting as it is if the two bytes are the lower half of its value. -/
theorem read_eq_iff (b : UInt8 × UInt8) (s : Setting) : s.read b = s ↔
    s.value.toNat = s.identifier.toNat * 2 ^ 16 + b.1.toNat * 2 ^ 8 + b.2.toNat := by
  have hidentifier := s.identifier.toNat_lt
  have hhigh := b.1.toNat_lt
  have hlow := b.2.toNat_lt
  have hval : (UInt32.ofNat (s.identifier.toNat * 2 ^ 16 + b.1.toNat * 2 ^ 8 +
      b.2.toNat)).toNat = s.identifier.toNat * 2 ^ 16 + b.1.toNat * 2 ^ 8 + b.2.toNat := by
    rw [UInt32.toNat_ofNat']
    omega
  constructor
  · intro h
    have hvalue := congrArg (fun s => s.value.toNat) h
    rw [← hvalue]
    exact hval
  · intro h
    have hvalue : UInt32.ofNat (s.identifier.toNat * 2 ^ 16 + b.1.toNat * 2 ^ 8 +
        b.2.toNat) = s.value := UInt32.toNat_inj.mp (hval.trans h.symm)
    rw [Setting.read, hvalue]

/-- All settings are read as they are if each of them is. -/
theorem readSettings_eq_iff : readSettings behind i settings = settings ↔
    ∀ (k : ℕ) (s : Setting), settings[k]? = some s → s.read (behind (i + k)) = s := by
  induction settings generalizing i with
  | nil =>
    apply iff_of_true rfl
    intro k s hk
    exact absurd hk (by simp)
  | cons s settings ih =>
    rw [readSettings, List.cons_eq_cons, ih]
    constructor
    · rintro ⟨hs, hrest⟩ k s' hk
      cases k with
      | zero =>
        have heq : s = s' := by simpa using hk
        rw [← heq]
        exact hs
      | succ k =>
        have hk := hrest k s' (by simpa using hk)
        rwa [show i + (k + 1) = i + 1 + k by omega]
    · intro h
      refine ⟨h 0 s rfl, ?_⟩
      intro k s' hk
      have hk := h (k + 1) s' (by simpa using hk)
      rwa [show i + (k + 1) = i + 1 + k by omega] at hk

/-- `send_settings` of settings that fit the array sends them if for each of them the identifier
and the two bytes behind `netv16` are the value. -/
theorem sendsSettings_iff (behind : ℕ → UInt8 × UInt8) {buf : Bytes} (streamId : ℕ)
    {settings : List Setting} (hbuf : buf.length = kFrameHeaderSize + kNumSettingsParams * 6)
    (hfit : settings.length ≤ kNumSettingsParams) :
    (∃ buf', sendSettings behind buf streamId settings = some buf' ∧
      SendsSettings buf buf' settings) ↔
    ∀ (i : ℕ) (s : Setting), settings[i]? = some s →
      s.value.toNat = s.identifier.toNat * 2 ^ 16 + (behind i).1.toNat * 2 ^ 8 +
        (behind i).2.toNat := by
  have hroom : kFrameHeaderSize + 6 * settings.length ≤ buf.length := by omega
  have hsize : settings.length * 6 < 2 ^ 24 := by
    rw [kNumSettingsParams] at hfit
    omega
  rw [sendSettings_eq streamId hroom]
  simp only [Option.some.injEq, exists_eq_left']
  have hlength : (formatFrame (settings.length * 6) k_SETTINGS 0 streamId ++
      settingBytes behind 0 settings).length = kFrameHeaderSize + 6 * settings.length := by
    rw [List.length_append, length_settingBytes]
    rfl
  have hpayload : (((formatFrame (settings.length * 6) k_SETTINGS 0 streamId ++
      settingBytes behind 0 settings ++
      buf.drop (kFrameHeaderSize + 6 * settings.length)).drop kFrameHeaderSize).take
        (6 * settings.length)) = settingBytes behind 0 settings := by
    rw [← length_settingBytes behind 0, List.append_assoc]
    exact List.take_left
  have hread : readSettings behind 0 settings = settings ↔
      ∀ (i : ℕ) (s : Setting), settings[i]? = some s →
        s.value.toNat = s.identifier.toNat * 2 ^ 16 + (behind i).1.toNat * 2 ^ 8 +
          (behind i).2.toNat := by
    rw [readSettings_eq_iff]
    simp only [read_eq_iff, Nat.zero_add]
  rw [← hread]
  constructor
  · intro h
    have hdecode := h.payload
    rw [hpayload, decodeSettings_settingBytes] at hdecode
    exact Option.some.inj hdecode
  · intro h
    refine ⟨?_, ?_, ?_⟩
    · rw [List.append_assoc, frameSize_formatFrame hsize, Nat.mul_comm]
    · rw [hpayload, decodeSettings_settingBytes, h]
    · rw [← hlength]
      exact List.drop_left

/-- INITIAL_WINDOW_SIZE is sent as it is if it is to be 0x40000 and zeros stand behind `netv16`. -/
theorem sendsSettings_window : ∃ buf', sendSettings (fun _ => (0, 0)) (List.replicate 45 0) 1
    [⟨4, 0x40000⟩] = some buf' ∧ SendsSettings (List.replicate 45 0) buf' [⟨4, 0x40000⟩] := by
  apply (sendsSettings_iff (fun _ => (0, 0)) 1 rfl (by decide)).mpr
  intro i s hs
  cases i with
  | zero =>
    rw [← Option.some.inj hs]
    rfl
  | succ i => exact absurd hs (by simp)

/-- ENABLE_PUSH is to be 0, and is sent as 0x20000 where zeros stand behind `netv16`. -/
theorem not_sendsSettings : sendSettings (fun _ => (0, 0)) (List.replicate 45 0) 1 [⟨2, 0⟩] =
      some ([0, 0, 6, 4, 0, 0, 0, 0, 1] ++ [0, 2, 0, 2, 0, 0] ++ List.replicate 30 0) ∧
    decodeSettings [0, 2, 0, 2, 0, 0] = some [⟨2, 0x20000⟩] ∧
    ¬∃ buf', sendSettings (fun _ => (0, 0)) (List.replicate 45 0) 1 [⟨2, 0⟩] = some buf' ∧
      SendsSettings (List.replicate 45 0) buf' [⟨2, 0⟩] := by
  have hsent : sendSettings (fun _ => (0, 0)) (List.replicate 45 0) 1 [⟨2, 0⟩] =
      some ([0, 0, 6, 4, 0, 0, 0, 0, 1] ++ [0, 2, 0, 2, 0, 0] ++ List.replicate 30 0) := by
    decide
  refine ⟨hsent, by decide, ?_⟩
  rintro ⟨buf', hbuf, h⟩
  rw [hsent] at hbuf
  have hpayload := h.payload
  rw [← Option.some.inj hbuf] at hpayload
  exact absurd hpayload (by decide)

end Anon.Http

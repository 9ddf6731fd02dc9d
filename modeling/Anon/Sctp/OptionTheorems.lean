import Anon.Sctp.Chunks

/-!
# The options of an INIT

The option loop of `do_chunk_init` looks at an option only if more than the four bytes of a header
are left, and steps over the padding of the last one without looking whether it is there. So it
does not see what stands in the last four bytes of a chunk.

* `IsOption`: a complete option of a type that `do_chunk_init` knows, with its padding.
* `EndsLoose`: behind complete options the chunk ends in something else that the loop overlooks.
* `checksOptions_iff`: what `do_chunk_init` accepts is a sequence of complete options, but for the
  chunks with such an end.
-/

namespace Anon.Sctp

/-! ## The grammar -/

/-- The type of the option is one that `do_chunk_init` knows. -/
def KnownType (o : Bytes) : Prop :=
  o[0]? = some OPT_FORWARD_TSN ∨ o[0]? = some OPT_SUPPORTED_EXTENSIONS_FIRST_BYTE ∧
    o[1]? = some OPT_SUPPORTED_EXTENSIONS_SECOND_BYTE

/-- A complete option, padded to a multiple of four bytes. -/
def IsOption (o : Bytes) : Prop :=
  KnownType o ∧ ∃ optLen, getBeUint16 o 2 = some optLen ∧ kSctpOptionHeaderSize ≤ optLen ∧
    o.length = round4 optLen

/-- The region is a sequence of complete options. -/
def Options (region : Bytes) : Prop :=
  ∃ os : List Bytes, (∀ o ∈ os, IsOption o) ∧ region = os.flatten

/-- The last one to four bytes are no option, or the padding of the last option is cut off. -/
def LooseEnd (tail : Bytes) : Prop :=
  (tail ≠ [] ∧ tail.length ≤ kSctpOptionHeaderSize ∧ ¬IsOption tail) ∨
    (kSctpOptionHeaderSize < tail.length ∧ KnownType tail ∧ ∃ optLen,
      getBeUint16 tail 2 = some optLen ∧ kSctpOptionHeaderSize ≤ optLen ∧
      optLen ≤ tail.length ∧ tail.length < round4 optLen)

/-- Behind complete options the region has a loose end. -/
def EndsLoose (region : Bytes) : Prop :=
  ∃ (os : List Bytes) (tail : Bytes), (∀ o ∈ os, IsOption o) ∧ region = os.flatten ++ tail ∧
    LooseEnd tail

/-- `do_chunk_init` accepts only sequences of complete options and rejects anything else. -/
structure ChecksOptions (a : Association) (initData : Bytes) : Prop where
  accepted : ∀ a', a.doChunkInit initData = .ok a' →
    Options (initData.drop kInitChunkHeaderSize)
  rejected : ¬Options (initData.drop kInitChunkHeaderSize) →
    ∃ a', a.doChunkInit initData = .error (.rejected a')

variable {a : Association} {front o rest region tail initData : Bytes}

/-! ## Options are self-delimiting -/

theorem knownType_append (h : 2 ≤ o.length) (rest : Bytes) :
    KnownType (o ++ rest) ↔ KnownType o := by
  unfold KnownType
  rw [List.getElem?_append_left (by omega), List.getElem?_append_left (by omega)]

/-- A field is read the same with something behind the buffer. -/
theorem getBeUint16_append_right {i : ℕ} (h : i + 2 ≤ o.length) (rest : Bytes) :
    getBeUint16 (o ++ rest) i = getBeUint16 o i := by
  unfold getBeUint16
  rw [List.getElem?_append_left (by omega), List.getElem?_append_left (by omega)]

theorem IsOption.four_le (h : IsOption o) : 4 ≤ o.length := by
  obtain ⟨-, optLen, -, hmin, hlength⟩ := h
  have hround := le_round4 optLen
  rw [kSctpOptionHeaderSize] at hmin
  omega

/-- The length field of an option says where it ends, whatever stands behind it. -/
theorem IsOption.getBeUint16 (h : IsOption o) (rest : Bytes) :
    ∃ optLen, getBeUint16 (o ++ rest) 2 = some optLen ∧ kSctpOptionHeaderSize ≤ optLen ∧
      o.length = round4 optLen := by
  have hfour := h.four_le
  obtain ⟨-, optLen, hlen, hmin, hlength⟩ := h
  refine ⟨optLen, ?_, hmin, hlength⟩
  rw [getBeUint16_append_right (by omega), hlen]

/-- Two options at the front of a region are one. -/
theorem IsOption.eq_of_append_eq {o' rest' : Bytes} (h : IsOption o) (h' : IsOption o')
    (heq : o ++ rest = o' ++ rest') : o = o' ∧ rest = rest' := by
  obtain ⟨optLen, hlen, -, hlength⟩ := h.getBeUint16 rest
  obtain ⟨optLen', hlen', -, hlength'⟩ := h'.getBeUint16 rest'
  rw [heq, hlen', Option.some.injEq] at hlen
  apply List.append_inj heq
  rw [hlength, hlength', hlen]

/-- A loose end does not begin with an option. -/
theorem LooseEnd.ne_append (h : LooseEnd tail) (ho : IsOption o) : tail ≠ o ++ rest := by
  intro heq
  have hfour := ho.four_le
  have hlengths : tail.length = o.length + rest.length := by
    rw [heq, List.length_append]
  rcases h with ⟨-, hshort, hno⟩ | ⟨-, -, optLen, hlen, -, -, hcut⟩
  · rw [kSctpOptionHeaderSize] at hshort
    have hrest : rest = [] := List.eq_nil_of_length_eq_zero (by omega)
    rw [hrest, List.append_nil] at heq
    exact hno (heq ▸ ho)
  · obtain ⟨optLen', hlen', -, hlength⟩ := ho.getBeUint16 rest
    rw [heq, hlen', Option.some.injEq] at hlen
    rw [hlen] at hlength
    omega

theorem LooseEnd.ne_nil (h : LooseEnd tail) : tail ≠ [] := by
  rcases h with ⟨hne, -, -⟩ | ⟨hlong, -, -⟩
  · exact hne
  · exact List.ne_nil_of_length_pos (by omega)

/-- A region with a loose end is no sequence of options. -/
theorem not_options_of_endsLoose (h : EndsLoose region) : ¬Options region := by
  obtain ⟨os, tail, hos, hregion, htail⟩ := h
  rintro ⟨os', hos', hregion'⟩
  rw [hregion'] at hregion
  clear hregion'
  induction os generalizing os' with
  | nil =>
    cases os' with
    | nil => exact htail.ne_nil hregion.symm
    | cons o' os' =>
      rw [List.flatten_cons, List.flatten_nil, List.nil_append] at hregion
      exact htail.ne_append (hos' o' List.mem_cons_self) hregion.symm
  | cons o os ih =>
    have ho := hos o List.mem_cons_self
    cases os' with
    | nil =>
      rw [List.flatten_nil, List.flatten_cons, List.append_assoc] at hregion
      have hnil := List.append_eq_nil_iff.mp hregion.symm
      have hfour := ho.four_le
      rw [hnil.1] at hfour
      exact absurd hfour (by decide)
    | cons o' os' =>
      rw [List.flatten_cons, List.flatten_cons, List.append_assoc] at hregion
      obtain ⟨-, hrest⟩ := (hos' o' List.mem_cons_self).eq_of_append_eq ho hregion
      exact ih (fun p hp => hos p (List.mem_cons_of_mem o hp)) os' hrest
        fun p hp => hos' p (List.mem_cons_of_mem o' hp)

/-! ## The loop -/

/-- With four bytes or less ahead the loop is at its end. -/
theorem initOptions_of_short (hshort : region.length ≤ kSctpOptionHeaderSize) :
    initOptions (front ++ region) front.length = some true := by
  rw [initOptions, if_neg]
  rw [List.length_append]
  omega

/-- With more ahead, it reads the header of an option. -/
theorem initOptions_of_long (front : Bytes) (hlong : kSctpOptionHeaderSize < region.length) :
    ∃ optLen, getBeUint16 region 2 = some optLen ∧
      (initOptions (front ++ region) front.length = some true ↔
        KnownType region ∧ kSctpOptionHeaderSize ≤ optLen ∧ optLen ≤ region.length ∧
          initOptions (front ++ region) (front.length + round4 optLen) = some true) := by
  rw [kSctpOptionHeaderSize] at hlong
  obtain ⟨optType, htype⟩ : ∃ v, region[0]? = some v :=
    ⟨_, List.getElem?_eq_getElem (by omega)⟩
  obtain ⟨optFlags, hflags⟩ : ∃ v, region[1]? = some v :=
    ⟨_, List.getElem?_eq_getElem (by omega)⟩
  obtain ⟨optLen, hlen⟩ : ∃ v, getBeUint16 region 2 = some v := ⟨_, getBeUint16_of_le (by omega)⟩
  have hget : ∀ i, (front ++ region)[front.length + i]? = region[i]? := by
    intro i
    rw [List.getElem?_append_right (by omega), Nat.add_sub_cancel_left]
  have hknown : KnownType region ↔ optType = OPT_FORWARD_TSN ∨
      (optType = OPT_SUPPORTED_EXTENSIONS_FIRST_BYTE ∧
        optFlags = OPT_SUPPORTED_EXTENSIONS_SECOND_BYTE) := by
    unfold KnownType
    rw [htype, hflags, Option.some.injEq, Option.some.injEq, Option.some.injEq]
  refine ⟨optLen, hlen, ?_⟩
  rw [hknown, initOptions, if_pos (by rw [List.length_append, kSctpOptionHeaderSize]; omega),
    hget 1, getBeUint16_append, hlen, hflags]
  have hzero : (front ++ region)[front.length]? = some optType := (hget 0).trans htype
  rw [hzero]
  simp only [Option.bind_eq_bind, Option.bind_some]
  by_cases hsmall : optLen < kSctpOptionHeaderSize
  · rw [dif_pos hsmall]
    simp only [Option.some.injEq, Bool.false_eq_true, false_iff]
    rintro ⟨-, hmin, -, -⟩
    omega
  · rw [dif_neg hsmall, List.length_append]
    by_cases hend : front.length + region.length < front.length + optLen
    · rw [if_pos hend]
      simp only [Option.some.injEq, Bool.false_eq_true, false_iff]
      rintro ⟨-, -, hle, -⟩
      omega
    · rw [if_neg hend]
      split
      · next hyes =>
        exact ⟨fun h => ⟨hyes, Nat.le_of_not_lt hsmall, by omega, h⟩, fun h => h.2.2.2⟩
      · next hno =>
        simp only [Option.some.injEq, Bool.false_eq_true, false_iff]
        rintro ⟨hyes, -⟩
        exact hno hyes

/-- The loop steps over a complete option if it looks at it. -/
theorem initOptions_option (ho : IsOption o) (hlong : kSctpOptionHeaderSize < (o ++ rest).length) :
    initOptions (front ++ (o ++ rest)) front.length = some true ↔
      initOptions (front ++ o ++ rest) (front ++ o).length = some true := by
  obtain ⟨optLen, hlen, hiff⟩ := initOptions_of_long front hlong
  obtain ⟨optLen', hlen', hmin, hlength⟩ := ho.getBeUint16 rest
  rw [hlen', Option.some.injEq] at hlen
  rw [hiff, ← hlen, ← hlength, ← List.length_append, ← List.append_assoc]
  have hround := le_round4 optLen'
  have hend : optLen' ≤ (o ++ rest).length := by
    rw [List.length_append]
    omega
  have hfour := ho.four_le
  have hknown : KnownType (o ++ rest) := (knownType_append (by omega) rest).mpr ho.1
  exact ⟨fun h => h.2.2.2, fun h => ⟨hknown, hmin, hend, h⟩⟩

/-- A loose end gets through. -/
theorem initOptions_looseEnd (h : LooseEnd tail) :
    initOptions (front ++ tail) front.length = some true := by
  rcases h with ⟨-, hshort, -⟩ | ⟨hlong, hknown, optLen, hlen, hmin, hend, hcut⟩
  · exact initOptions_of_short hshort
  · obtain ⟨optLen', hlen', hiff⟩ := initOptions_of_long front hlong
    rw [hlen, Option.some.injEq] at hlen'
    rw [hiff, ← hlen']
    refine ⟨hknown, hmin, hend, ?_⟩
    -- the padding that is missing takes the loop past the end
    rw [initOptions, if_neg]
    rw [List.length_append]
    omega

/-- So does one behind complete options. -/
theorem initOptions_endsLoose (front : Bytes) {os : List Bytes} (hos : ∀ o ∈ os, IsOption o)
    (htail : LooseEnd tail) :
    initOptions (front ++ (os.flatten ++ tail)) front.length = some true := by
  induction os generalizing front with
  | nil => exact initOptions_looseEnd htail
  | cons o os ih =>
    have ho := hos o List.mem_cons_self
    have hpos := List.length_pos_of_ne_nil htail.ne_nil
    have hfour := ho.four_le
    rw [List.flatten_cons, List.append_assoc, initOptions_option ho]
    · exact ih (front ++ o) fun p hp => hos p (List.mem_cons_of_mem o hp)
    · rw [List.length_append, List.length_append, kSctpOptionHeaderSize]
      omega

/-- What gets through is a sequence of options, or has a loose end. -/
theorem options_or_endsLoose (n : ℕ) : ∀ {front region : Bytes}, region.length < n →
    initOptions (front ++ region) front.length = some true →
      Options region ∨ EndsLoose region := by
  induction n with
  | zero =>
    intro front region hn
    exact absurd hn (Nat.not_lt_zero _)
  | succ n ih =>
    intro front region hn hthrough
    by_cases hshort : region.length ≤ kSctpOptionHeaderSize
    · by_cases hnil : region = []
      · left
        rw [hnil]
        exact ⟨[], fun o ho => absurd ho List.not_mem_nil, rfl⟩
      · by_cases hoption : IsOption region
        · left
          refine ⟨[region], fun o ho => ?_, List.flatten_singleton.symm⟩
          rw [List.mem_singleton.mp ho]
          exact hoption
        · right
          exact ⟨[], region, fun o ho => absurd ho List.not_mem_nil, rfl,
            .inl ⟨hnil, hshort, hoption⟩⟩
    · have hlong := Nat.lt_of_not_le hshort
      obtain ⟨optLen, hlen, hiff⟩ := initOptions_of_long front hlong
      obtain ⟨hknown, hmin, hend, hnext⟩ := hiff.mp hthrough
      by_cases hcut : region.length < round4 optLen
      · right
        exact ⟨[], region, fun o ho => absurd ho List.not_mem_nil, rfl,
          .inr ⟨hlong, hknown, optLen, hlen, hmin, hend, hcut⟩⟩
      · -- the option and what is behind it
        obtain ⟨o, rest, rfl, hlength⟩ : ∃ o rest, region = o ++ rest ∧
            o.length = round4 optLen := by
          refine ⟨region.take (round4 optLen), region.drop (round4 optLen),
            (List.take_append_drop _ _).symm, ?_⟩
          rw [List.length_take]
          omega
        have hround := le_round4 optLen
        rw [kSctpOptionHeaderSize] at hmin
        have ho : IsOption o := by
          refine ⟨(knownType_append (by omega) rest).mp hknown, optLen, ?_, hmin, hlength⟩
          rw [← getBeUint16_append_right (by omega) rest, hlen]
        rw [List.length_append] at hn
        rw [← List.append_assoc, ← hlength, ← List.length_append] at hnext
        rcases ih (by omega) hnext with ⟨os, hos, hrest⟩ | ⟨os, tail, hos, hrest, htail⟩
        · left
          refine ⟨o :: os, List.forall_mem_cons.mpr ⟨ho, hos⟩, ?_⟩
          rw [hrest, List.flatten_cons]
        · right
          refine ⟨o :: os, tail, List.forall_mem_cons.mpr ⟨ho, hos⟩, ?_, htail⟩
          rw [hrest, List.flatten_cons, List.append_assoc]

/-! ## The whole chunk -/

/-- An INIT that is long enough is accepted if the option loop gets through. -/
theorem doChunkInit_cases (hlong : kInitChunkHeaderSize ≤ initData.length) :
    (∃ a', a.doChunkInit initData = .ok a' ∧
      initOptions initData kInitChunkHeaderSize = some true) ∨
    ∃ a', a.doChunkInit initData = .error (.rejected a') ∧
      initOptions initData kInitChunkHeaderSize = some false := by
  obtain ⟨accepted, hopt⟩ :=
    Option.isSome_iff_exists.mp (isSome_initOptions initData kInitChunkHeaderSize)
  have hacc := acceptable_iff (c := ⟨CHNK_INIT, initData⟩) hlong hopt
  have heq := doChunkInit_eq (a := a) (c := ⟨CHNK_INIT, initData⟩) hlong
  rw [hacc] at heq
  cases accepted with
  | true => exact .inl ⟨_, heq, hopt⟩
  | false => exact .inr ⟨_, heq, hopt⟩

/-- The part of an INIT in front of its options. -/
theorem take_append_drop_init (hlong : kInitChunkHeaderSize ≤ initData.length) :
    ∃ front : Bytes, front.length = kInitChunkHeaderSize ∧
      initData = front ++ initData.drop kInitChunkHeaderSize := by
  refine ⟨initData.take kInitChunkHeaderSize, ?_, (List.take_append_drop _ _).symm⟩
  rw [List.length_take]
  omega

/-- An INIT whose options have a loose end is accepted. -/
theorem doChunkInit_of_endsLoose (h : EndsLoose (initData.drop kInitChunkHeaderSize)) :
    ∃ a', a.doChunkInit initData = .ok a' := by
  obtain ⟨os, tail, hos, hregion, htail⟩ := h
  have hlong : kInitChunkHeaderSize ≤ initData.length := by
    have hpos := List.length_pos_of_ne_nil htail.ne_nil
    have hlength := congrArg List.length hregion
    rw [List.length_drop, List.length_append] at hlength
    omega
  obtain ⟨front, hfront, hsplit⟩ := take_append_drop_init hlong
  rcases doChunkInit_cases (a := a) hlong with ⟨a', hok, -⟩ | ⟨a', -, hno⟩
  · exact ⟨a', hok⟩
  · have hthrough := initOptions_endsLoose front hos htail
    rw [← hregion, ← hsplit, hfront, hno] at hthrough
    exact absurd hthrough (by simp)

/-- `do_chunk_init` accepts exactly what it should, but for the chunks with a loose end. -/
theorem checksOptions_iff (a : Association) (initData : Bytes) :
    ChecksOptions a initData ↔ ¬EndsLoose (initData.drop kInitChunkHeaderSize) := by
  constructor
  · intro hchecks hloose
    obtain ⟨a', hok⟩ := doChunkInit_of_endsLoose (a := a) hloose
    exact not_options_of_endsLoose hloose (hchecks.accepted a' hok)
  · intro htight
    by_cases hlong : kInitChunkHeaderSize ≤ initData.length
    · obtain ⟨front, hfront, hsplit⟩ := take_append_drop_init hlong
      have hoptions : initOptions initData kInitChunkHeaderSize = some true →
          Options (initData.drop kInitChunkHeaderSize) := by
        intro hthrough
        rw [hsplit, ← hfront] at hthrough
        rcases options_or_endsLoose _ (Nat.lt_succ_self _) hthrough with hoptions | hloose
        · rw [hfront] at hoptions
          exact hoptions
        · rw [hfront] at hloose
          exact absurd hloose htight
      rcases doChunkInit_cases (a := a) hlong with ⟨a', hok, hthrough⟩ | ⟨a', hrej, -⟩
      · exact ⟨fun _ _ => hoptions hthrough, fun hno => absurd (hoptions hthrough) hno⟩
      · refine ⟨fun a'' hok => ?_, fun _ => ⟨a', hrej⟩⟩
        rw [hrej] at hok
        exact absurd hok (by simp)
    · have hrej : a.doChunkInit initData = .error (.rejected a) := by
        rw [Association.doChunkInit, if_pos (Nat.lt_of_not_le hlong)]
      refine ⟨fun a' hok => ?_, fun _ => ⟨a, hrej⟩⟩
      rw [hrej] at hok
      exact absurd hok (by simp)

/-- An INIT whose only option has an unknown type. -/
def unknownOptionInit : Bytes :=
  [CHNK_INIT, 0] ++ setBeUint16 24 ++ setBeUint32 1 ++ setBeUint32 65536 ++ setBeUint16 1 ++
    setBeUint16 1 ++ setBeUint32 1 ++ [0x55, 0] ++ setBeUint16 4

/-- The option is the last one and has no value, so it is overlooked. -/
theorem unknown_option_accepted :
    (∃ a', (Association.fresh 5000 5000).doChunkInit unknownOptionInit = .ok a') ∧
      ¬ChecksOptions (Association.fresh 5000 5000) unknownOptionInit := by
  have hoption : ¬IsOption [0x55, 0, 0, 4] := by
    rintro ⟨hknown, -⟩
    revert hknown
    unfold KnownType
    decide
  have hloose : EndsLoose (unknownOptionInit.drop kInitChunkHeaderSize) :=
    ⟨[], [0x55, 0, 0, 4], fun o ho => absurd ho List.not_mem_nil, rfl,
      .inl ⟨List.cons_ne_nil _ _, by decide, hoption⟩⟩
  obtain ⟨a', hok⟩ := doChunkInit_of_endsLoose (a := Association.fresh 5000 5000) hloose
  refine ⟨⟨a', hok⟩, fun hchecks => ?_⟩
  exact not_options_of_endsLoose hloose (hchecks.accepted a' hok)

end Anon.Sctp

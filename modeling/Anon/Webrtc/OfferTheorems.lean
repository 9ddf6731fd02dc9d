import Anon.Webrtc.Offer

/-!
# The credentials in an answer

Every `a=ice-ufrag` and every `a=ice-pwd` line of an offer is answered with an id that is drawn for
that line, and the last one of each kind is stored.

* `answerLine_cases`: what one line of the offer adds to the answer.
* `Answered`: the loop invariant, about the lines so far.
* `matchesStored_iff`: when all credential lines of the answer carry what is stored.
* `sameIds_iff_nodup`: ids that differ leave room for one line of each kind.
-/

namespace Anon.Webrtc

variable {d : WebrtcDispatch} {ids : ℕ → SmallId} {st st' : OfferState} {line rest : Bytes}

/-! ## Ids as text -/

/-- The value of a digit that `to_ascii_hex` writes. -/
def nibbleValue (c : UInt8) : UInt8 := if c < 97 then c - 48 else c - 87

/-- The digits of a byte give the byte back. -/
theorem nibbleValue_digits : ∀ b : UInt8,
    (nibbleValue (appendNibble (b >>> 4) 97) <<< 4) +
      nibbleValue (appendNibble (b &&& 15) 97) = b := by
  apply forall_uint8
  decide +kernel

theorem cr_notMem_asciiHex : ∀ b : UInt8, cr ∉ asciiHex b := by
  apply forall_uint8
  decide +kernel

theorem cr_notMem_appendSdpByte (s : Bool) : ∀ b : UInt8, cr ∉ appendSdpByte b s := by
  apply forall_uint8
  cases s with
  | false => decide +kernel
  | true => decide +kernel

theorem flatMap_asciiHex_inj : ∀ {xs ys : Bytes},
    xs.flatMap asciiHex = ys.flatMap asciiHex → xs = ys
  | [], [], _ => rfl
  | [], y :: ys, h => absurd h (by simp [asciiHex])
  | x :: xs, [], h => absurd h (by simp [asciiHex])
  | x :: xs, y :: ys, h => by
    rw [List.flatMap_cons, List.flatMap_cons] at h
    obtain ⟨hdigits, hrest⟩ := List.append_inj h rfl
    obtain ⟨hhigh, hlow⟩ := List.cons.inj hdigits
    have hbyte : x = y := by
      rw [← nibbleValue_digits x, hhigh, (List.cons.inj hlow).1, nibbleValue_digits y]
    rw [hbyte, flatMap_asciiHex_inj hrest]

/-- Different ids have different texts. -/
theorem toHexString_inj {x y : SmallId} : toHexString x = toHexString y ↔ x = y := by
  constructor
  · intro h
    apply Vector.toList_inj.mp
    exact flatMap_asciiHex_inj h
  · intro h
    rw [h]

theorem cr_notMem_toHexString (x : SmallId) : cr ∉ toHexString x := by
  intro h
  obtain ⟨b, -, hb⟩ := List.mem_flatMap.mp h
  exact cr_notMem_asciiHex b hb

/-! ## Credential lines -/

inductive Credential
  | ufrag
  | pwd
  deriving DecidableEq

namespace Credential

/-- What a line with the credential begins with. -/
def label : Credential → Bytes
  | .ufrag => ascii "a=ice-ufrag:"
  | .pwd => ascii "a=ice-pwd:"

/-- What is stored of it for our side. -/
def stored (conn : Connection) : Credential → Bytes
  | .ufrag => conn.localUfrag
  | .pwd => conn.localPwd

/-- The credential that a line of an offer has. -/
def ofLine (line : Bytes) : Option Credential :=
  if pwd.label <+: line then some .pwd
  else if ufrag.label <+: line then some .ufrag
  else none

end Credential

/-- The credentials in the lines of an offer, in the order in which the loop meets them. -/
def credentials (ls : List Bytes) : List Credential := ls.filterMap Credential.ofLine

/-- What the answer says for each of them. -/
def issued (ids : ℕ → SmallId) (ls : List Bytes) : List (Credential × Bytes) :=
  (credentials ls).zipIdx.map fun c => (c.1, toHexString (ids c.2))

/-- Each credential line of the answer carries what is stored. A STUN request with the user name
and the password that it gets from the answer is looked up and verified with that password. -/
structure MatchesStored (r : Reply) : Prop where
  carries : ∀ (k : Credential) v, k.label ++ v ∈ lines r.sdp → v = k.stored r.conn
  verified : ∀ env : Stun.StunEnv, env.lookup r.username = some r.res →
    env.parseFromString r.res = some r.conn.toConnection →
    ∀ u p, ascii "a=ice-ufrag:" ++ u ∈ lines r.sdp → ascii "a=ice-pwd:" ++ p ∈ lines r.sdp →
      ∃ conn, env.credentials (u ++ ascii ":" ++ r.conn.remoteUfrag) = some conn ∧
        conn.localPwd = p

/-- The ids drawn for the lines with one credential are all the same. -/
def SameIds (ids : ℕ → SmallId) (ls : List Bytes) : Prop :=
  ∀ (k : Credential) m n, (credentials ls)[m]? = some k → (credentials ls)[n]? = some k →
    ids m = ids n

theorem mem_issued {ls : List Bytes} {k : Credential} {v : Bytes} :
    (k, v) ∈ issued ids ls ↔ ∃ n, (credentials ls)[n]? = some k ∧ v = toHexString (ids n) := by
  rw [issued, List.mem_map]
  constructor
  · rintro ⟨⟨k', n⟩, hmem, heq⟩
    obtain ⟨rfl, rfl⟩ := Prod.mk.inj heq
    exact ⟨n, List.mem_zipIdx_iff_getElem?.mp hmem, rfl⟩
  · rintro ⟨n, hget, rfl⟩
    exact ⟨(k, n), List.mem_zipIdx_iff_getElem?.mpr hget, rfl⟩

theorem credentials_concat_some {ls : List Bytes} {k : Credential}
    (h : Credential.ofLine line = some k) : credentials (ls ++ [line]) = credentials ls ++ [k] := by
  simp [credentials, h]

theorem credentials_concat_none {ls : List Bytes} (h : Credential.ofLine line = none) :
    credentials (ls ++ [line]) = credentials ls := by
  simp [credentials, h]

/-- A further line with a credential has one more id issued. -/
theorem issued_concat {ls : List Bytes} {k : Credential} (h : Credential.ofLine line = some k) :
    issued ids (ls ++ [line]) =
      issued ids ls ++ [(k, toHexString (ids (credentials ls).length))] := by
  simp [issued, credentials_concat_some h, List.zipIdx_append]

/-! ## One line of the offer -/

/-- A line that is not a credential line. -/
def Plain (l : Bytes) : Prop := cr ∉ l ∧ ∀ k : Credential, ¬k.label <+: l

/-- What the loop may do with a line. -/
inductive LineStep (ids : ℕ → SmallId) (st : OfferState) (line : Bytes) (st' : OfferState) : Prop
  | issue (k : Credential) (kind : Credential.ofLine line = some k)
      (drawn : st'.drawn = st.drawn + 1)
      (written : st'.retSdp = st.retSdp ++ (k.label ++ toHexString (ids st.drawn) ++ crlf))
      (stored : k.stored st'.conn = toHexString (ids st.drawn))
      (others : ∀ k', k' ≠ k → k'.stored st'.conn = k'.stored st.conn)
  | copy (out : List Bytes) (kind : Credential.ofLine line = none)
      (drawn : st'.drawn = st.drawn)
      (written : st'.retSdp = st.retSdp ++ (out.map (· ++ crlf)).flatten)
      (plain : ∀ l ∈ out, Plain l)
      (stored : ∀ k : Credential, k.stored st'.conn = k.stored st.conn)

/-- A comparison that has matched has not looked behind the end of the line. -/
theorem prefix_lineStart_iff {needle : Bytes} (h : cr ∉ needle) (line rest : Bytes) :
    needle <+: line ++ crlf ++ rest ↔ needle <+: line := by
  rw [List.append_assoc]
  exact prefix_append_cons_iff h line (lf :: rest)

theorem cr_notMem_label (k : Credential) : cr ∉ k.label := by
  cases k with
  | ufrag => decide
  | pwd => decide

theorem label_append_inj {k k' : Credential} {v v' : Bytes} (h : k.label ++ v = k'.label ++ v') :
    k = k' ∧ v = v' := by
  -- the seventh character tells the two apart
  have hseventh := congrArg (·[6]?) h
  cases k with
  | ufrag =>
    cases k' with
    | ufrag => exact ⟨rfl, List.append_cancel_left h⟩
    | pwd => exact absurd hseventh (by simp [Credential.label, ascii])
  | pwd =>
    cases k' with
    | ufrag => exact absurd hseventh (by simp [Credential.label, ascii])
    | pwd => exact ⟨rfl, List.append_cancel_left h⟩

/-- A credential line passes the tests in front of the comparisons. -/
theorem tests_of_label {k : Credential} (h : k.label <+: line) (rest : Bytes) :
    (line.length > 1 ∧ (line ++ crlf ++ rest)[1]? = some 61) ∧
      (line ++ crlf ++ rest)[0]? = some 97 := by
  obtain ⟨v, rfl⟩ := h
  cases k with
  | ufrag => simp [Credential.label, ascii]
  | pwd => simp [Credential.label, ascii]

theorem ofLine_eq_none_iff :
    Credential.ofLine line = none ↔ ∀ k : Credential, ¬k.label <+: line := by
  unfold Credential.ofLine
  by_cases hpwd : Credential.pwd.label <+: line
  · rw [if_pos hpwd]
    exact ⟨fun h => absurd h (by simp), fun h => absurd hpwd (h .pwd)⟩
  · rw [if_neg hpwd]
    by_cases hufrag : Credential.ufrag.label <+: line
    · rw [if_pos hufrag]
      exact ⟨fun h => absurd h (by simp), fun h => absurd hufrag (h .ufrag)⟩
    · rw [if_neg hufrag]
      refine ⟨fun _ k => ?_, fun _ => rfl⟩
      cases k with
      | ufrag => exact hufrag
      | pwd => exact hpwd

/-- A line that is not a credential line, answered with one that is none either. -/
theorem LineStep.copyLine {l : Bytes} (kind : Credential.ofLine line = none)
    (drawn : st'.drawn = st.drawn) (written : st'.retSdp = st.retSdp ++ (l ++ crlf))
    (plain : Plain l) (ufrag : st'.localUfrag = st.localUfrag) (pwd : st'.localPwd = st.localPwd) :
    LineStep ids st line st' := by
  apply LineStep.copy [l] kind drawn
  · rw [written]
    simp
  · intro l' hl'
    rw [List.mem_singleton.mp hl']
    exact plain
  · intro k
    cases k with
    | ufrag => exact ufrag
    | pwd => exact pwd

/-- The fixed lines of the answer are not credential lines. -/
theorem plain_setup : Plain (ascii "a=setup:passive") := by
  refine ⟨by decide, fun k => ?_⟩
  cases k with
  | ufrag => decide
  | pwd => decide

theorem plain_sctpPort : Plain (ascii "a=sctp-port:" ++ ascii (toString localSctpPort)) := by
  refine ⟨by decide, fun k => ?_⟩
  cases k with
  | ufrag => decide
  | pwd => decide

/-- A line is not a credential line if its third character is none of theirs. -/
theorem plain_of_third {l : Bytes} (hcr : cr ∉ l) (h : l[2]? ≠ some 105) : Plain l := by
  refine ⟨hcr, fun k hk => ?_⟩
  obtain ⟨v, rfl⟩ := hk
  cases k with
  | ufrag => simp [Credential.label, ascii] at h
  | pwd => simp [Credential.label, ascii] at h

theorem plain_fingerprintLine (d : WebrtcDispatch) : Plain d.fingerprintLine := by
  apply plain_of_third
  · intro h
    rcases List.mem_append.mp h with h | h
    · revert h
      decide
    · obtain ⟨b, -, hb⟩ := List.mem_flatMap.mp h
      exact cr_notMem_appendSdpByte _ b.1 hb
  · simp [WebrtcDispatch.fingerprintLine, ascii]

theorem cr_notMem_toString (n : ℕ) : cr ∉ ascii (toString n) := by
  intro h
  exact absurd (digit_of_mem_toString h) (by decide)

theorem plain_candidateLine (d : WebrtcDispatch) : Plain d.candidateLine := by
  apply plain_of_third
  · unfold WebrtcDispatch.candidateLine
    simp only [List.mem_append, not_or]
    exact ⟨⟨⟨⟨by decide, d.servingIpAddr_line⟩, by decide⟩, cr_notMem_toString _⟩, by decide⟩
  · simp [WebrtcDispatch.candidateLine, ascii]

/-- One line of the offer. -/
theorem answerLine_cases (d : WebrtcDispatch) (ids : ℕ → SmallId) (st : OfferState)
    (hline : cr ∉ line) (rest : Bytes) :
    LineStep ids st line (answerLine d ids st line rest) := by
  have hpwd : Credential.pwd.label <+: line ++ crlf ++ rest ↔ Credential.pwd.label <+: line :=
    prefix_lineStart_iff (cr_notMem_label _) line rest
  have hufrag :
      Credential.ufrag.label <+: line ++ crlf ++ rest ↔ Credential.ufrag.label <+: line :=
    prefix_lineStart_iff (cr_notMem_label _) line rest
  unfold answerLine
  simp only
  split
  · split
    · split
      · next h =>
        apply LineStep.issue .pwd (if_pos (hpwd.mp h)) rfl rfl rfl
        intro k' hk'
        cases k' with
        | ufrag => rfl
        | pwd => exact absurd rfl hk'
      · next hnpwd =>
        have hnpwd : ¬Credential.pwd.label <+: line := fun h => hnpwd (hpwd.mpr h)
        split
        · next h =>
          have hkind : Credential.ofLine line = some .ufrag := by
            rw [Credential.ofLine, if_neg hnpwd, if_pos (hufrag.mp h)]
          apply LineStep.issue .ufrag hkind rfl rfl rfl
          intro k' hk'
          cases k' with
          | ufrag => exact absurd rfl hk'
          | pwd => rfl
        · next hnufrag =>
          have hnufrag : ¬Credential.ufrag.label <+: line := fun h => hnufrag (hufrag.mpr h)
          have hkind : Credential.ofLine line = none := by
            rw [Credential.ofLine, if_neg hnpwd, if_neg hnufrag]
          split
          · exact .copyLine hkind rfl rfl plain_setup rfl rfl
          · split
            · exact .copyLine hkind rfl rfl plain_sctpPort rfl rfl
            · split
              · exact .copyLine hkind rfl rfl (plain_fingerprintLine d) rfl rfl
              · exact .copyLine hkind rfl rfl ⟨hline, ofLine_eq_none_iff.mp hkind⟩ rfl rfl
    · next ha =>
      -- a line of another kind is copied
      have hnone : ∀ k : Credential, ¬k.label <+: line := fun k hk => ha (tests_of_label hk rest).2
      exact .copyLine (ofLine_eq_none_iff.mpr hnone) rfl rfl ⟨hline, hnone⟩ rfl rfl
  · next htests =>
    -- and one that is not of the form `x=` is left out
    have hnone : ∀ k : Credential, ¬k.label <+: line :=
      fun k hk => htests (tests_of_label hk rest).1
    exact .copy [] (ofLine_eq_none_iff.mpr hnone) rfl (List.append_nil _).symm
      (fun l hl => absurd hl List.not_mem_nil) fun _ => rfl

/-! ## The loop -/

/-- The answer so far is a sequence of lines, its credential lines are the ones that were issued,
and what is stored of a credential was issued for one of its lines. -/
structure Answered (ids : ℕ → SmallId) (ls : List Bytes) (st : OfferState) : Prop where
  drawn : st.drawn = (credentials ls).length
  written : ∃ out : List Bytes, (∀ l ∈ out, cr ∉ l) ∧ st.retSdp = (out.map (· ++ crlf)).flatten ∧
    ∀ (k : Credential) v, k.label ++ v ∈ out ↔ (k, v) ∈ issued ids ls
  stored : ∀ (k : Credential) v, (k, v) ∈ issued ids ls → (k, k.stored st.conn) ∈ issued ids ls

theorem answered_init : Answered ids [] {} where
  drawn := rfl
  written := ⟨[], fun _ hl => absurd hl List.not_mem_nil, rfl,
    fun _ _ => ⟨fun h => absurd h List.not_mem_nil, fun h => absurd h List.not_mem_nil⟩⟩
  stored _ _ h := absurd h List.not_mem_nil

/-- Each line of the offer keeps the invariant. -/
theorem Answered.step {ls : List Bytes} (h : Answered ids ls st)
    (hstep : LineStep ids st line st') : Answered ids (ls ++ [line]) st' := by
  obtain ⟨out, hcr, hretSdp, hout⟩ := h.written
  cases hstep with
  | issue k kind drawn written stored others =>
    have hissued : issued ids (ls ++ [line]) =
        issued ids ls ++ [(k, toHexString (ids st.drawn))] := by
      rw [issued_concat kind, h.drawn]
    refine ⟨?_, ⟨out ++ [k.label ++ toHexString (ids st.drawn)], ?_, ?_, ?_⟩, ?_⟩
    · rw [drawn, credentials_concat_some kind, h.drawn, List.length_append]
      rfl
    · intro l hl
      rcases List.mem_append.mp hl with hl | hl
      · exact hcr l hl
      · rw [List.mem_singleton.mp hl, List.mem_append, not_or]
        exact ⟨cr_notMem_label k, cr_notMem_toHexString _⟩
    · rw [written, hretSdp]
      simp
    · intro k' v
      rw [hissued, List.mem_append, List.mem_append, hout, List.mem_singleton, List.mem_singleton]
      apply or_congr_right
      constructor
      · intro heq
        obtain ⟨hk, hv⟩ := label_append_inj heq
        rw [hk, hv]
      · intro heq
        obtain ⟨hk, hv⟩ := Prod.mk.inj heq
        rw [hk, hv]
    · intro k' v hmem
      rw [hissued]
      by_cases hk : k' = k
      · rw [hk, stored]
        exact List.mem_append_right _ List.mem_cons_self
      · -- the other credential was issued before
        rw [hissued, List.mem_append, List.mem_singleton] at hmem
        rw [others k' hk]
        rcases hmem with hmem | heq
        · exact List.mem_append_left _ (h.stored k' v hmem)
        · exact absurd (Prod.mk.inj heq).1 hk
  | copy more kind drawn written plain stored =>
    have hissued : issued ids (ls ++ [line]) = issued ids ls := by
      rw [issued, credentials_concat_none kind, issued]
    refine ⟨?_, ⟨out ++ more, ?_, ?_, ?_⟩, ?_⟩
    · rw [drawn, credentials_concat_none kind, h.drawn]
    · intro l hl
      rcases List.mem_append.mp hl with hl | hl
      · exact hcr l hl
      · exact (plain l hl).1
    · rw [written, hretSdp, List.map_append, List.flatten_append]
    · intro k v
      rw [hissued, List.mem_append, hout]
      refine or_iff_left fun hmore => ?_
      exact (plain _ hmore).2 k (List.prefix_append _ _)
    · intro k v hmem
      rw [hissued] at hmem ⊢
      rw [stored]
      exact h.stored k v hmem

/-- A line is cut off at its end. -/
theorem splitLine_eq_some {p : Bytes × Bytes} (h : splitLine rest = some p) :
    rest = p.1 ++ crlf ++ p.2 ∧ cr ∉ p.1 := by
  unfold splitLine at h
  split at h
  · exact absurd h (by simp)
  · next lineEnd hchr =>
    obtain ⟨front, back, rfl, hlength, hcr, -⟩ := exists_of_strchr hchr
    split at h
    · exact absurd h (by simp)
    · next hend =>
      have hlf : (front ++ cr :: back)[lineEnd + 1]? = some lf :=
        not_not.mp fun hlf => hend (.inr hlf)
      obtain ⟨back, rfl⟩ : ∃ back', back = lf :: back' := by
        rw [← hlength, List.getElem?_append_right (by omega)] at hlf
        cases back with
        | nil => simp at hlf
        | cons c back =>
          simp at hlf
          exact ⟨back, by rw [hlf]⟩
      rw [← Option.some.inj h, ← hlength]
      refine ⟨?_, ?_⟩
      · simp [crlf, List.drop_append]
      · simpa using hcr

/-- The line at the front of a text. -/
theorem splitLine_line (hcr : cr ∉ line) (h0 : 0 ∉ line) (rest : Bytes) :
    splitLine (line ++ crlf ++ rest) = some (line, rest) := by
  have hchr : strchr (line ++ crlf ++ rest) cr = some line.length := by
    rw [List.append_assoc]
    exact strchr_append_cons (by decide) hcr h0 (lf :: rest)
  have hend : ¬(line.length = (line ++ crlf ++ rest).length - 1 ∨
      (line ++ crlf ++ rest)[line.length + 1]? ≠ some lf) := by
    simp [crlf]
  unfold splitLine
  rw [hchr]
  simp only [if_neg hend]
  simp [crlf]

/-- The loop reads the lines of the offer one after the other. -/
theorem answered_answerLines {ls : List Bytes} (h : Answered ids ls st)
    (hloop : answerLines d ids st rest = .ok st') : Answered ids (ls ++ lines rest) st' := by
  induction st, rest using answerLines.induct d ids generalizing ls with
  | case1 st =>
    rw [answerLines, if_pos rfl] at hloop
    rw [← Except.ok.inj hloop]
    show Answered ids (ls ++ []) st
    rw [List.append_nil]
    exact h
  | case2 st text hne hsplit =>
    rw [answerLines, if_neg hne] at hloop
    split at hloop
    · exact absurd hloop (by simp)
    · next p hp =>
      rw [hsplit] at hp
      exact absurd hp (by simp)
  | case3 st text hne p hsplit ih =>
    obtain ⟨htext, hcr⟩ := splitLine_eq_some hsplit
    rw [answerLines, if_neg hne] at hloop
    split at hloop
    · exact absurd hloop (by simp)
    · next p' hp =>
      rw [hsplit, Option.some.injEq] at hp
      subst hp
      have hnext := ih (h.step (answerLine_cases d ids st hcr p.2)) hloop
      rw [htext, lines_line hcr]
      rwa [List.append_assoc] at hnext

/-! ## Offers line by line -/

/-- An offer with the given lines. -/
def offerOf (ls : List Bytes) : Json :=
  .object [(ascii "type", .string (ascii "offer")),
    (ascii "sdp", .string (ls.map (· ++ crlf)).flatten)]

/-- The state of the loop after the given lines. -/
def answerAll (d : WebrtcDispatch) (ids : ℕ → SmallId) (st : OfferState) : List Bytes → OfferState
  | [] => st
  | l :: ls => answerAll d ids (answerLine d ids st l (ls.map (· ++ crlf)).flatten) ls

theorem answerLines_flatten {ls : List Bytes} (h : ∀ l ∈ ls, cr ∉ l ∧ 0 ∉ l) (st : OfferState) :
    answerLines d ids st (ls.map (· ++ crlf)).flatten = .ok (answerAll d ids st ls) := by
  induction ls generalizing st with
  | nil =>
    show answerLines d ids st [] = _
    rw [answerLines, if_pos rfl]
    rfl
  | cons l ls ih =>
    obtain ⟨hcr, h0⟩ := h l List.mem_cons_self
    have hne : l ++ crlf ++ (ls.map (· ++ crlf)).flatten ≠ [] := by simp [crlf]
    rw [List.map_cons, List.flatten_cons, answerLines, if_neg hne]
    split
    · next hnone =>
      rw [splitLine_line hcr h0] at hnone
      exact absurd hnone (by simp)
    · next p hp =>
      rw [splitLine_line hcr h0, Option.some.injEq] at hp
      rw [← hp]
      exact ih (fun l' hl' => h l' (List.mem_cons_of_mem l hl')) _

/-- An offer is accepted if both credentials and a fingerprint were found in its lines. -/
theorem parseOffer_offerOf {ls : List Bytes} (h : ∀ l ∈ ls, cr ∉ l ∧ 0 ∉ l)
    (hst : answerAll d ids {} ls = st) (hpwd : st.localPwd ≠ []) (hufrag : st.localUfrag ≠ [])
    (hret : st.retSdp ≠ []) (hdigest : st.remoteX509Digest ≠ []) :
    parseOffer d ids (offerOf ls) = .ok (st.reply d) := by
  have hcomplete : ¬(st.localPwd = [] ∨ st.localUfrag = [] ∨ st.retSdp = [] ∨
      st.remoteX509Digest = []) := by
    simp only [not_or]
    exact ⟨hpwd, hufrag, hret, hdigest⟩
  have hsdp : sdpOf (offerOf ls) = some (ls.map (· ++ crlf)).flatten := rfl
  have htype : checkType (offerOf ls) = .ok () := by
    unfold checkType
    exact failIf_eq_ok.mpr (not_not.mpr rfl)
  unfold parseOffer
  rw [htype, ok_bind, hsdp]
  simp only
  rw [answerLines_flatten h, ok_bind, hst, failIf, if_neg hcomplete]
  rfl

/-- A dispatcher, and ids that are all different for the first 256 calls. -/
def localDispatch : WebrtcDispatch where
  portNum := 5000
  sha256Digest := []
  servingIpAddr := ascii "127.0.0.1"
  servingIpAddr_line := by decide
  serializeAsString _ := []

def countedIds (n : ℕ) : SmallId := Vector.replicate 20 (UInt8.ofNat n)

/-- The lines of an offer with one media section. -/
def oneSection : List Bytes :=
  [ascii "m=audio", ascii "a=ice-ufrag:x", ascii "a=ice-pwd:y",
    ascii "a=fingerprint:sha-256 01:02"]

/-! ## The answer -/

variable {offer : Json} {r : Reply}

/-- An accepted offer has a text, and the loop gets to its end. -/
theorem parseOffer_eq_ok (h : parseOffer d ids offer = .ok r) :
    ∃ sdp st, sdpOf offer = some sdp ∧ answerLines d ids {} sdp = .ok st ∧ r = st.reply d := by
  unfold parseOffer at h
  obtain ⟨-, -, h⟩ := bind_eq_ok.mp h
  split at h
  · exact absurd h (by simp)
  · next sdp hsdp =>
    obtain ⟨st, hloop, h⟩ := bind_eq_ok.mp h
    obtain ⟨-, -, h⟩ := bind_eq_ok.mp h
    exact ⟨sdp, st, hsdp, hloop, (Except.ok.inj h).symm⟩

/-- The credential lines of the answer are the ones that were issued. -/
theorem Answered.mem_lines {ls : List Bytes} (h : Answered ids ls st) (k : Credential) (v : Bytes) :
    k.label ++ v ∈ lines (st.reply d).sdp ↔ (k, v) ∈ issued ids ls := by
  obtain ⟨out, hcr, hretSdp, hout⟩ := h.written
  obtain ⟨hcandidate, hplain⟩ := plain_candidateLine d
  have hlines : lines (st.reply d).sdp = out ++ [d.candidateLine] := by
    show lines (st.retSdp ++ (d.candidateLine ++ crlf)) = _
    rw [hretSdp, lines_flatten hcr, ← List.append_nil (d.candidateLine ++ crlf),
      lines_line hcandidate]
    rfl
  rw [hlines, List.mem_append, List.mem_singleton, hout]
  apply or_iff_left
  intro heq
  exact hplain k (heq ▸ List.prefix_append _ _)

/-- If the credential lines carry what is stored, requests made from them are verified with it. -/
theorem matchesStored_of_carries
    (h : ∀ (k : Credential) v, k.label ++ v ∈ lines (st.reply d).sdp →
      v = k.stored (st.reply d).conn) : MatchesStored (st.reply d) where
  carries := h
  verified env hlookup hparse u p hu hp := by
    refine ⟨st.conn.toConnection, ?_, (h .pwd p hp).symm⟩
    have hname : u ++ ascii ":" ++ st.conn.remoteUfrag = (st.reply d).username := by
      rw [h .ufrag u hu]
      rfl
    show env.credentials (u ++ ascii ":" ++ st.conn.remoteUfrag) = _
    rw [hname, Stun.StunEnv.credentials, hlookup]
    exact hparse

/-- The credential lines of the answer to an accepted offer carry what is stored, if the ids drawn
for the lines with one credential are all the same, and only then. -/
theorem matchesStored_iff (h : parseOffer d ids offer = .ok r) :
    MatchesStored r ↔ ∃ sdp, sdpOf offer = some sdp ∧ SameIds ids (lines sdp) := by
  obtain ⟨sdp, st, hsdp, hloop, rfl⟩ := parseOffer_eq_ok h
  have hanswered : Answered ids (lines sdp) st := answered_answerLines answered_init hloop
  constructor
  · intro hmatches
    refine ⟨sdp, hsdp, fun k m n hm hn => ?_⟩
    have hstored : ∀ i, (credentials (lines sdp))[i]? = some k →
        toHexString (ids i) = k.stored (st.reply d).conn := by
      intro i hi
      apply hmatches.carries
      rw [hanswered.mem_lines, mem_issued]
      exact ⟨i, hi, rfl⟩
    apply toHexString_inj.mp
    rw [hstored m hm, hstored n hn]
  · rintro ⟨sdp', hsdp', hsame⟩
    rw [hsdp, Option.some.injEq] at hsdp'
    subst hsdp'
    apply matchesStored_of_carries
    intro k v hv
    have hmem := (hanswered.mem_lines k v).mp hv
    -- what is stored was issued for a line of the same kind
    obtain ⟨m, hm, hvalue⟩ := mem_issued.mp hmem
    obtain ⟨n, hn, hstored⟩ := mem_issued.mp (hanswered.stored k v hmem)
    rw [hvalue, hsame k m n hm hn]
    exact hstored.symm

theorem matchesStored_iff_oneSection :
    MatchesStored ((answerAll localDispatch countedIds {} oneSection).reply localDispatch) ↔
      ∃ sdp, sdpOf (offerOf oneSection) = some sdp ∧ SameIds countedIds (lines sdp) := by
  apply matchesStored_iff
  exact parseOffer_offerOf (by decide +kernel) rfl (by decide +kernel) (by decide +kernel)
    (by decide +kernel) (by decide +kernel)

/-- With a second section, the password in the first one is not the stored one. -/
theorem second_section_differs : ∃ r,
    parseOffer localDispatch countedIds (offerOf (oneSection ++ oneSection)) = .ok r ∧
      ¬MatchesStored r := by
  have haccepted : parseOffer localDispatch countedIds (offerOf (oneSection ++ oneSection)) =
      .ok ((answerAll localDispatch countedIds {} (oneSection ++ oneSection)).reply
        localDispatch) :=
    parseOffer_offerOf (by decide +kernel) rfl (by decide +kernel) (by decide +kernel)
      (by decide +kernel) (by decide +kernel)
  refine ⟨_, haccepted, fun hmatches => ?_⟩
  have hfirst := hmatches.carries .pwd (toHexString (countedIds 1)) (by decide +kernel)
  revert hfirst
  decide +kernel

/-- Where no two ids are the same, there may be one line with each credential. -/
theorem sameIds_iff_nodup {ls : List Bytes} (hids : Function.Injective ids) :
    SameIds ids ls ↔ (credentials ls).Nodup := by
  rw [List.nodup_iff_getElem?_ne_getElem?]
  constructor
  · intro hsame m n hlt hn heq
    obtain ⟨k, hk⟩ : ∃ k, (credentials ls)[n]? = some k := ⟨_, List.getElem?_eq_getElem hn⟩
    have hmn := hids (hsame k m n (heq.trans hk) hk)
    omega
  · intro hnodup k m n hm hn
    have hmn : m = n := by
      have hlt := (List.getElem?_eq_some_iff.mp hm).1
      have hlt' := (List.getElem?_eq_some_iff.mp hn).1
      rcases Nat.lt_trichotomy m n with h | h | h
      · exact absurd (hm.trans hn.symm) (hnodup m n h hlt')
      · exact h
      · exact absurd (hn.trans hm.symm) (hnodup n m h hlt)
    rw [hmn]

end Anon.Webrtc

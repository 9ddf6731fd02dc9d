import Anon.Stun.Authentication
import Anon.Webrtc.OfferTheorems

/-!
# The summary of a STUN message

The parser sums up a message in flags and in the credentials of the user it names. A user name is
two fragments around a colon; what is stored under it is what `parse_offer` stored there.

* `Stun.parseAttribute_cases`: what an accepted attribute is, and does to the state of the loop.
* `Stun.SummedUp`: the state after some attributes.
* `Stun.FaithfulSummary`: the summary says what is in the message.
* `StoresOffers`: the store holds what was stored.
* `faithfulSummary_iff`: the messages whose summary is faithful.
-/

namespace Anon.Stun

variable {env : StunEnv} {msg : Bytes} {st st' : ParseState} {s : StunMsg} {a : Attribute}

/-! ## One attribute -/

/-- A `FINGERPRINT` attribute with the CRC of what is in front of it. -/
def FingerprintCorrect (msg : Bytes) (a : Attribute) : Prop :=
  a.attrType = FINGERPRINT ∧ a.attrLen = 4 ∧
    getBeUint32 msg (a.offset + attributeHeaderSize) = some (crc32Xor (msg.take a.offset)).toNat

theorem parseUsername_cases {value : Bytes} (h : parseUsername env st value = .ok st') :
    value.head? ≠ some 58 ∧ ∃ conn, env.credentials value = some conn ∧
      st' = { st with userName := value, conn := conn, knownClient := true } := by
  have hcred := parseUsername_eq_ok h
  simp only [parseUsername, bind_eq_ok, orReject_eq_ok, failIf_eq_ok, not_or] at h
  obtain ⟨pos, hpos, -, hends, -, -, conn, -, h⟩ := h
  have hst := (Except.ok.inj h).symm
  refine ⟨?_, conn, ?_, hst⟩
  · intro hhead
    cases value with
    | nil => exact absurd hhead (by simp)
    | cons c rest =>
      -- the colon that is found first is the first byte
      rw [List.head?_cons, Option.some.injEq] at hhead
      rw [hhead, show UInt8.ofNat 58 = 58 from rfl, List.idxOf?_cons, if_pos (by simp),
        Option.some.injEq] at hpos
      exact hends.1 hpos.symm
  · rw [hcred, hst]

theorem parseFingerprint_cases (htype : a.attrType = FINGERPRINT)
    (h : parseFingerprint msg a st = .ok st') : FingerprintCorrect msg a ∧ st' = st := by
  have hst := parseFingerprint_eq_ok h
  simp only [parseFingerprint, bind_eq_ok, inBounds, orReject_eq_ok, failIf_eq_ok, not_not] at h
  obtain ⟨-, hlen, presented, hread, -, hcrc, -⟩ := h
  rw [← hcrc] at hread
  exact ⟨⟨htype, hlen, hread⟩, hst⟩

/-- What an accepted attribute is, and what it does. -/
theorem parseAttribute_cases (h : parseAttribute env msg st a = .ok st') :
    (a.attrType = USERNAME ∧ (a.value msg).head? ≠ some 58 ∧
      ∃ conn, env.credentials (a.value msg) = some conn ∧
        st' = { st with userName := a.value msg, conn := conn, knownClient := true }) ∨
    (a.attrType = USE_CANDIDATE ∧ st' = { st with hasUseCandidate := true }) ∨
    (a.attrType = ICE_CONTROLLING ∧ st' = { st with hasIceControlling := true }) ∨
    (FingerprintCorrect msg a ∧ st' = st) ∨
    (a.attrType ∉ [USERNAME, USE_CANDIDATE, ICE_CONTROLLING, FINGERPRINT] ∧ st' = st) := by
  simp only [parseAttribute, bind_eq_ok] at h
  obtain ⟨-, -, -, -, h⟩ := h
  by_cases husername : a.attrType = USERNAME
  · rw [if_pos husername] at h
    obtain ⟨value, hread, h⟩ := bind_eq_ok.mp h
    rw [inBounds, orReject_eq_ok, readBytes_eq_some] at hread
    rw [← hread.2] at h
    exact Or.inl ⟨husername, parseUsername_cases h⟩
  rw [if_neg husername] at h
  right
  by_cases hintegrity : a.attrType = MESSAGE_INTEGRITY
  · rw [if_pos hintegrity] at h
    refine Or.inr (Or.inr (Or.inr ⟨?_, (parseMessageIntegrity_eq_ok h).1⟩))
    rw [hintegrity]
    decide
  rw [if_neg hintegrity] at h
  by_cases hcandidate : a.attrType = USE_CANDIDATE
  · rw [if_pos hcandidate] at h
    obtain ⟨-, -, h⟩ := bind_eq_ok.mp h
    exact Or.inl ⟨hcandidate, (Except.ok.inj h).symm⟩
  rw [if_neg hcandidate] at h
  right
  by_cases hcontrolling : a.attrType = ICE_CONTROLLING
  · rw [if_pos hcontrolling] at h
    obtain ⟨-, -, h⟩ := bind_eq_ok.mp h
    exact Or.inl ⟨hcontrolling, (Except.ok.inj h).symm⟩
  rw [if_neg hcontrolling] at h
  right
  by_cases hfingerprint : a.attrType = FINGERPRINT
  · rw [if_pos hfingerprint] at h
    exact Or.inl (parseFingerprint_cases hfingerprint h)
  rw [if_neg hfingerprint] at h
  refine Or.inr ⟨?_, (Except.ok.inj h).symm⟩
  simp [husername, hcandidate, hcontrolling, hfingerprint]

/-! ## The loop -/

/-- The state after the attributes `done`. -/
structure SummedUp (env : StunEnv) (msg : Bytes) (done : List Attribute) (st : ParseState) :
    Prop where
  noFlag : st.hasFingerprint = false
  useCandidate : st.hasUseCandidate = true ↔ ∃ a ∈ done, a.attrType = USE_CANDIDATE
  iceControlling : st.hasIceControlling = true ↔ ∃ a ∈ done, a.attrType = ICE_CONTROLLING
  fingerprint : ∀ a ∈ done, a.attrType = FINGERPRINT → FingerprintCorrect msg a
  /-- Each user name that was accepted is known, and has something in front of its colon. -/
  known : ∀ a ∈ done, a.attrType = USERNAME →
    (a.value msg).head? ≠ some 58 ∧ ∃ conn, env.credentials (a.value msg) = some conn
  last : (∃ a ∈ done, a.attrType = USERNAME) →
    ∃ a ∈ done, a.attrType = USERNAME ∧ env.credentials (a.value msg) = some st.conn

theorem summedUp_init : SummedUp env msg [] {} where
  noFlag := rfl
  useCandidate := by simp
  iceControlling := by simp
  fingerprint a ha := absurd ha List.not_mem_nil
  known a ha := absurd ha List.not_mem_nil
  last h := absurd h (by simp)

/-- A property of some attribute, with one attribute more. -/
theorem exists_mem_concat {done : List Attribute} {p : Attribute → Prop} :
    (∃ b ∈ done ++ [a], p b) ↔ (∃ b ∈ done, p b) ∨ p a := by
  simp [or_and_right, exists_or]

/-- An attribute of another type leaves the question alone whether there is one of type `t`. -/
theorem exists_type_concat {done : List Attribute} {t : ℕ} (h : a.attrType ≠ t) :
    (∃ b ∈ done ++ [a], b.attrType = t) ↔ ∃ b ∈ done, b.attrType = t := by
  rw [exists_mem_concat]
  exact or_iff_left h

theorem SummedUp.step {done : List Attribute} (h : SummedUp env msg done st)
    (hstep : parseAttribute env msg st a = .ok st') : SummedUp env msg (done ++ [a]) st' := by
  have hcases := parseAttribute_cases hstep
  -- what is asked of every attribute is asked of the new one
  have hfingerprint : ∀ b ∈ done ++ [a], b.attrType = FINGERPRINT → FingerprintCorrect msg b := by
    intro b hb htype
    rcases List.mem_append.mp hb with hb | hb
    · exact h.fingerprint b hb htype
    · rw [List.mem_singleton.mp hb] at htype ⊢
      rcases hcases with ⟨hother, -⟩ | ⟨hother, -⟩ | ⟨hother, -⟩ | ⟨hcorrect, -⟩ | ⟨hother, -⟩
      · exact absurd (hother.symm.trans htype) (by decide)
      · exact absurd (hother.symm.trans htype) (by decide)
      · exact absurd (hother.symm.trans htype) (by decide)
      · exact hcorrect
      · exact absurd (by rw [htype]; decide) hother
  have hknown : ∀ b ∈ done ++ [a], b.attrType = USERNAME →
      (b.value msg).head? ≠ some 58 ∧ ∃ conn, env.credentials (b.value msg) = some conn := by
    intro b hb htype
    rcases List.mem_append.mp hb with hb | hb
    · exact h.known b hb htype
    · rw [List.mem_singleton.mp hb] at htype ⊢
      rcases hcases with
        ⟨-, hhead, conn, hcred, -⟩ | ⟨hother, -⟩ | ⟨hother, -⟩ | ⟨hcorrect, -⟩ | ⟨hother, -⟩
      · exact ⟨hhead, conn, hcred⟩
      · exact absurd (hother.symm.trans htype) (by decide)
      · exact absurd (hother.symm.trans htype) (by decide)
      · exact absurd (hcorrect.1.symm.trans htype) (by decide)
      · exact absurd (by rw [htype]; decide) hother
  -- an attribute that is no user name keeps the credentials
  have hlast : a.attrType ≠ USERNAME → st'.conn = st.conn →
      (∃ b ∈ done ++ [a], b.attrType = USERNAME) →
        ∃ b ∈ done ++ [a], b.attrType = USERNAME ∧
          env.credentials (b.value msg) = some st'.conn := by
    intro hother hconn hany
    rw [exists_type_concat hother] at hany
    obtain ⟨b, hb, htype, hcred⟩ := h.last hany
    rw [hconn]
    exact ⟨b, List.mem_append_left _ hb, htype, hcred⟩
  rcases hcases with ⟨htype, -, conn, hcred, rfl⟩ | ⟨htype, rfl⟩ | ⟨htype, rfl⟩ | ⟨hcorrect, rfl⟩ |
    ⟨htype, rfl⟩
  · refine ⟨h.noFlag, ?_, ?_, hfingerprint, hknown, fun _ => ?_⟩
    · rw [exists_type_concat (by rw [htype]; decide)]
      exact h.useCandidate
    · rw [exists_type_concat (by rw [htype]; decide)]
      exact h.iceControlling
    · exact ⟨a, List.mem_append_right _ List.mem_cons_self, htype, hcred⟩
  · refine ⟨h.noFlag, ?_, ?_, hfingerprint, hknown, hlast (by rw [htype]; decide) rfl⟩
    · rw [exists_mem_concat]
      exact ⟨fun _ => Or.inr htype, fun _ => rfl⟩
    · rw [exists_type_concat (by rw [htype]; decide)]
      exact h.iceControlling
  · refine ⟨h.noFlag, ?_, ?_, hfingerprint, hknown, hlast (by rw [htype]; decide) rfl⟩
    · rw [exists_type_concat (by rw [htype]; decide)]
      exact h.useCandidate
    · rw [exists_mem_concat]
      exact ⟨fun _ => Or.inr htype, fun _ => rfl⟩
  · refine ⟨h.noFlag, ?_, ?_, hfingerprint, hknown, hlast (by rw [hcorrect.1]; decide) rfl⟩
    · rw [exists_type_concat (by rw [hcorrect.1]; decide)]
      exact h.useCandidate
    · rw [exists_type_concat (by rw [hcorrect.1]; decide)]
      exact h.iceControlling
  · simp only [List.mem_cons, List.not_mem_nil, or_false, not_or] at htype
    refine ⟨h.noFlag, ?_, ?_, hfingerprint, hknown, hlast htype.1 rfl⟩
    · rw [exists_type_concat htype.2.1]
      exact h.useCandidate
    · rw [exists_type_concat htype.2.2.1]
      exact h.iceControlling

/-- The summary of an accepted message is the state after all its attributes. -/
theorem summedUp_of_accepted (h : parseStunMsg env msg = .ok s) :
    ∃ st, SummedUp env msg (attributes msg) st ∧ s.hasFingerprint = st.hasFingerprint ∧
      s.hasUseCandidate = st.hasUseCandidate ∧ s.hasIceControlling = st.hasIceControlling ∧
      s.localUfrag = st.conn.localUfrag ∧ s.remoteUfrag = st.conn.remoteUfrag := by
  unfold parseStunMsg at h
  simp only [bind_eq_ok] at h
  obtain ⟨-, -, first, -, -, -, cookie, -, -, -, msgSize, -, -, -, mth, -, -, -, st, hst, h⟩ := h
  have hsummed : SummedUp env msg (attributes msg) st :=
    foldlM_invariant (P := SummedUp env msg) summedUp_init
      (fun done a u v hu hv => hu.step hv) (foldlM_attributesFrom hst)
  rw [← Except.ok.inj h]
  exact ⟨st, hsummed, rfl, rfl, rfl, rfl, rfl⟩

/-! ## Faithful summaries -/

/-- The summary says what is in the message: the fingerprint, the two flags, and both fragments of
each user name. -/
structure FaithfulSummary (msg : Bytes) (s : StunMsg) : Prop where
  fingerprint : s.hasFingerprint = true ↔ ∃ a ∈ attributes msg, FingerprintCorrect msg a
  useCandidate : s.hasUseCandidate = true ↔ ∃ a ∈ attributes msg, a.attrType = USE_CANDIDATE
  iceControlling : s.hasIceControlling = true ↔
    ∃ a ∈ attributes msg, a.attrType = ICE_CONTROLLING
  userName : ∀ a ∈ attributes msg, a.attrType = USERNAME →
    s.localUfrag ≠ [] ∧ s.remoteUfrag ≠ [] ∧
      a.value msg = s.localUfrag ++ ascii ":" ++ s.remoteUfrag

/-- A user name with nothing behind its colon. -/
def EndsAtColon (value : Bytes) : Prop := ∃ front, 58 ∉ front ∧ value = front ++ ascii ":"

/-- A message with no fingerprint, and with at most one user name, which has something behind its
colon. -/
structure ShownByParser (msg : Bytes) : Prop where
  noFingerprint : ∀ a ∈ attributes msg, a.attrType ≠ FINGERPRINT
  behindColon : ∀ a ∈ attributes msg, a.attrType = USERNAME → ¬EndsAtColon (a.value msg)
  oneUserName : ∀ a ∈ attributes msg, ∀ b ∈ attributes msg, a.attrType = USERNAME →
    b.attrType = USERNAME → a.value msg = b.value msg

/-- What is stored under a user name is a connection with its two fragments. -/
def NamedByUfrags (env : StunEnv) : Prop :=
  ∀ userName conn, env.credentials userName = some conn →
    userName = conn.localUfrag ++ ascii ":" ++ conn.remoteUfrag ∧ 58 ∉ conn.localUfrag

/-- The summary of an accepted message is faithful exactly for the messages that the parser shows
in full. -/
theorem faithful_iff_shown (hnamed : NamedByUfrags env) (h : parseStunMsg env msg = .ok s) :
    FaithfulSummary msg s ↔ ShownByParser msg := by
  obtain ⟨st, hsummed, hfingerprint, hcandidate, hcontrolling, hlocal, hremote⟩ :=
    summedUp_of_accepted h
  constructor
  · intro hfaithful
    refine ⟨?_, ?_, ?_⟩
    · intro a ha htype
      have hflag := hfaithful.fingerprint.mpr ⟨a, ha, hsummed.fingerprint a ha htype⟩
      rw [hfingerprint, hsummed.noFlag] at hflag
      exact absurd hflag (by simp)
    · intro a ha htype hends
      obtain ⟨-, hne, hvalue⟩ := hfaithful.userName a ha htype
      obtain ⟨front, hfront, hends⟩ := hends
      rw [hends, List.append_assoc] at hvalue
      have hsplit : front ++ 58 :: [] = s.localUfrag ++ 58 :: s.remoteUfrag := hvalue
      -- there is no colon in front of the last byte, so the second fragment is what is behind it
      have hparts := (List.append_cons_inj_of_notMem hfront List.not_mem_nil).mp hsplit
      exact hne hparts.2.2.symm
    · intro a ha b hb htype htype'
      rw [(hfaithful.userName a ha htype).2.2, (hfaithful.userName b hb htype').2.2]
  · intro hshown
    refine ⟨?_, ?_, ?_, ?_⟩
    · rw [hfingerprint, hsummed.noFlag]
      constructor
      · intro hflag
        exact absurd hflag (by simp)
      · rintro ⟨a, ha, hcorrect⟩
        exact absurd hcorrect.1 (hshown.noFingerprint a ha)
    · rw [hcandidate]
      exact hsummed.useCandidate
    · rw [hcontrolling]
      exact hsummed.iceControlling
    · intro a ha htype
      obtain ⟨b, hb, hbtype, hcred⟩ := hsummed.last ⟨a, ha, htype⟩
      obtain ⟨hvalue, hcolon⟩ := hnamed _ _ hcred
      have hsame := hshown.oneUserName a ha b hb htype hbtype
      rw [hlocal, hremote]
      refine ⟨?_, ?_, hsame.trans hvalue⟩
      · intro hnil
        apply (hsummed.known b hb hbtype).1
        rw [hvalue, hnil]
        rfl
      · intro hnil
        apply hshown.behindColon b hb hbtype
        rw [hnil, List.append_nil] at hvalue
        exact ⟨st.conn.localUfrag, hcolon, hvalue⟩

end Anon.Stun

namespace Anon.Webrtc

variable {d : WebrtcDispatch} {ids : ℕ → SmallId} {offer : Json} {r : Reply} {st st' : OfferState}

/-! ## The store -/

/-- The store holds under a user name what `parse_offer` stored under it. -/
def StoresOffers (env : Stun.StunEnv) : Prop :=
  ∀ userName conn, env.credentials userName = some conn →
    ∃ d ids offer r, parseOffer d ids offer = .ok r ∧ r.username = userName ∧
      r.conn.toConnection = conn

theorem colon_notMem_asciiHex : ∀ b : UInt8, 58 ∉ asciiHex b := by
  apply forall_uint8
  decide +kernel

theorem colon_notMem_toHexString (x : SmallId) : 58 ∉ toHexString x := by
  intro h
  obtain ⟨b, -, hb⟩ := List.mem_flatMap.mp h
  exact colon_notMem_asciiHex b hb

/-- A line puts no colon into our fragment. -/
theorem LineStep.colon_notMem {line : Bytes} (h : LineStep ids st line st')
    (hst : 58 ∉ st.localUfrag) : 58 ∉ st'.localUfrag := by
  show 58 ∉ Credential.ufrag.stored st'.conn
  cases h with
  | issue k _ _ _ stored others =>
    by_cases hk : Credential.ufrag = k
    · rw [hk, stored]
      exact colon_notMem_toHexString _
    · rw [others _ hk]
      exact hst
  | copy out _ _ _ _ stored =>
    rw [stored]
    exact hst

/-- The loop never puts a colon into our fragment. -/
theorem colon_notMem_answerLines {text : Bytes} (h : 58 ∉ st.localUfrag)
    (hloop : answerLines d ids st text = .ok st') : 58 ∉ st'.localUfrag := by
  induction st, text using answerLines.induct d ids with
  | case1 st =>
    rw [answerLines, if_pos rfl] at hloop
    rwa [← Except.ok.inj hloop]
  | case2 st text hne hsplit =>
    rw [answerLines, if_neg hne] at hloop
    split at hloop
    · exact absurd hloop (by simp)
    · next p hp =>
      rw [hsplit] at hp
      exact absurd hp (by simp)
  | case3 st text hne p hsplit ih =>
    rw [answerLines, if_neg hne] at hloop
    split at hloop
    · exact absurd hloop (by simp)
    · next p' hp =>
      rw [hsplit, Option.some.injEq] at hp
      subst hp
      obtain ⟨-, hcr⟩ := splitLine_eq_some hsplit
      exact ih ((answerLine_cases d ids st hcr p.2).colon_notMem h) hloop

/-- What an offer stores is stored under its two fragments. -/
theorem username_of_parseOffer (h : parseOffer d ids offer = .ok r) :
    r.username = r.conn.localUfrag ++ ascii ":" ++ r.conn.remoteUfrag ∧
      58 ∉ r.conn.localUfrag := by
  obtain ⟨sdp, st, -, hloop, rfl⟩ := parseOffer_eq_ok h
  exact ⟨rfl, colon_notMem_answerLines List.not_mem_nil hloop⟩

theorem namedByUfrags_of_storesOffers {env : Stun.StunEnv} (h : StoresOffers env) :
    Stun.NamedByUfrags env := by
  intro userName conn hcred
  obtain ⟨d, ids, offer, r, haccepted, rfl, rfl⟩ := h userName conn hcred
  exact username_of_parseOffer haccepted

/-! ## Faithful summaries -/

/-- With the connections of accepted offers in the store, the summary of an accepted message is
faithful exactly if the message has no fingerprint, no user name ends at its colon, and there are
no two different ones. -/
theorem faithfulSummary_iff {env : Stun.StunEnv} {msg : Bytes} {s : Stun.StunMsg}
    (hstore : StoresOffers env) (h : Stun.parseStunMsg env msg = .ok s) :
    Stun.FaithfulSummary msg s ↔ Stun.ShownByParser msg :=
  Stun.faithful_iff_shown (namedByUfrags_of_storesOffers hstore) h

/-! ## Three requests -/

/-- What the offer with the given lines leads to. -/
def replyTo (ls : List Bytes) : Reply :=
  (answerAll localDispatch countedIds {} ls).reply localDispatch

/-- A store with the connection of that offer in it. -/
def storeAfter (ls : List Bytes) : Stun.StunEnv where
  lookup userName := if userName = (replyTo ls).username then some (replyTo ls).res else none
  parseFromString _ := some (replyTo ls).conn.toConnection
  hmacSha1 := Stun.exampleEnv.hmacSha1

theorem storesOffers_storeAfter {ls : List Bytes}
    (h : parseOffer localDispatch countedIds (offerOf ls) = .ok (replyTo ls)) :
    StoresOffers (storeAfter ls) := by
  intro userName conn hcred
  refine ⟨localDispatch, countedIds, offerOf ls, replyTo ls, h, ?_⟩
  simp only [Stun.StunEnv.credentials, storeAfter] at hcred
  split at hcred
  · next hname => exact ⟨hname.symm, Option.some.inj hcred⟩
  · exact absurd hcred (by simp)

/-- A binding request with the given user name, padded, and with `USE-CANDIDATE`. -/
def candidateRequest (userName padding : Bytes) : Bytes :=
  Stun.bindingHeader (userName.length + padding.length + 8) ++
    setBeUint16 Stun.USERNAME ++ setBeUint16 userName.length ++ userName ++ padding ++
    setBeUint16 Stun.USE_CANDIDATE ++ setBeUint16 0

/-- Our fragment in the examples. -/
def zeroUfrag : Bytes := List.replicate 40 48

/-- A binding request with a fingerprint and nothing else. -/
def fingerprintRequest : Bytes :=
  Stun.bindingHeader 8 ++ setBeUint16 Stun.FINGERPRINT ++ setBeUint16 4 ++
    setBeUint32 (Stun.crc32Xor (Stun.bindingHeader 8)).toNat

/-- The lines of an offer with an empty fragment. -/
def emptyFragment : List Bytes :=
  [ascii "m=audio", ascii "a=ice-ufrag:", ascii "a=ice-pwd:y",
    ascii "a=fingerprint:sha-256 01:02"]

theorem exists_of_map_eq_ok {ε α β : Type} {x : Except ε α} {f : α → β} {b : β}
    (h : x.map f = .ok b) : ∃ a, x = .ok a ∧ f a = b := by
  cases x with
  | error e => exact absurd h (by simp [Except.map])
  | ok a => exact ⟨a, rfl, Except.ok.inj h⟩

theorem faithfulSummary_oneSection : ∃ s,
    Stun.parseStunMsg (storeAfter oneSection) (candidateRequest (zeroUfrag ++ ascii ":x") [0, 0]) =
      .ok s ∧ s.hasUseCandidate = true ∧
        Stun.FaithfulSummary (candidateRequest (zeroUfrag ++ ascii ":x") [0, 0]) s := by
  have hoffer :
      parseOffer localDispatch countedIds (offerOf oneSection) = .ok (replyTo oneSection) :=
    parseOffer_offerOf (by decide +kernel) rfl (by decide +kernel) (by decide +kernel)
      (by decide +kernel) (by decide +kernel)
  have hmap : (Stun.parseStunMsg (storeAfter oneSection)
      (candidateRequest (zeroUfrag ++ ascii ":x") [0, 0])).map Stun.StunMsg.hasUseCandidate =
        .ok true := by decide +kernel
  obtain ⟨s, hs, hcandidate⟩ := exists_of_map_eq_ok hmap
  refine ⟨s, hs, hcandidate, (faithfulSummary_iff (storesOffers_storeAfter hoffer) hs).mpr ?_⟩
  have hattrs : Stun.attributes (candidateRequest (zeroUfrag ++ ascii ":x") [0, 0]) =
      [⟨20, Stun.USERNAME, 42⟩, ⟨68, Stun.USE_CANDIDATE, 0⟩] := by decide +kernel
  have hname : ∀ a ∈ Stun.attributes (candidateRequest (zeroUfrag ++ ascii ":x") [0, 0]),
      a.attrType = Stun.USERNAME →
        a.value (candidateRequest (zeroUfrag ++ ascii ":x") [0, 0]) = zeroUfrag ++ ascii ":x" := by
    rw [hattrs]
    decide +kernel
  refine ⟨?_, ?_, ?_⟩
  · rw [hattrs]
    decide
  · intro a ha htype hends
    obtain ⟨front, -, hvalue⟩ := hends
    rw [hname a ha htype] at hvalue
    have hlast := congrArg List.getLast? hvalue
    rw [show ascii ":" = [58] from rfl, List.getLast?_concat] at hlast
    exact absurd hlast (by decide)
  · intro a ha b hb htype htype'
    rw [hname a ha htype, hname b hb htype']

/-- A fingerprint with the right CRC is not shown. And after an offer with an empty fragment, a
user name that ends at its colon is accepted. -/
theorem unfaithful_summaries :
    (∃ s, StoresOffers (storeAfter oneSection) ∧
      Stun.parseStunMsg (storeAfter oneSection) fingerprintRequest = .ok s ∧
        s.hasFingerprint = false ∧
        (∃ a ∈ Stun.attributes fingerprintRequest, Stun.FingerprintCorrect fingerprintRequest a) ∧
        ¬Stun.FaithfulSummary fingerprintRequest s) ∧
    ∃ s, StoresOffers (storeAfter emptyFragment) ∧
      Stun.parseStunMsg (storeAfter emptyFragment)
        (candidateRequest (zeroUfrag ++ ascii ":") [0, 0, 0]) = .ok s ∧
        s.knownClient = true ∧ s.remoteUfrag = [] ∧
        ¬Stun.FaithfulSummary (candidateRequest (zeroUfrag ++ ascii ":") [0, 0, 0]) s := by
  refine ⟨?_, ?_⟩
  · have hoffer : parseOffer localDispatch countedIds (offerOf oneSection) =
        .ok (replyTo oneSection) :=
      parseOffer_offerOf (by decide +kernel) rfl (by decide +kernel) (by decide +kernel)
        (by decide +kernel) (by decide +kernel)
    have hmap : (Stun.parseStunMsg (storeAfter oneSection) fingerprintRequest).map
        Stun.StunMsg.hasFingerprint = .ok false := by decide +kernel
    obtain ⟨s, hs, hflag⟩ := exists_of_map_eq_ok hmap
    have hcorrect : ∃ a ∈ Stun.attributes fingerprintRequest,
        Stun.FingerprintCorrect fingerprintRequest a := by
      have hattrs : Stun.attributes fingerprintRequest = [⟨20, Stun.FINGERPRINT, 4⟩] := by
        decide +kernel
      rw [hattrs]
      exact ⟨_, List.mem_cons_self, rfl, rfl, by decide +kernel⟩
    refine ⟨s, storesOffers_storeAfter hoffer, hs, hflag, hcorrect, ?_⟩
    intro hfaithful
    rw [hfaithful.fingerprint.mpr hcorrect] at hflag
    exact absurd hflag (by decide)
  · have hoffer : parseOffer localDispatch countedIds (offerOf emptyFragment) =
        .ok (replyTo emptyFragment) :=
      parseOffer_offerOf (by decide +kernel) rfl (by decide +kernel) (by decide +kernel)
        (by decide +kernel) (by decide +kernel)
    have hmap : (Stun.parseStunMsg (storeAfter emptyFragment)
        (candidateRequest (zeroUfrag ++ ascii ":") [0, 0, 0])).map
          (fun s => (s.knownClient, s.remoteUfrag)) = .ok (true, []) := by decide +kernel
    obtain ⟨s, hs, hpair⟩ := exists_of_map_eq_ok hmap
    obtain ⟨hknown, hremote⟩ := Prod.mk.inj hpair
    refine ⟨s, storesOffers_storeAfter hoffer, hs, hknown, hremote, ?_⟩
    intro hfaithful
    have hname : ⟨20, Stun.USERNAME, 41⟩ ∈
        Stun.attributes (candidateRequest (zeroUfrag ++ ascii ":") [0, 0, 0]) := by decide +kernel
    exact (hfaithful.userName _ hname rfl).2.1 hremote

end Anon.Webrtc

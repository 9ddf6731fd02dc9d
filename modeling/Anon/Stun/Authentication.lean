import Anon.Stun.Parser

/-!
# What an accepted STUN message proves

The parser looks at the attributes of a message one after the other, in the order and number
the sender chose, and keeps the credentials of the latest `USERNAME`. A `MESSAGE-INTEGRITY`
attribute is checked against the credentials in force where it stands; the summary carries the
credentials in force at the end.

* `attributes`: the attributes of a message, as the loop visits them.
* `foldlM_attributes`: the loop is a fold of `parseAttribute` over them.
* `credentialsAfter`: the credentials in force after some attributes.
* `authenticated_iff`: when the summary's own password was checked.
-/

namespace Anon.Stun

variable {env : StunEnv} {msg : Bytes} {st st' : ParseState} {s : StunMsg}

/-! ## The attributes of a message -/

/-- The attributes from offset `ptr` on, each found behind the padded value of the one before. -/
def attributesFrom (msg : Bytes) (ptr : ℕ) : List Attribute :=
  if ptr < msg.length then
    match getBeUint16 msg ptr, getBeUint16 msg (ptr + 2) with
    | some attrType, some attrLen =>
      let a : Attribute := ⟨ptr, attrType, attrLen⟩
      a :: attributesFrom msg a.next
    | _, _ => []
  else []
termination_by msg.length - ptr
decreasing_by
  have := Attribute.lt_next ⟨ptr, attrType, attrLen⟩
  simp only at this
  omega

/-- The attributes of a message. -/
def attributes (msg : Bytes) : List Attribute := attributesFrom msg stunMsgHeaderSize

theorem orReject_eq_ok {α : Type} {e : Rejected} {o : Option α} {a : α} :
    orReject e o = .ok a ↔ o = some a := by
  cases o <;> simp [orReject]

/-- A loop that ends well has folded `parseAttribute` over the attributes. -/
theorem foldlM_attributesFrom {ptr : ℕ} (h : parseAttributes env msg ptr st = .ok st') :
    (attributesFrom msg ptr).foldlM (parseAttribute env msg) st = .ok st' := by
  induction ptr, st using parseAttributes.induct msg with
  | case1 ptr st hptr hshort =>
    rw [parseAttributes, if_pos hptr, if_pos hshort] at h
    exact absurd h (by simp)
  | case2 ptr st hptr hlen ih =>
    rw [parseAttributes, if_pos hptr, if_neg hlen] at h
    obtain ⟨attrType, htype, h⟩ := bind_eq_ok.mp h
    obtain ⟨attrLen, hattrLen, h⟩ := bind_eq_ok.mp h
    obtain ⟨st1, hst1, h⟩ := bind_eq_ok.mp h
    rw [attributesFrom, if_pos hptr, orReject_eq_ok.mp htype, orReject_eq_ok.mp hattrLen]
    exact foldlM_cons_eq_ok.mpr ⟨st1, hst1, ih attrType attrLen st1 h⟩
  | case3 ptr st hptr =>
    rw [parseAttributes, if_neg hptr] at h
    rw [attributesFrom, if_neg hptr]
    exact h

/-- An accepted message's attributes all pass, and the summary carries the state they leave. -/
theorem parseStunMsg_eq_ok (h : parseStunMsg env msg = .ok s) :
    ∃ st, (attributes msg).foldlM (parseAttribute env msg) {} = .ok st ∧
      s.localPwd = st.conn.localPwd ∧ s.knownClient = st.knownClient := by
  unfold parseStunMsg at h
  simp only [bind_eq_ok] at h
  obtain ⟨-, -, first, -, -, -, cookie, -, -, -, msgSize, -, -, -, mth, -, -, -, st, hst, h⟩ := h
  have hs := Except.ok.inj h
  refine ⟨st, foldlM_attributesFrom hst, ?_, ?_⟩
  · rw [← hs]
  · rw [← hs]

/-! ## Credentials in force -/

/-- The credentials in force after the attributes `as`: those of the last `USERNAME` among
them. -/
def credentialsAfter (env : StunEnv) (msg : Bytes) (as : List Attribute) : Connection :=
  as.foldl (fun conn a =>
    if a.attrType = USERNAME then (env.credentials (a.value msg)).getD conn else conn) {}

theorem parseUsername_eq_ok {value : Bytes} (h : parseUsername env st value = .ok st') :
    env.credentials value = some st'.conn := by
  simp only [parseUsername, bind_eq_ok, orReject_eq_ok] at h
  obtain ⟨pos, -, -, -, res, hres, conn, hconn, h⟩ := h
  rw [← Except.ok.inj h, StunEnv.credentials, hres]
  exact hconn

/-- An accepted `MESSAGE-INTEGRITY` attribute holds the HMAC keyed with the password in force,
and changes nothing. -/
theorem parseMessageIntegrity_eq_ok {a : Attribute}
    (h : parseMessageIntegrity env msg a st = .ok st') :
    st' = st ∧ a.value msg = env.hmacSha1 st.conn.localPwd (integrityInput msg a) := by
  simp only [parseMessageIntegrity, bind_eq_ok, inBounds, orReject_eq_ok, failIf_eq_ok,
    not_not] at h
  obtain ⟨-, hlen, -, -, presented, hread, -, hmd, h⟩ := h
  refine ⟨(Except.ok.inj h).symm, ?_⟩
  rw [hmd, Attribute.value, hlen, (readBytes_eq_some.mp hread).2]

theorem parseFingerprint_eq_ok {a : Attribute} (h : parseFingerprint msg a st = .ok st') :
    st' = st := by
  simp only [parseFingerprint, bind_eq_ok] at h
  obtain ⟨-, -, presentedCrc, -, -, -, h⟩ := h
  exact (Except.ok.inj h).symm

/-- What an accepted attribute does to the credentials in force, and what it proves. -/
theorem parseAttribute_eq_ok {a : Attribute} (h : parseAttribute env msg st a = .ok st') :
    (a.attrType = USERNAME ∧ env.credentials (a.value msg) = some st'.conn) ∨
    (a.attrType ≠ USERNAME ∧ st'.conn = st.conn ∧ (a.attrType = MESSAGE_INTEGRITY →
      a.value msg = env.hmacSha1 st.conn.localPwd (integrityInput msg a))) := by
  simp only [parseAttribute, bind_eq_ok] at h
  obtain ⟨-, -, -, -, h⟩ := h
  split at h
  · next htype =>
    obtain ⟨value, hread, h⟩ := bind_eq_ok.mp h
    rw [inBounds, orReject_eq_ok, readBytes_eq_some] at hread
    refine Or.inl ⟨htype, ?_⟩
    rw [Attribute.value, hread.2]
    exact parseUsername_eq_ok h
  · next htype =>
    refine Or.inr ⟨htype, ?_⟩
    split at h
    · obtain ⟨hst, hvalue⟩ := parseMessageIntegrity_eq_ok h
      exact ⟨by rw [hst], fun _ => hvalue⟩
    · next hmi =>
      refine ⟨?_, fun htype => absurd htype hmi⟩
      -- the remaining cases leave the credentials alone
      split at h
      · obtain ⟨-, -, h⟩ := bind_eq_ok.mp h
        rw [← Except.ok.inj h]
      · split at h
        · obtain ⟨-, -, h⟩ := bind_eq_ok.mp h
          rw [← Except.ok.inj h]
        · split at h
          · rw [parseFingerprint_eq_ok h]
          · rw [← Except.ok.inj h]

theorem credentialsAfter_concat (as : List Attribute) (a : Attribute) :
    credentialsAfter env msg (as ++ [a]) =
      if a.attrType = USERNAME then
        (env.credentials (a.value msg)).getD (credentialsAfter env msg as)
      else credentialsAfter env msg as := by
  rw [credentialsAfter, List.foldl_append]
  rfl

/-- The loop's `conn` is that of the last `USERNAME`. -/
theorem conn_eq_credentialsAfter {as : List Attribute}
    (h : as.foldlM (parseAttribute env msg) {} = .ok st) :
    st.conn = credentialsAfter env msg as := by
  refine foldlM_invariant (P := fun as st => st.conn = credentialsAfter env msg as) rfl ?_ h
  intro done a u v hu hv
  rw [credentialsAfter_concat]
  rcases parseAttribute_eq_ok hv with ⟨htype, hcred⟩ | ⟨htype, hconn, -⟩
  · rw [if_pos htype, hcred]
    rfl
  · rw [if_neg htype, hconn, hu]

/-! ## Authentication -/

/-- The message contains a `MESSAGE-INTEGRITY` attribute whose value is the HMAC, over the message
before it with the adjusted length, keyed with the local password that the summary carries. -/
def Authenticated (env : StunEnv) (msg : Bytes) (s : StunMsg) : Prop :=
  ∃ a ∈ attributes msg, a.attrType = MESSAGE_INTEGRITY ∧
    a.value msg = env.hmacSha1 s.localPwd (integrityInput msg a)

/-- The message contains a `MESSAGE-INTEGRITY` attribute such that the password in force there
and the password in force at the end of the message give the same HMAC over the message before
it. -/
def IntegrityUnderFinalKey (env : StunEnv) (msg : Bytes) : Prop :=
  ∃ before a after, attributes msg = before ++ a :: after ∧ a.attrType = MESSAGE_INTEGRITY ∧
    env.hmacSha1 (credentialsAfter env msg before).localPwd (integrityInput msg a) =
      env.hmacSha1 (credentialsAfter env msg (attributes msg)).localPwd (integrityInput msg a)

/-- An accepted `MESSAGE-INTEGRITY` attribute was checked with the password in force before it. -/
theorem value_of_accepted {before after : List Attribute} {a : Attribute}
    (h : (before ++ a :: after).foldlM (parseAttribute env msg) {} = .ok st)
    (ha : a.attrType = MESSAGE_INTEGRITY) :
    a.value msg =
      env.hmacSha1 (credentialsAfter env msg before).localPwd (integrityInput msg a) := by
  obtain ⟨u, hbefore, hrest⟩ := foldlM_append_eq_ok.mp h
  obtain ⟨v, hv, -⟩ := foldlM_cons_eq_ok.mp hrest
  rw [← conn_eq_credentialsAfter hbefore]
  rcases parseAttribute_eq_ok hv with ⟨htype, -⟩ | ⟨-, -, hvalue⟩
  · rw [htype] at ha
    exact absurd ha (by decide)
  · exact hvalue ha

/-- An accepted message is authenticated exactly when some integrity check of it used the key
of the connection that the last `USERNAME` selects, or one with the same HMAC. -/
theorem authenticated_iff (h : parseStunMsg env msg = .ok s) :
    Authenticated env msg s ↔ IntegrityUnderFinalKey env msg := by
  obtain ⟨st, hfold, hpwd, -⟩ := parseStunMsg_eq_ok h
  have hkey : s.localPwd = (credentialsAfter env msg (attributes msg)).localPwd := by
    rw [hpwd, conn_eq_credentialsAfter hfold]
  constructor
  · intro hauth
    obtain ⟨a, hmem, htype, hvalue⟩ := hauth
    obtain ⟨before, after, hsplit⟩ := List.append_of_mem hmem
    have hchecked := value_of_accepted (hsplit ▸ hfold) htype
    refine ⟨before, a, after, hsplit, htype, ?_⟩
    rw [← hchecked, ← hkey, hvalue]
  · intro hfinal
    obtain ⟨before, a, after, hsplit, htype, hsame⟩ := hfinal
    have hchecked := value_of_accepted (hsplit ▸ hfold) htype
    refine ⟨a, ?_, htype, ?_⟩
    · rw [hsplit]
      exact List.mem_append_right before List.mem_cons_self
    · rw [hchecked, hsame, hkey]

/-- A `MESSAGE-INTEGRITY` attribute that no `USERNAME` follows is checked with the final key. -/
theorem integrityUnderFinalKey_of_last {before after : List Attribute} {a : Attribute}
    (hsplit : attributes msg = before ++ a :: after) (ha : a.attrType = MESSAGE_INTEGRITY)
    (hafter : ∀ b ∈ after, b.attrType ≠ USERNAME) : IntegrityUnderFinalKey env msg := by
  have hkeep : ∀ conn, after.foldl (fun conn b =>
      if b.attrType = USERNAME then (env.credentials (b.value msg)).getD conn else conn) conn
      = conn := by
    clear hsplit
    induction after with
    | nil => exact fun _ => rfl
    | cons b bs ih =>
      intro conn
      rw [List.foldl_cons, if_neg (hafter b List.mem_cons_self)]
      exact ih (fun c hc => hafter c (List.mem_cons_of_mem b hc)) conn
  have hne : a.attrType ≠ USERNAME := by
    rw [ha]
    decide
  refine ⟨before, a, after, hsplit, ha, ?_⟩
  rw [hsplit, credentialsAfter, credentialsAfter, List.foldl_append, List.foldl_cons, if_neg hne,
    hkeep]

/-! ## The dispatcher -/

/-- The dispatcher registers a sender exactly for a valid message of a known client, and there
only behind a first byte of at most 3. -/
theorem recvMsg_eq_registerAssociation :
    recvMsg env msg = .registerAssociation s ↔
      (∃ b ∈ msg.head?, b ≤ 3) ∧ parseStunMsg env msg = .ok s ∧ s.knownClient = true := by
  cases msg with
  | nil => simp [recvMsg]
  | cons b rest =>
    rw [recvMsg]
    by_cases hb : b ≤ 3
    · rw [if_pos hb]
      cases hparse : parseStunMsg env (b :: rest) with
      | error r => simp
      | ok s' =>
        by_cases hk : s'.knownClient = true
        · simp only [hk, if_true, Dispatched.registerAssociation.injEq, Except.ok.injEq]
          constructor
          · intro h
            exact ⟨⟨b, rfl, hb⟩, h, h ▸ hk⟩
          · intro h
            exact h.2.1
        · simp only [hk, Except.ok.injEq]
          constructor
          · intro h
            exact absurd h (by simp)
          · intro h
            exact absurd (h.2.1 ▸ h.2.2) hk
    · rw [if_neg hb]
      constructor
      · intro h
        split at h <;> exact absurd h (by simp)
      · intro h
        obtain ⟨⟨b', hb', hle⟩, -⟩ := h
        rw [List.head?_cons, Option.mem_some_iff] at hb'
        exact absurd (hb' ▸ hle) hb

/-! ## Two messages -/

/-- A lookup that knows every user, with the password "p", and a stand-in for the HMAC. -/
def exampleEnv : StunEnv where
  lookup _ := some []
  parseFromString _ := some { localPwd := [112], localSctpPort := 5000, remoteSctpPort := 5000 }
  hmacSha1 key data := (key ++ data ++ List.replicate 20 0).take 20

def exampleSummary : StunMsg where
  method := binding
  methodClass := 0
  remoteUfrag := []
  remotePwd := []
  remoteSctpPort := 5000
  localUfrag := []
  localPwd := [112]
  localSctpPort := 5000
  hasFingerprint := false
  hasUseCandidate := false
  hasIceControlling := false
  knownClient := true

/-- A binding request whose attributes take up `n` bytes. -/
def bindingHeader (n : ℕ) : Bytes :=
  setBeUint16 binding ++ setBeUint16 n ++ rawMagicCookie ++ List.replicate 12 0

/-- `USERNAME` "a:b", padded. -/
def usernameAB : Bytes := setBeUint16 USERNAME ++ setBeUint16 3 ++ [97, 58, 98, 0]

/-- A binding request with a `USERNAME` and nothing else. -/
def usernameOnly : Bytes := bindingHeader 8 ++ usernameAB

/-- A binding request with a `USERNAME` and a `MESSAGE-INTEGRITY`. -/
def usernameAndIntegrity : Bytes :=
  let head := bindingHeader 32 ++ usernameAB
  head ++ setBeUint16 MESSAGE_INTEGRITY ++ setBeUint16 20 ++ exampleEnv.hmacSha1 [112] head

theorem authenticated_usernameAndIntegrity :
    Authenticated exampleEnv usernameAndIntegrity exampleSummary := by
  apply (authenticated_iff (by decide +kernel)).mpr
  have hsplit : attributes usernameAndIntegrity =
      [⟨20, USERNAME, 3⟩] ++ ⟨28, MESSAGE_INTEGRITY, 20⟩ :: [] := by decide +kernel
  apply integrityUnderFinalKey_of_last hsplit rfl
  intro b hb
  exact absurd hb List.not_mem_nil

/-- A datagram with a known `USERNAME` and no integrity check registers its sender. -/
theorem registered_without_integrity :
    recvMsg exampleEnv usernameOnly = .registerAssociation exampleSummary ∧
      parseStunMsg exampleEnv usernameOnly = .ok exampleSummary ∧
      exampleSummary.knownClient = true ∧
      ¬Authenticated exampleEnv usernameOnly exampleSummary := by
  refine ⟨by decide +kernel, by decide +kernel, rfl, ?_⟩
  intro hauth
  obtain ⟨a, hmem, htype, -⟩ := hauth
  have hattrs : attributes usernameOnly = [⟨20, USERNAME, 3⟩] := by decide +kernel
  rw [hattrs, List.mem_singleton] at hmem
  rw [hmem] at htype
  exact absurd htype (by decide)

end Anon.Stun

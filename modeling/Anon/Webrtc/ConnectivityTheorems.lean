import Anon.Stun.Wire
import Anon.Webrtc.SummaryTheorems

/-!
# The request of a peer with the answer

A peer takes a user name and a password from the answer and sends a binding request, with its
`MESSAGE-INTEGRITY` and its `FINGERPRINT` at the end and other attributes in front of them.

* `CheckRequest`: such a request, whatever it is signed with.
* `meaning_wire`: what it means to the parser.
* `recvMsg_of_answer`: the dispatcher registers the ports of the offer for it exactly if it is
  signed with the password of the answer.
-/

namespace Anon.Stun

/-- An attribute that may stand between the user name and the integrity. -/
inductive Carried (a : WireAttr) : Prop
  | priority (isType : a.attrType = PRIORITY)
  | useCandidate (isType : a.attrType = USE_CANDIDATE) (empty : a.value = [])
  | iceControlling (isType : a.attrType = ICE_CONTROLLING) (size : a.value.length = 8)
  | optional (bit : a.attrType &&& 0x8000 ≠ 0) (notFingerprint : a.attrType ≠ FINGERPRINT)
      (notControlling : a.attrType ≠ ICE_CONTROLLING)

/-- A binding request up to its integrity, where it leaves room for the integrity and the
fingerprint. -/
structure CheckRequest where
  transId : Vector UInt8 12
  userName : WireAttr
  others : List WireAttr
  userName_type : userName.attrType = USERNAME
  carried : ∀ a ∈ others, Carried a
  fits : (bytesOf (userName :: others)).length + 32 < 2 ^ 16

namespace CheckRequest

def header (c : CheckRequest) : Bytes :=
  setBeUint16 binding ++ (setBeUint16 ((bytesOf (c.userName :: c.others)).length + 32) ++
    (rawMagicCookie ++ c.transId.toList))

def front (c : CheckRequest) : Bytes := c.header ++ bytesOf (c.userName :: c.others)

/-- What is signed: the length is that of a message that ends at the integrity. -/
def signed (c : CheckRequest) : Bytes :=
  writeAt c.front 2 (setBeUint16 ((bytesOf (c.userName :: c.others)).length + 24))

variable (c : CheckRequest) (tag : { bs : Bytes // bs.length = 20 })

def integrity : WireAttr where
  attrType := MESSAGE_INTEGRITY
  value := tag.val
  padding := []
  type_lt := by decide
  aligned := by rw [tag.property]; rfl
  short := by decide

def fingerprint : WireAttr where
  attrType := FINGERPRINT
  value := setBeUint32 (crc32Xor (c.front ++ (integrity tag).bytes)).toNat
  padding := []
  type_lt := by decide
  aligned := by rw [length_setBeUint32]; rfl
  short := by decide

theorem length_ending :
    (bytesOf (c.userName :: c.others ++ [integrity tag, c.fingerprint tag])).length =
      (bytesOf (c.userName :: c.others)).length + 32 := by
  have hsplit : bytesOf (c.userName :: c.others ++ [integrity tag, c.fingerprint tag]) =
      bytesOf (c.userName :: c.others) ++ ((integrity tag).bytes ++ (c.fingerprint tag).bytes) := by
    simp [bytesOf]
  have hintegrity : (integrity tag).bytes.length = 24 := by
    rw [length_bytes]
    show 4 + (tag.val.length + 0) = 24
    rw [tag.property]
  have hfingerprint : (c.fingerprint tag).bytes.length = 8 := rfl
  rw [hsplit, List.length_append, List.length_append, hintegrity, hfingerprint]

/-- The request with `tag` as its integrity. -/
def wire : WireMsg where
  mth := binding
  transId := c.transId
  attrs := c.userName :: c.others ++ [integrity tag, c.fingerprint tag]
  mth_lt := by decide
  fits := by rw [length_ending]; exact c.fits

theorem header_wire : (c.wire tag).header = c.header := by
  show setBeUint16 binding ++ (setBeUint16 (bytesOf (c.wire tag).attrs).length ++ _) = _
  have hlength : (bytesOf (c.wire tag).attrs).length =
      (bytesOf (c.userName :: c.others)).length + 32 := c.length_ending tag
  rw [hlength]
  rfl

theorem length_front : c.front.length = 20 + (bytesOf (c.userName :: c.others)).length := by
  simp [front, header, rawMagicCookie]
  omega

end CheckRequest

/-! ## What the attributes do -/

variable {env : StunEnv} {st : ParseState}

theorem checkAll_append (front : Bytes) (as bs : List WireAttr) :
    checkAll env front st (as ++ bs) = (do
      let st' ← checkAll env front st as
      checkAll env (front ++ bytesOf as) st' bs) := by
  induction as generalizing front st with
  | nil =>
    have hnil : bytesOf [] = [] := rfl
    rw [hnil, List.append_nil]
    rfl
  | cons a as ih =>
    have hcons : bytesOf (a :: as) = a.bytes ++ bytesOf as := List.flatMap_cons
    show (a.check env front st >>= fun st' => checkAll env (front ++ a.bytes) st' (as ++ bs)) = _
    simp only [ih, checkAll, hcons, List.append_assoc, bind_assoc]

/-- A carried attribute sets its flag. -/
theorem check_carried {a : WireAttr} (h : Carried a) (front : Bytes) (st : ParseState) :
    a.check env front st = .ok { st with
      hasUseCandidate := st.hasUseCandidate || decide (a.attrType = USE_CANDIDATE)
      hasIceControlling := st.hasIceControlling || decide (a.attrType = ICE_CONTROLLING) } := by
  unfold WireAttr.check
  cases h with
  | priority isType =>
    have hcandidate : ¬PRIORITY = USE_CANDIDATE := by decide
    have hcontrolling : ¬PRIORITY = ICE_CONTROLLING := by decide
    rw [isType, decide_eq_false hcandidate, decide_eq_false hcontrolling, Bool.or_false,
      Bool.or_false]
    rfl
  | useCandidate isType empty =>
    rw [isType, empty]
    simp only [decide_true, Bool.or_true]
    have hne : ¬USE_CANDIDATE = ICE_CONTROLLING := by decide
    rw [decide_eq_false hne, Bool.or_false]
    rfl
  | iceControlling isType size =>
    rw [isType, size]
    have hne : ¬ICE_CONTROLLING = USE_CANDIDATE := by decide
    rw [decide_eq_false hne, Bool.or_false, decide_eq_true rfl, Bool.or_true]
    rfl
  | optional bit notFingerprint notControlling =>
    have hrequired : ¬(a.attrType &&& 0x8000 = 0 ∧ a.attrType ∉ knownRequiredAttribs) :=
      fun hboth => bit hboth.1
    have hname : a.attrType ≠ USERNAME := fun heq => bit (by rw [heq]; rfl)
    have hintegrity : a.attrType ≠ MESSAGE_INTEGRITY := fun heq => bit (by rw [heq]; rfl)
    have hcandidate : a.attrType ≠ USE_CANDIDATE := fun heq => bit (by rw [heq]; rfl)
    rw [failIf_of_not hrequired, if_neg hname, if_neg hintegrity, if_neg hcandidate,
      if_neg notControlling, if_neg notFingerprint, decide_eq_false hcandidate,
      decide_eq_false notControlling, Bool.or_false, Bool.or_false]
    rfl

/-- Whether some attribute is of a type. -/
def has (attrs : List WireAttr) (t : ℕ) : Bool := attrs.any fun a => a.attrType = t

theorem checkAll_carried {attrs : List WireAttr} (h : ∀ a ∈ attrs, Carried a) (front : Bytes)
    (st : ParseState) : checkAll env front st attrs = .ok { st with
      hasUseCandidate := st.hasUseCandidate || has attrs USE_CANDIDATE
      hasIceControlling := st.hasIceControlling || has attrs ICE_CONTROLLING } := by
  induction attrs generalizing front st with
  | nil => simp [checkAll, has]
  | cons a attrs ih =>
    obtain ⟨ha, hattrs⟩ := List.forall_mem_cons.mp h
    rw [checkAll, check_carried ha, ok_bind, ih hattrs]
    simp only [has, List.any_cons, Bool.or_assoc]

/-! ## What the request means -/

/-- The summary of a request of a connection that is stored. -/
def CheckRequest.summary (c : CheckRequest) (conn : Connection) : StunMsg where
  method := binding
  methodClass := 0
  remoteUfrag := conn.remoteUfrag
  remotePwd := conn.remotePwd
  remoteSctpPort := (conn.remoteSctpPort % 2 ^ 16).toNat
  localUfrag := conn.localUfrag
  localPwd := conn.localPwd
  localSctpPort := (conn.localSctpPort % 2 ^ 16).toNat
  hasFingerprint := false
  hasUseCandidate := has c.others USE_CANDIDATE
  hasIceControlling := has c.others ICE_CONTROLLING
  knownClient := true

theorem check_integrity {front : Bytes} (tag : { bs : Bytes // bs.length = 20 })
    (hname : st.userName ≠ []) : (CheckRequest.integrity tag).check env front st = (do
      failIf (env.hmacSha1 st.conn.localPwd (writeAt front 2 (setBeUint16 (front.length + 4))) ≠
        tag.val) .messageIntegrityMismatch
      return st) := by
  have hlen : ¬tag.val.length ≠ 20 := not_not.mpr tag.property
  have htype : ¬(MESSAGE_INTEGRITY &&& 0x8000 = 0 ∧ MESSAGE_INTEGRITY ∉ knownRequiredAttribs) := by
    decide
  have hother : MESSAGE_INTEGRITY ≠ USERNAME := by decide
  have hending : front.length + 4 + tag.val.length - 20 = front.length + 4 := by
    rw [tag.property, Nat.add_sub_cancel]
  unfold WireAttr.check CheckRequest.integrity
  simp only [failIf_of_not htype, ok_bind, if_neg hother, if_true, failIf_of_not hlen,
    failIf_of_not hname, hending]

theorem check_fingerprint (c : CheckRequest) (tag : { bs : Bytes // bs.length = 20 })
    (st : ParseState) :
    (c.fingerprint tag).check env (c.front ++ (CheckRequest.integrity tag).bytes) st = .ok st := by
  have hcrc : ¬setBeUint32 (crc32Xor (c.front ++ (CheckRequest.integrity tag).bytes)).toNat ≠
      (c.fingerprint tag).value := not_not.mpr rfl
  have hlen : ¬(c.fingerprint tag).value.length ≠ 4 := not_not.mpr rfl
  have htype : (c.fingerprint tag).attrType = FINGERPRINT := rfl
  have hrequired : ¬(FINGERPRINT &&& 0x8000 = 0 ∧ FINGERPRINT ∉ knownRequiredAttribs) := by decide
  have hname : FINGERPRINT ≠ USERNAME := by decide
  have hintegrity : FINGERPRINT ≠ MESSAGE_INTEGRITY := by decide
  have hcandidate : FINGERPRINT ≠ USE_CANDIDATE := by decide
  have hcontrolling : FINGERPRINT ≠ ICE_CONTROLLING := by decide
  unfold WireAttr.check
  rw [htype, failIf_of_not hrequired, if_neg hname, if_neg hintegrity, if_neg hcandidate,
    if_neg hcontrolling, if_pos rfl, failIf_of_not hlen, failIf_of_not hcrc]
  rfl

/-- A request with a stored user name means its connection, if it is signed with the password. -/
theorem meaning_wire (c : CheckRequest) (tag : { bs : Bytes // bs.length = 20 })
    {conn : Connection} (hconn : parseUsername env {} c.userName.value =
      .ok { userName := c.userName.value, conn := conn, knownClient := true })
    (hname : c.userName.value ≠ []) :
    (c.wire tag).meaning env =
      if env.hmacSha1 conn.localPwd c.signed = tag.val then .ok (c.summary conn)
      else .error .messageIntegrityMismatch := by
  have hbinding : (c.wire tag).method = binding ∧ (c.wire tag).methodClass = 0 := by
    show binding &&& _ = binding ∧ binding &&& _ = 0
    decide
  have hmethod : ¬(c.wire tag).method ∉ knownMethods := by
    rw [hbinding.1]
    decide
  have hfirst : c.userName.check env c.header {} =
      .ok { userName := c.userName.value, conn := conn, knownClient := true } := by
    unfold WireAttr.check
    rw [c.userName_type, if_pos rfl, hconn]
    rfl
  have hattrs : (c.wire tag).attrs =
      (c.userName :: c.others) ++ [CheckRequest.integrity tag, c.fingerprint tag] := rfl
  have hfront : c.header ++ bytesOf (c.userName :: c.others) = c.front := rfl
  have hending : writeAt c.front 2 (setBeUint16 (c.front.length + 4)) = c.signed := by
    rw [CheckRequest.signed, c.length_front]
    congr 2
    omega
  rw [WireMsg.meaning, failIf_of_not hmethod, ok_bind, c.header_wire, hattrs, checkAll_append,
    hfront, checkAll, hfirst, ok_bind, checkAll_carried c.carried, ok_bind, checkAll,
    check_integrity tag hname, hending]
  by_cases hsigned : env.hmacSha1 conn.localPwd c.signed = tag.val
  · rw [if_pos hsigned, failIf_of_not (not_not.mpr hsigned), ok_bind]
    simp only [pure_bind, checkAll, check_fingerprint, ok_bind, WireMsg.summary, hbinding,
      Bool.false_or]
    rfl
  · rw [if_neg hsigned, failIf_of hsigned]
    rfl

end Anon.Stun

namespace Anon.Webrtc

open Stun (CheckRequest)

variable {d : WebrtcDispatch} {ids : ℕ → SmallId} {offer : Json} {r : Reply}
variable {env : Stun.StunEnv} {sdp u p : Bytes}

/-- What the answer says is stored, where the ids for each kind of line are the same. -/
theorem stored_of_mem (h : parseOffer d ids offer = .ok r) (hsdp : sdpOf offer = some sdp)
    (hids : SameIds ids (lines sdp)) {k : Credential} {v : Bytes}
    (hv : k.label ++ v ∈ lines r.sdp) : v = k.stored r.conn ∧ v ≠ [] := by
  obtain ⟨sdp', st, hsdp', hloop, rfl⟩ := parseOffer_eq_ok h
  obtain rfl : sdp = sdp' := Option.some.inj (hsdp.symm.trans hsdp')
  have hanswered : Answered ids (lines sdp) st := answered_answerLines answered_init hloop
  have hmem := (hanswered.mem_lines k v).mp hv
  obtain ⟨m, hm, hvalue⟩ := mem_issued.mp hmem
  obtain ⟨n, hn, hstored⟩ := mem_issued.mp (hanswered.stored k v hmem)
  constructor
  · rw [hvalue, hids k m n hm hn]
    exact hstored.symm
  · rw [hvalue]
    exact List.ne_nil_of_length_pos (by simp [toHexString, asciiHex])

/-- The connection of an accepted offer, read back from the store. -/
theorem parseUsername_stored (h : parseOffer d ids offer = .ok r) (hne : r.conn.localUfrag ≠ [])
    (hlookup : env.lookup r.username = some r.res)
    (hparse : env.parseFromString r.res = some r.conn.toConnection) :
    Stun.parseUsername env {} r.username = .ok
      { userName := r.username, conn := r.conn.toConnection, knownClient := true } := by
  obtain ⟨hname, hcolon⟩ := username_of_parseOffer h
  have hsplit : r.username = r.conn.localUfrag ++ (58 :: r.conn.remoteUfrag) := by
    rw [hname, List.append_assoc]
    rfl
  have hlength : r.username.length =
      r.conn.localUfrag.length + (r.conn.remoteUfrag.length + 1) := by
    rw [hsplit, List.length_append, List.length_cons]
  have hfound : r.username.idxOf? (UInt8.ofNat 58) = some r.conn.localUfrag.length := by
    refine List.idxOf?_eq_some_iff.mpr ⟨by omega, ?_, fun j hj heq => ?_⟩
    · simp only [hsplit, List.getElem_append_right (Nat.le_refl _), Nat.sub_self,
        List.getElem_cons_zero]
      rfl
    · simp only [hsplit, List.getElem_append_left hj] at heq
      have hmem := List.getElem_mem hj
      rw [heq] at hmem
      exact hcolon hmem
  have hinside : ¬(r.conn.localUfrag.length = 0 ∨
      r.conn.localUfrag.length = r.username.length) := by
    have hpos := List.length_pos_iff.mpr hne
    omega
  unfold Stun.parseUsername
  simp only [hfound, hlookup, hparse, Stun.orReject, ok_bind, Stun.failIf_of_not hinside]
  rfl

/-- Where the credentials of each kind are drawn once, the binding request of a peer that has read
the answer is answered, and its address registered with the ports of both sides, exactly if it is
signed with the password of the answer. -/
theorem recvMsg_of_answer (h : parseOffer d ids offer = .ok r) (hsdp : sdpOf offer = some sdp)
    (hids : SameIds ids (lines sdp)) (hlookup : env.lookup r.username = some r.res)
    (hparse : env.parseFromString r.res = some r.conn.toConnection)
    (hu : ascii "a=ice-ufrag:" ++ u ∈ lines r.sdp) (hp : ascii "a=ice-pwd:" ++ p ∈ lines r.sdp)
    (c : CheckRequest) (hname : c.userName.value = u ++ ascii ":" ++ r.conn.remoteUfrag)
    (tag : { bs : Bytes // bs.length = 20 }) :
    Stun.recvMsg env (c.wire tag).bytes =
      if env.hmacSha1 p c.signed = tag.val then
        .registerAssociation (c.summary r.conn.toConnection)
      else .ignored := by
  obtain ⟨hufrag, hune⟩ : u = r.conn.localUfrag ∧ u ≠ [] :=
    stored_of_mem (k := .ufrag) h hsdp hids hu
  obtain ⟨hpwd, -⟩ : p = r.conn.localPwd ∧ p ≠ [] := stored_of_mem (k := .pwd) h hsdp hids hp
  have huser : c.userName.value = r.username := by
    rw [hname, (username_of_parseOffer h).1, hufrag]
  have hstored := parseUsername_stored h (hufrag ▸ hune) hlookup hparse
  have hnonempty : c.userName.value ≠ [] := by
    rw [hname]
    simp [hune]
  rw [← huser] at hstored
  have hmeaning := Stun.meaning_wire c tag hstored hnonempty
  have hfirst : (c.wire tag).bytes = UInt8.ofNat (Stun.binding / 2 ^ 8) ::
      (c.wire tag).bytes.tail := rfl
  have hle : UInt8.ofNat (Stun.binding / 2 ^ 8) ≤ 3 := by decide
  rw [hfirst, Stun.recvMsg, ← hfirst, if_pos hle, Stun.parseStunMsg_bytes, hmeaning, ← hpwd]
  by_cases hsigned : env.hmacSha1 p c.signed = tag.val
  · rw [if_pos hsigned, if_pos hsigned]
    rfl
  · rw [if_neg hsigned, if_neg hsigned]

/-- A request for the answer to `oneSection`, with a priority and the flag of a nominated pair. -/
def nominatingRequest : CheckRequest where
  transId := Vector.replicate 12 7
  userName := ⟨Stun.USERNAME, zeroUfrag ++ ascii ":x", [0, 0], by decide, by decide, by decide⟩
  others := [⟨Stun.PRIORITY, [1, 2, 3, 4], [], by decide, by decide, by decide⟩,
    ⟨Stun.USE_CANDIDATE, [], [], by decide, by decide, by decide⟩]
  userName_type := rfl
  carried a ha := by
    rcases List.mem_cons.mp ha with rfl | ha
    · exact .priority rfl
    · rw [List.mem_singleton.mp ha]
      exact .useCandidate rfl rfl
  fits := by decide

/-- The password of that answer. -/
def secondId : Bytes := toHexString (countedIds 1)

theorem recvMsg_of_answer_oneSection :
    Stun.recvMsg (storeAfter oneSection) (nominatingRequest.wire
      ⟨(secondId ++ nominatingRequest.signed ++ List.replicate 20 0).take 20, rfl⟩).bytes =
        .registerAssociation
          (nominatingRequest.summary (replyTo oneSection).conn.toConnection) := by
  have hcredentials : credentials (lines (oneSection.map (· ++ crlf)).flatten) =
      [.ufrag, .pwd] := by
    decide +kernel
  have hids : SameIds countedIds (lines (oneSection.map (· ++ crlf)).flatten) := by
    rw [SameIds, hcredentials]
    intro k m n hm hn
    have hlt := (List.getElem?_eq_some_iff.mp hm).1
    have hmn : m = n := (List.getElem?_inj hlt (by decide)).mp (hm.trans hn.symm)
    rw [hmn]
  have haccepted : parseOffer localDispatch countedIds (offerOf oneSection) =
      .ok (replyTo oneSection) :=
    parseOffer_offerOf (by decide +kernel) rfl (by decide +kernel) (by decide +kernel)
      (by decide +kernel) (by decide +kernel)
  have hlookup : (storeAfter oneSection).lookup (replyTo oneSection).username =
      some (replyTo oneSection).res := by
    show (if (replyTo oneSection).username = (replyTo oneSection).username then _ else none) = _
    exact if_pos rfl
  have hufrag : ascii "a=ice-ufrag:" ++ zeroUfrag ∈ lines (replyTo oneSection).sdp := by
    decide +kernel
  have hpwd : ascii "a=ice-pwd:" ++ secondId ∈ lines (replyTo oneSection).sdp := by
    decide +kernel
  have hrecv := recvMsg_of_answer haccepted rfl hids hlookup rfl hufrag hpwd nominatingRequest
    (by decide +kernel) ⟨(secondId ++ nominatingRequest.signed ++ List.replicate 20 0).take 20, rfl⟩
  rw [hrecv]
  exact if_pos rfl

end Anon.Webrtc

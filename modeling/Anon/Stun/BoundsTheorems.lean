import Anon.Stun.Authentication

/-!
# The STUN parser reads inside the message

Every read that the parser makes is at an offset that the checks before it have shown to be inside
the message, and each round of the attribute loop goes on at least four bytes further, whatever
the length field of the attribute is.

* `inside_parseAttributes`: the loop makes no read outside the message.
* `parseAttributes_eq`: the rounds of the loop are the attributes of the message, up to the first
  one that is refused.
* `staysInside_parseStunMsg`: the whole parser.
-/

namespace Anon.Stun

variable {env : StunEnv} {msg : Bytes} {st : ParseState}

/-- The computation makes no read outside the message. -/
def Inside {α : Type} (x : Except Rejected α) : Prop := x ≠ .error .outOfBounds

theorem inside_pure {α : Type} (v : α) : Inside (pure v) := nofun

theorem inside_bind {α β : Type} {x : Except Rejected α} {f : α → Except Rejected β}
    (hx : Inside x) (hf : ∀ v, Inside (f v)) : Inside (x >>= f) := bind_ne_error hx hf

/-- A read inside the message, followed by a computation that stays inside. -/
theorem inside_read {α β : Type} {o : Option α} {f : α → Except Rejected β} (ho : o.isSome)
    (hf : ∀ v, Inside (f v)) : Inside (inBounds o >>= f) := by
  obtain ⟨v, rfl⟩ := Option.isSome_iff_exists.mp ho
  exact hf v

/-- A value that may be missing, for another reason than a read. -/
theorem inside_orReject {α β : Type} {o : Option α} {e : Rejected} {f : α → Except Rejected β}
    (he : e ≠ .outOfBounds) (hf : ∀ v, Inside (f v)) : Inside (orReject e o >>= f) := by
  cases o with
  | none =>
    intro heq
    exact he (Except.error.inj heq)
  | some v => exact hf v

/-- Behind a check, the condition that it lets through holds. -/
theorem inside_failIf {β : Type} {c : Prop} [Decidable c] {e : Rejected}
    {f : PUnit → Except Rejected β} (he : e ≠ .outOfBounds) (hf : ¬c → Inside (f ⟨⟩)) :
    Inside (failIf c e >>= f) := by
  by_cases hc : c
  · rw [failIf, if_pos hc]
    intro heq
    exact he (Except.error.inj heq)
  · rw [failIf, if_neg hc]
    exact hf hc

/-! ## One attribute -/

theorem inside_parseUsername (value : Bytes) : Inside (parseUsername env st value) := by
  unfold parseUsername
  refine inside_orReject (by simp) ?_
  intro pos
  refine inside_failIf (by simp) ?_
  intro _
  refine inside_orReject (by simp) ?_
  intro res
  refine inside_orReject (by simp) ?_
  intro conn
  exact inside_pure _

variable {a : Attribute}

theorem inside_parseMessageIntegrity
    (hvalue : a.offset + attributeHeaderSize + a.attrLen ≤ msg.length) :
    Inside (parseMessageIntegrity env msg a st) := by
  unfold parseMessageIntegrity
  refine inside_failIf (by simp) ?_
  intro hlen
  refine inside_failIf (by simp) ?_
  intro _
  apply inside_read (isSome_readBytes (by omega))
  intro presented
  refine inside_failIf (by simp) ?_
  intro _
  exact inside_pure _

theorem inside_parseFingerprint
    (hvalue : a.offset + attributeHeaderSize + a.attrLen ≤ msg.length) :
    Inside (parseFingerprint msg a st) := by
  unfold parseFingerprint
  refine inside_failIf (by simp) ?_
  intro hlen
  apply inside_read (isSome_getBeUint32 (by omega))
  intro presentedCrc
  refine inside_failIf (by simp) ?_
  intro _
  exact inside_pure _

/-- The body of the loop reads inside the value of the attribute, once it is inside the message. -/
theorem inside_parseAttribute (env : StunEnv) (msg : Bytes) (st : ParseState) (a : Attribute) :
    Inside (parseAttribute env msg st a) := by
  unfold parseAttribute
  refine inside_failIf (by simp) ?_
  intro hend
  have hvalue := Nat.le_of_not_lt hend
  refine inside_failIf (by simp) ?_
  intro _
  split
  · apply inside_read (isSome_readBytes hvalue)
    exact inside_parseUsername
  · split
    · exact inside_parseMessageIntegrity hvalue
    · split
      · refine inside_failIf (by simp) ?_
        intro _
        exact inside_pure _
      · split
        · refine inside_failIf (by simp) ?_
          intro _
          exact inside_pure _
        · split
          · exact inside_parseFingerprint hvalue
          · exact inside_pure _

/-! ## The loop -/

/-- A header that is inside the message can be read. -/
theorem exists_header {ptr : ℕ} (h : ptr + attributeHeaderSize ≤ msg.length) :
    ∃ attrType attrLen, getBeUint16 msg ptr = some attrType ∧
      getBeUint16 msg (ptr + 2) = some attrLen := by
  rw [attributeHeaderSize] at h
  exact ⟨_, _, getBeUint16_of_le (by omega), getBeUint16_of_le (by omega)⟩

theorem inside_parseAttributes (ptr : ℕ) (st : ParseState) :
    Inside (parseAttributes env msg ptr st) := by
  induction ptr, st using parseAttributes.induct msg with
  | case1 ptr st hptr hshort =>
    rw [parseAttributes, if_pos hptr, if_pos hshort]
    intro h
    exact absurd h (by simp)
  | case2 ptr st hptr hlen ih =>
    obtain ⟨attrType, attrLen, htype, hattrLen⟩ := exists_header (Nat.le_of_not_lt hlen)
    rw [parseAttributes, if_pos hptr, if_neg hlen, htype, hattrLen]
    apply inside_bind (inside_parseAttribute env msg st _)
    intro st'
    exact ih attrType attrLen st'
  | case3 ptr st hptr =>
    rw [parseAttributes, if_neg hptr]
    intro h
    exact absurd h (by simp)

/-- Where a complete header is left, the attribute there is the next one. -/
theorem attributesFrom_eq_cons {ptr : ℕ} (h : ptr + attributeHeaderSize ≤ msg.length) :
    ∃ attrType attrLen, getBeUint16 msg ptr = some attrType ∧
      getBeUint16 msg (ptr + 2) = some attrLen ∧
      attributesFrom msg ptr =
        ⟨ptr, attrType, attrLen⟩ ::
          attributesFrom msg (Attribute.mk ptr attrType attrLen).next := by
  obtain ⟨attrType, attrLen, htype, hattrLen⟩ := exists_header h
  rw [attributeHeaderSize] at h
  refine ⟨attrType, attrLen, htype, hattrLen, ?_⟩
  rw [attributesFrom, if_pos (by omega), htype, hattrLen]

theorem attributesFrom_eq_nil {ptr : ℕ} (h : msg.length < ptr + attributeHeaderSize) :
    attributesFrom msg ptr = [] := by
  rw [attributeHeaderSize] at h
  rw [attributesFrom]
  split
  · have hcut : getBeUint16 msg (ptr + 2) = none := by
      unfold getBeUint16
      rw [List.getElem?_eq_none (by omega : msg.length ≤ ptr + 2 + 1)]
      cases msg[ptr + 2]? with
      | none => rfl
      | some b => rfl
    rw [hcut]
    cases getBeUint16 msg ptr with
    | none => rfl
    | some attrType => rfl
  · rfl

/-- Behind the last attribute from `ptr` on. -/
def endFrom (msg : Bytes) (ptr : ℕ) : ℕ := ((attributesFrom msg ptr).getLast?.map (·.next)).getD ptr

theorem endFrom_of_cons {ptr : ℕ} {a : Attribute}
    (h : attributesFrom msg ptr = a :: attributesFrom msg a.next) :
    endFrom msg ptr = endFrom msg a.next := by
  unfold endFrom
  rw [h, List.getLast?_cons]
  cases (attributesFrom msg a.next).getLast? with
  | none => rfl
  | some b => rfl

/-- The attributes come one behind the other, and each takes up four bytes at least. -/
theorem attributesFrom_bounds (n : ℕ) : ∀ ptr : ℕ, msg.length - ptr < n →
    (∀ a ∈ attributesFrom msg ptr, ptr ≤ a.offset ∧
      a.offset + attributeHeaderSize ≤ msg.length) ∧
    attributeHeaderSize * (attributesFrom msg ptr).length ≤ msg.length - ptr := by
  induction n with
  | zero =>
    intro ptr hn
    exact absurd hn (Nat.not_lt_zero _)
  | succ n ih =>
    intro ptr hn
    by_cases hheader : ptr + attributeHeaderSize ≤ msg.length
    · obtain ⟨attrType, attrLen, -, -, hcons⟩ := attributesFrom_eq_cons hheader
      -- also where the mask makes the length of the value zero
      have hnext : ptr + attributeHeaderSize ≤ (Attribute.mk ptr attrType attrLen).next := by
        show _ ≤ ptr + (attributeHeaderSize + ((attrLen + 3) &&& 0x0fffc))
        omega
      rw [attributeHeaderSize] at hheader hnext
      obtain ⟨hrest, hlength⟩ := ih (Attribute.mk ptr attrType attrLen).next (by omega)
      rw [hcons]
      constructor
      · intro a ha
        rcases List.mem_cons.mp ha with rfl | ha
        · exact ⟨le_rfl, hheader⟩
        · have hbounds := hrest a ha
          omega
      · rw [List.length_cons, attributeHeaderSize]
        rw [attributeHeaderSize] at hlength
        omega
    · rw [attributesFrom_eq_nil (Nat.lt_of_not_le hheader)]
      exact ⟨fun a ha => absurd ha List.not_mem_nil, Nat.zero_le _⟩

/-- The rounds of the loop are the attributes of the message, up to the first that is refused; at
the end nothing may be left. -/
theorem parseAttributes_eq (ptr : ℕ) (st : ParseState) : parseAttributes env msg ptr st =
    (attributesFrom msg ptr).foldlM (parseAttribute env msg) st >>= fun st' =>
      failIf (endFrom msg ptr < msg.length) .invalidAttributeData >>= fun _ => pure st' := by
  induction ptr, st using parseAttributes.induct msg with
  | case1 ptr st hptr hshort =>
    rw [parseAttributes, if_pos hptr, if_pos hshort, endFrom, attributesFrom_eq_nil hshort]
    show _ = (failIf (ptr < msg.length) _ >>= _)
    rw [failIf, if_pos hptr]
    rfl
  | case2 ptr st hptr hlen ih =>
    obtain ⟨attrType, attrLen, htype, hattrLen, hcons⟩ :=
      attributesFrom_eq_cons (Nat.le_of_not_lt hlen)
    rw [parseAttributes, if_pos hptr, if_neg hlen, htype, hattrLen, endFrom_of_cons hcons, hcons,
      List.foldlM_cons, bind_assoc]
    show (parseAttribute env msg st _ >>= _) = _
    congr 1
    funext st'
    exact ih attrType attrLen st'
  | case3 ptr st hptr =>
    have hshort : msg.length < ptr + attributeHeaderSize := by
      rw [attributeHeaderSize]
      omega
    rw [parseAttributes, if_neg hptr, endFrom, attributesFrom_eq_nil hshort]
    show _ = (failIf (ptr < msg.length) _ >>= _)
    rw [failIf, if_neg hptr]
    rfl

/-! ## The whole message -/

theorem inside_parseStunMsg (env : StunEnv) (msg : Bytes) : Inside (parseStunMsg env msg) := by
  unfold parseStunMsg
  refine inside_failIf (by simp) ?_
  intro hlen
  apply inside_read (isSome_getElem (by omega))
  intro first
  refine inside_failIf (by simp) ?_
  intro _
  apply inside_read (isSome_readBytes (by omega))
  intro cookie
  refine inside_failIf (by simp) ?_
  intro _
  apply inside_read (isSome_getBeUint16 (by omega))
  intro msgSize
  refine inside_failIf (by simp) ?_
  intro _
  apply inside_read (isSome_getBeUint16 (by omega))
  intro mth
  refine inside_failIf (by simp) ?_
  intro _
  apply inside_bind (inside_parseAttributes stunMsgHeaderSize {})
  intro st
  exact inside_pure _

/-- The parser makes no read outside the message, and the attribute loop makes one round at most
for each four bytes behind the header of the message. -/
structure StaysInside (env : StunEnv) (msg : Bytes) : Prop where
  reads : Inside (parseStunMsg env msg)
  /-- The rounds of the loop are the attributes of the message. -/
  loop : ∀ st, parseAttributes env msg stunMsgHeaderSize st =
    (attributes msg).foldlM (parseAttribute env msg) st >>= fun st' =>
      failIf (endFrom msg stunMsgHeaderSize < msg.length) .invalidAttributeData >>= fun _ =>
        pure st'
  /-- Their headers, and what an integrity check or a fingerprint covers, are inside. -/
  headers : ∀ a ∈ attributes msg, stunMsgHeaderSize ≤ a.offset ∧
    a.offset + attributeHeaderSize ≤ msg.length
  rounds : attributeHeaderSize * (attributes msg).length ≤ msg.length - stunMsgHeaderSize

theorem staysInside_parseStunMsg (env : StunEnv) (msg : Bytes) : StaysInside env msg := by
  have hlt : msg.length - stunMsgHeaderSize < msg.length - stunMsgHeaderSize + 1 :=
    Nat.lt_succ_self _
  obtain ⟨hheaders, hrounds⟩ := attributesFrom_bounds _ stunMsgHeaderSize hlt
  exact ⟨inside_parseStunMsg env msg, parseAttributes_eq stunMsgHeaderSize, hheaders, hrounds⟩

/-- A length field of 65533 is padded to zero, and the loop goes on behind the header. -/
example : (Attribute.mk 20 FINGERPRINT 65533).next = 24 := by decide

end Anon.Stun

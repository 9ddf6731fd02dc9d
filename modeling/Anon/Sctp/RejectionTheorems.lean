import Anon.Sctp.Chunks

/-!
# What a rejected packet leaves behind

The chunks of a packet are handled while it is still being checked, so what they did stays when
something later in the packet is rejected.

* `Association.Untouched`: the chunks that leave an association alone.
* `doChunk_or_grows`: any other chunk makes the account of the association grow.
* `rejected_iff`: the association is as before exactly if all handled chunks leave it alone, and
  so does the INIT that is rejected, if there is one.
-/

namespace Anon.Sctp

variable {a a' : Association} {c : Chunk} {msg : Bytes}

/-- The chunk leaves the association alone: it is none that is answered, opens no data channel,
and is no string on an open channel with a TSN behind the last complete one. -/
def Association.Untouched (a : Association) (c : Chunk) : Prop :=
  c.chunkType ≠ CHNK_HEARTBEAT ∧ c.chunkType ≠ CHNK_COOKIE_ECHO ∧ c.isAcceptedInit = false ∧
    c.isOpen = false ∧
    (c.isString = true → a.hasStream c.streamId = true → ¬a.lastCompleteTsn < c.tsn)

/-- The INIT to reject finds what its rejection leaves behind: a verification tag of zero, and the
TSN in front of its initial TSN as the last complete one, if it is long enough to have one. -/
def Association.UntouchedByInit (a : Association) (c : Chunk) : Prop :=
  a.verificationTag = 0 ∧
    (kInitChunkHeaderSize ≤ c.bytes.length → a.lastCompleteTsn = c.initialTsn - 1)

/-- Every chunk of the packet up to the first rejected INIT leaves the association alone. -/
def Association.UntouchedBy (a : Association) (msg : Bytes) : Prop :=
  (∀ c ∈ handled msg, a.Untouched c) ∧ ∀ c ∈ rejectedInit msg, a.UntouchedByInit c

/-! ## One chunk -/

/-- The account of an association, which chunks can only add to. -/
def Association.account (a : Association) : ℕ :=
  a.chunks.length + a.duplicateTsns.length + a.tsns.val.length

theorem length_insertTsn {t : Tsn} {ts : List Tsn} (h : t ∉ ts) :
    (insertTsn t ts).length = ts.length + 1 := by
  induction ts with
  | nil => rfl
  | cons u us ih =>
    rw [List.mem_cons, not_or] at h
    rw [insertTsn]
    split
    · rfl
    · rw [if_neg h.1, List.length_cons, ih h.2, List.length_cons]

theorem length_le_insertTsn (t : Tsn) (ts : List Tsn) :
    ts.length ≤ (insertTsn t ts).length := by
  induction ts with
  | nil => exact Nat.zero_le _
  | cons u us ih =>
    rw [insertTsn]
    split
    · exact Nat.le_succ _
    · split
      · exact Nat.le_refl _
      · exact Nat.succ_le_succ ih

theorem account_emplaceStream {id : ℕ} {stream : DataChannelStream} :
    (a.emplaceStream id stream).account = a.account := by
  unfold Association.emplaceStream
  split <;> rfl

/-- A recorded TSN or a chunk for the answer adds to the account. -/
theorem account_addChunk (tsn : Tsn) (chunk : Bytes) :
    a.account ≤ (a.addChunk tsn chunk).account ∧
      (chunk ≠ [] ∨ a.lastCompleteTsn < tsn → a.account < (a.addChunk tsn chunk).account) := by
  unfold Association.addChunk Association.account
  by_cases hlt : a.lastCompleteTsn < tsn
  · simp only [hlt, if_true]
    by_cases hmem : tsn ∈ a.tsns
    · simp only [hmem, if_true]
      by_cases hchunk : chunk = [] <;> simp [hchunk]
      omega
    · have hlen : (a.tsns.insert tsn).val.length = a.tsns.val.length + 1 := length_insertTsn hmem
      simp only [hmem, if_false]
      by_cases hchunk : chunk = [] <;> simp [hchunk, hlen]
      omega
  · simp only [hlt, if_false]
    by_cases hchunk : chunk = [] <;> simp [hchunk]

/-- A chunk leaves the association alone or adds to its account. -/
theorem doChunk_or_grows (h : a.doChunk c.chunkType c.bytes = .ok a') :
    (a.Untouched c → a' = a) ∧ (¬a.Untouched c → a.account < a'.account) := by
  cases handles_doChunk h with
  | opens hopen =>
    refine ⟨fun hun => absurd hun.2.2.2.1 (by simp [hopen]), fun _ => ?_⟩
    rw [← account_emplaceStream (a := a)]
    exact (account_addChunk _ _).2 (Or.inl (by simp))
  | string hstring hstream =>
    -- a string counts if its TSN is behind the last complete one
    by_cases hlt : a.lastCompleteTsn < c.tsn
    · refine ⟨fun hun => absurd hlt (hun.2.2.2.2 hstring hstream), fun _ => ?_⟩
      exact (account_addChunk _ _).2 (Or.inr hlt)
    · have hsame : a.addChunk c.tsn [] = a := by simp [Association.addChunk, hlt]
      refine ⟨fun _ => hsame, fun hun => absurd ?_ hun⟩
      obtain ⟨hheartbeat, hcookie, hinit⟩ :=
        other_of_data (chunkType_of_isData (isData_of_isString hstring))
      exact ⟨hheartbeat, hcookie, hinit, not_isOpen_of_isString hstring, fun _ _ => hlt⟩
  | init hinit =>
    refine ⟨fun hun => absurd hun.2.2.1 (by simp [hinit]), fun _ => ?_⟩
    have hgrow := length_le_insertTsn c.initialTsn a.tsns.val
    show _ < (a.chunks ++ [_]).length + a.duplicateTsns.length + (insertTsn _ _).length
    rw [List.length_append, List.length_singleton, Association.account]
    omega
  | heartbeat htype =>
    refine ⟨fun hun => absurd htype hun.1, fun _ => ?_⟩
    simp only [Association.account, List.length_append, List.length_singleton]
    omega
  | cookieEcho htype =>
    refine ⟨fun hun => absurd htype hun.2.1, fun _ => ?_⟩
    simp only [Association.account, List.length_append, List.length_singleton]
    omega
  | nothing hopen hstring hinit hheartbeat hcookie =>
    refine ⟨fun _ => rfl, fun hun => absurd ?_ hun⟩
    refine ⟨hheartbeat, hcookie, hinit, hopen, ?_⟩
    intro hstr hstream
    rw [hstring hstr] at hstream
    exact absurd hstream (by simp)

/-! ## Packets -/

/-- The chunks leave the association alone all together, or its account has grown. -/
theorem runChunks_or_grows {cs : List Chunk} (h : runChunks a cs = .ok a') :
    ((∀ c ∈ cs, a.Untouched c) → a' = a) ∧
      ((∃ c ∈ cs, ¬a.Untouched c) → a.account < a'.account) := by
  induction cs generalizing a with
  | nil =>
    refine ⟨fun _ => (Except.ok.inj h).symm, ?_⟩
    rintro ⟨c, hc, -⟩
    exact absurd hc List.not_mem_nil
  | cons c cs ih =>
    rw [runChunks_cons] at h
    obtain ⟨a1, ha1, h⟩ := bind_eq_ok.mp h
    obtain ⟨hsame, hgrows⟩ := doChunk_or_grows ha1
    obtain ⟨hrest, hrestGrows⟩ := ih h
    by_cases hun : a.Untouched c
    · -- the rest starts from the same association
      rw [hsame hun] at hrest hrestGrows
      refine ⟨?_, ?_⟩
      · intro hall
        exact hrest fun d hd => hall d (List.mem_cons_of_mem c hd)
      · rintro ⟨d, hd, hnot⟩
        rcases List.mem_cons.mp hd with rfl | hd
        · exact absurd hun hnot
        · exact hrestGrows ⟨d, hd, hnot⟩
    · have hmono : a1.account ≤ a'.account := by
        by_cases hall : ∀ d ∈ cs, a1.Untouched d
        · rw [hrest hall]
        · push Not at hall
          exact (hrestGrows hall).le
      have hlt := hgrows hun
      refine ⟨fun hall => absurd (hall c List.mem_cons_self) hun, fun _ => ?_⟩
      omega

/-- A rejected packet leaves the association as it was exactly if all its chunks up to the one
that is rejected leave the association alone. -/
theorem rejected_iff (h : a.parseSctpChunks msg kSctpCommonHeaderSize = .error (.rejected a')) :
    a' = a ↔ a.UntouchedBy msg := by
  have hends := ends_parseSctpChunks a msg
  rw [h] at hends
  cases hends with
  | incomplete hnone hincomplete hrun =>
    obtain ⟨hsame, hgrows⟩ := runChunks_or_grows hrun
    rw [Association.UntouchedBy, hnone]
    refine ⟨?_, fun hun => hsame hun.1⟩
    intro heq
    refine ⟨?_, fun c hc => absurd hc (by simp)⟩
    by_contra hnot
    push Not at hnot
    have hlt := hgrows hnot
    rw [heq] at hlt
    omega
  | @init a1 _ c hsome hrun hrej =>
    obtain ⟨hsame, hgrows⟩ := runChunks_or_grows hrun
    have ha' := doChunk_eq_rejected hrej
    rw [Association.UntouchedBy, hsome]
    refine ⟨?_, ?_⟩
    · intro heq
      -- the rejected INIT adds nothing to the account
      have hacc : a1.account = a.account := by
        rw [← heq, ha']
        rfl
      have hun : ∀ d ∈ handled msg, a.Untouched d := by
        by_contra hnot
        push Not at hnot
        have hlt := hgrows hnot
        omega
      rw [hsame hun, heq] at ha'
      refine ⟨hun, ?_⟩
      intro d hd
      rw [← Option.mem_some_iff.mp hd]
      refine ⟨congrArg Association.verificationTag ha', ?_⟩
      intro hlen
      have hlast := congrArg Association.lastCompleteTsn ha'
      rwa [if_pos hlen] at hlast
    · rintro ⟨hun, hinit⟩
      obtain ⟨htag, hlast⟩ := hinit c rfl
      rw [ha', hsame hun]
      split
      · next hlen => rw [← hlast hlen, ← htag]
      · rw [← htag]

/-! ## Two packets -/

/-- A HEARTBEAT chunk without information. -/
def heartbeatChunk : Bytes := [CHNK_HEARTBEAT, 0] ++ setBeUint16 4

/-- The front of a chunk whose length field says eight bytes. -/
def partialChunk : Bytes := [CHNK_SACK, 0] ++ setBeUint16 8

/-- The association that a rejected packet leaves behind. -/
def leftBehind : Except Stop Association → Option Association
  | .error (.rejected a) => some a
  | _ => none

theorem leftBehind_eq_some {r : Except Stop Association} (h : leftBehind r = some a) :
    r = .error (.rejected a) := by
  unfold leftBehind at h
  split at h
  · rw [Option.some.inj h]
  · exact absurd h (by simp)

/-- A packet with nothing but a partial chunk. -/
theorem rejected_iff_partial : ∃ a',
    (Association.fresh 5000 5000).parseSctpChunks (packetOf partialChunk) kSctpCommonHeaderSize =
      .error (.rejected a') ∧
    (a' = Association.fresh 5000 5000 ↔
      (Association.fresh 5000 5000).UntouchedBy (packetOf partialChunk)) := by
  have hsome : (leftBehind ((Association.fresh 5000 5000).parseSctpChunks (packetOf partialChunk)
      kSctpCommonHeaderSize)).isSome = true := by
    decide +kernel
  obtain ⟨a', ha'⟩ := Option.isSome_iff_exists.mp hsome
  have hparse := leftBehind_eq_some ha'
  exact ⟨a', hparse, rejected_iff hparse⟩

/-- The answer to a HEARTBEAT stays behind when the chunk after it is not complete. -/
theorem heartbeat_outlives_rejection : ∃ a',
    (Association.fresh 5000 5000).parseSctpChunks (packetOf (heartbeatChunk ++ partialChunk))
      kSctpCommonHeaderSize = .error (.rejected a') ∧ a' ≠ Association.fresh 5000 5000 := by
  have hsome : (leftBehind ((Association.fresh 5000 5000).parseSctpChunks
      (packetOf (heartbeatChunk ++ partialChunk)) kSctpCommonHeaderSize)).any
        (fun a => a.chunks.length == 1) = true := by
    decide +kernel
  obtain ⟨a', ha', hone⟩ := (Option.any_eq_true _ _).mp hsome
  refine ⟨a', leftBehind_eq_some ha', ?_⟩
  intro h
  rw [h] at hone
  exact absurd hone (by decide)

end Anon.Sctp

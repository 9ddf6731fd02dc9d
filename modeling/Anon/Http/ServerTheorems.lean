import Anon.Http.Server

/-!
# Where the next request is parsed

* `Message`, `pipelined`: the requests that a peer sends back to back.
* `ConsumesOneBlock`: the external parser stops behind a header block.
* `Handler.Within`: a handler asks for no more than its body.
* `Framed`: the loop parses, and the handlers are called with, the requests that were sent.
* `BodyRead`: the step is not the return of a handler that leaves some of its body.
* `framed`: the runs with such steps only.
* `drains_bodyAsJson`: which bodies `body_as_json` reads.
-/

namespace Anon.Http

/-- A request as it is sent: the header block, which the parser reads as `request`, and the body. -/
structure Message where
  block : Bytes
  request : Request
  body : Bytes
  block_ne : block ≠ []
  hasContentLength : request.hasContentLength = true
  bodyLength_eq : request.bodyLength = body.length

/-- Requests sent back to back. -/
def pipelined (reqs : List Message) : Bytes := reqs.flatMap fun m => m.block ++ m.body

theorem pipelined_cons (m : Message) (reqs : List Message) :
    pipelined (m :: reqs) = m.block ++ (m.body ++ pipelined reqs) := by
  rw [pipelined, List.flatMap_cons, List.append_assoc]
  rfl

variable {σ : Type*} {P : HttpParser σ} {exec : Request → Handler} {reqs : List Message}
  {mid : σ → Bytes → Prop} {c : Connection σ} {k len : ℕ}

/-- The parser consumes exactly one header block. `mid s p` says that since `http_parser_init` it
has been fed the bytes `p` of a block. -/
structure ConsumesOneBlock (P : HttpParser σ) (reqs : List Message) (mid : σ → Bytes → Prop) :
    Prop where
  init : mid P.init []
  inside : ∀ m ∈ reqs, ∀ s p d more, mid s p → m.block = p ++ (d ++ more) → d ≠ [] → more ≠ [] →
    ∃ s', P.execute s d = (s', d.length, none) ∧ mid s' (p ++ d)
  complete : ∀ m ∈ reqs, ∀ s p d more, mid s p → m.block = p ++ d → d ≠ [] →
    ∃ s', P.execute s (d ++ more) = (s', d.length, some m.request)

/-- With `n` bytes of its body left, the handler reads none behind it. -/
def Handler.Within (n : ℕ) : Handler → Prop
  | .ret => True
  | .throw _ => True
  | .read len next failed =>
    len ≤ n ∧ (∀ bs : Bytes, bs.length ≤ len → (next bs).Within (n - bs.length)) ∧
      ∀ e, (failed e).Within n
  | .respond _ next failed => next.Within n ∧ ∀ e, (failed e).Within n

/-- What has been sent and not been parsed or read. -/
def Connection.unread (c : Connection σ) : Bytes := c.buffered ++ c.rest

/-- The server has called handlers with the first of the requests that were sent, and with no
others. It stands in the header block of the next request, at its start if the parser is fresh, or
in the body of the last one. -/
inductive Framed (reqs : List Message) (mid : σ → Bytes → Prop) (c : Connection σ) : Prop
  | parsing (done more : List Message) (p : Bytes) (hsplit : reqs = done ++ more)
      (hserved : c.served = done.map Message.request) (hphase : c.phase = .parsing)
      (hbsp : c.bsp ≤ c.buf.length)
      (hmid : mid c.parser p) (hrest : p ++ c.unread = pipelined more)
      (hshort : ∀ m ∈ more.head?, p.length < m.block.length)
  | handling (done more : List Message) (m : Message) (before after : Bytes) (h : Handler)
      (hsplit : reqs = done ++ m :: more)
      (hserved : c.served = (done ++ [m]).map Message.request)
      (hphase : c.phase = .handling m.request before.length h) (hbsp : c.bsp ≤ c.buf.length)
      (hbody : m.body = before ++ after) (hrest : c.unread = after ++ pipelined more)
      (hwithin : h.Within after.length)
  | closed (done more : List Message) (hsplit : reqs = done ++ more)
      (hserved : c.served = done.map Message.request) (hphase : c.phase = .closed)

/-- If the handler returns next and the connection is kept alive, it has read all of its body. -/
def ReturnsRead (keepAlive : Bool) : ServerPhase → Prop
  | .handling request taken .ret => keepAlive = true → taken = request.bodyLength
  | _ => True

/-- The step is not the return of a handler, on a connection that is kept alive, that has not read
all of its body. -/
def BodyRead (P : HttpParser σ) (c : Connection σ) : ServerAction → Prop
  | .handle _ => ReturnsRead (P.shouldKeepAlive c.parser) c.phase
  | _ => True

instance instDecidableReturnsRead (keepAlive : Bool) (phase : ServerPhase) :
    Decidable (ReturnsRead keepAlive phase) :=
  match phase with
  | .handling request taken .ret =>
    inferInstanceAs (Decidable (keepAlive = true → taken = request.bodyLength))
  | .handling _ _ (.throw _) | .handling _ _ (.read _ _ _) => isTrue True.intro
  | .handling _ _ (.respond _ _ _) | .parsing | .closed => isTrue True.intro

instance instDecidableBodyRead (P : HttpParser σ) (c : Connection σ) (a : ServerAction) :
    Decidable (BodyRead P c a) :=
  match a with
  | .handle _ => instDecidableReturnsRead (P.shouldKeepAlive c.parser) c.phase
  | .parse _ | .fail _ => isTrue True.intro

/-! ## The buffer -/

/-- The shorter of two beginnings of the same bytes is a beginning of the other. -/
theorem exists_append_of_le {a b x y : Bytes} (h : a ++ b = x ++ y) (hle : a.length ≤ x.length) :
    ∃ z, x = a ++ z ∧ b = z ++ y := by
  rcases List.append_eq_append_iff.mp h with ⟨z, hx, hb⟩ | ⟨z, ha, hy⟩
  · exact ⟨z, hx, hb⟩
  · have hlen := congrArg List.length ha
    rw [List.length_append] at hlen
    have hz : z = [] := List.length_eq_zero_iff.mp (by omega)
    subst hz
    rw [List.append_nil] at ha
    exact ⟨[], by rw [ha, List.append_nil], hy.symm⟩

theorem unread_fill (c : Connection σ) (k : ℕ) : (c.fill k).unread = c.unread := by
  unfold Connection.fill
  split
  next hempty =>
    have hnil : c.buffered = [] := by rw [Connection.buffered, hempty, List.drop_length]
    show (c.buf ++ c.rest.take k).drop c.bsp ++ c.rest.drop k = c.buffered ++ c.rest
    rw [hempty, List.drop_left, List.take_append_drop, hnil, List.nil_append]
  next => rfl

theorem bsp_fill (hbsp : c.bsp ≤ c.buf.length) (k : ℕ) :
    (c.fill k).bsp ≤ (c.fill k).buf.length := by
  unfold Connection.fill
  split
  next =>
    show c.bsp ≤ (c.buf ++ c.rest.take k).length
    rw [List.length_append]
    omega
  next => exact hbsp

theorem buffered_fill (hbsp : c.bsp ≤ c.buf.length) (hk : c.Delivers len k) :
    (c.fill k).buffered ≠ [] := by
  intro hnil
  have hlen := congrArg List.length hnil
  unfold Connection.fill at hlen
  split at hlen
  next hempty =>
    obtain ⟨hpos, -, hle⟩ := hk hempty
    simp only [Connection.buffered, List.length_drop, List.length_append, List.length_take,
      List.length_nil] at hlen
    omega
  next hne =>
    simp only [Connection.buffered, List.length_drop, List.length_nil] at hlen
    omega

/-- A read delivers the next bytes. -/
theorem unread_pipeRead (c : Connection σ) (len k : ℕ) :
    (c.pipeRead len k).1 ++ (c.pipeRead len k).2.unread = c.unread := by
  unfold Connection.pipeRead
  split
  next =>
    have hdrop : c.buf.drop (c.bsp + min len c.buffered.length) = c.buffered.drop len := by
      rw [← List.drop_drop]
      show c.buffered.drop (min len c.buffered.length) = c.buffered.drop len
      by_cases hle : len ≤ c.buffered.length
      · rw [Nat.min_eq_left hle]
      · rw [Nat.min_eq_right (by omega), List.drop_length, List.drop_eq_nil_of_le (by omega)]
    show c.buffered.take len ++ (c.buf.drop (c.bsp + min len c.buffered.length) ++ c.rest) = _
    rw [hdrop, ← List.append_assoc, List.take_append_drop]
    rfl
  next hempty =>
    have hnil : c.buffered = [] := List.drop_eq_nil_of_le (by omega)
    show c.rest.take k ++ (c.buffered ++ c.rest.drop k) = c.buffered ++ c.rest
    rw [hnil, List.nil_append, List.nil_append, List.take_append_drop]

theorem length_pipeRead (hk : c.Delivers len k) : (c.pipeRead len k).1.length ≤ len := by
  unfold Connection.pipeRead
  split
  next => exact List.length_take_le _ _
  next hempty =>
    have hle := (hk (not_not.mp hempty)).2.1
    exact Nat.le_trans (List.length_take_le _ _) hle

theorem bsp_pipeRead (hbsp : c.bsp ≤ c.buf.length) (len k : ℕ) :
    (c.pipeRead len k).2.bsp ≤ (c.pipeRead len k).2.buf.length := by
  unfold Connection.pipeRead
  split
  next =>
    show c.bsp + min len (c.buf.drop c.bsp).length ≤ c.buf.length
    rw [List.length_drop]
    omega
  next => exact hbsp

theorem served_pipeRead (c : Connection σ) (len k : ℕ) :
    (c.pipeRead len k).2.served = c.served := by
  unfold Connection.pipeRead
  split <;> rfl

theorem served_fill (c : Connection σ) (k : ℕ) :
    (c.fill k).served = c.served ∧ (c.fill k).parser = c.parser ∧ (c.fill k).phase = c.phase := by
  unfold Connection.fill
  split <;> exact ⟨rfl, rfl, rfl⟩

/-! ## The steps of a connection -/

/-- A round of the loop reads on in the header block, or reads the end of it and calls the
handler. -/
theorem framed_parse (hP : ConsumesOneBlock P reqs mid)
    (hwithin : ∀ m ∈ reqs, (exec m.request).Within m.body.length)
    (hphase : c.phase = .parsing) (hc : Framed reqs mid c) (hk : c.Delivers len k) :
    Framed reqs mid (c.parse P exec k) := by
  cases hc with
  | handling done more m before after h _ _ hphase' =>
    exact absurd (hphase'.symm.trans hphase) ServerPhase.noConfusion
  | closed done more _ _ hphase' =>
    exact absurd (hphase'.symm.trans hphase) ServerPhase.noConfusion
  | parsing done more p hsplit hserved _ hbsp hmid hrest hshort =>
    obtain ⟨hserved', hparser, hphase'⟩ := served_fill c k
    have hne := buffered_fill hbsp hk
    have hbsp' := bsp_fill hbsp k
    rw [← unread_fill c k, Connection.unread] at hrest
    unfold Connection.parse
    revert hbsp' hne hrest
    -- the connection after the read
    generalize c.fill k = r at hserved' hparser hphase' ⊢
    intro hrest hne hbsp'
    rw [← hparser] at hmid
    cases more with
    | nil =>
      have hnil := congrArg List.length hrest
      rw [List.length_append, List.length_append] at hnil
      have hpos := List.length_pos_iff.mpr hne
      simp only [pipelined, List.flatMap_nil, List.length_nil] at hnil
      omega
    | cons m more =>
      have hm : m ∈ reqs := by
        rw [hsplit]
        exact List.mem_append_right _ List.mem_cons_self
      have hlt : p.length < m.block.length := hshort m rfl
      rw [pipelined_cons, ← List.append_assoc] at hrest
      by_cases hinside : (p ++ r.buffered).length < m.block.length
      · -- all that was read belongs to the header block
        obtain ⟨x, hx, hrest'⟩ := exists_append_of_le hrest (Nat.le_of_lt hinside)
        have hxne : x ≠ [] := by
          intro hnil
          rw [hx, hnil, List.append_nil] at hinside
          exact Nat.lt_irrefl _ hinside
        rw [List.append_assoc] at hx
        obtain ⟨s', hexec, hmid'⟩ := hP.inside m hm r.parser p r.buffered x hmid hx hne hxne
        simp only [hexec]
        have hend : r.bsp + r.buffered.length = r.buf.length := by
          rw [Connection.buffered, List.length_drop]
          omega
        rw [if_neg (not_not.mpr hend)]
        split
        next => exact .closed done (m :: more) hsplit (hserved'.trans hserved) rfl
        next =>
          refine .parsing done (m :: more) (p ++ r.buffered) hsplit (hserved'.trans hserved)
            (hphase'.trans hphase) (Nat.le_of_eq hend) hmid' ?_ ?_
          · show (p ++ r.buffered) ++ (r.buf.drop (r.bsp + r.buffered.length) ++ r.rest) = _
            rw [hend, List.drop_length, List.nil_append, hrest, pipelined_cons]
          · intro m' hm'
            rw [← Option.some.inj hm']
            exact hinside
      · -- the block ends in what was read
        obtain ⟨d, hblock, -⟩ := exists_append_of_le (List.append_assoc _ _ _ ▸ hrest)
          (Nat.le_of_lt hlt)
        have hdne : d ≠ [] := by
          intro hnil
          rw [hblock, hnil, List.append_nil] at hlt
          exact Nat.lt_irrefl _ hlt
        have hlonger : m.block.length ≤ (p ++ r.buffered).length := by omega
        obtain ⟨z, hz, hbody⟩ := exists_append_of_le hrest.symm hlonger
        rw [hblock, List.append_assoc] at hz
        have hbuf : r.buffered = d ++ z := List.append_cancel_left hz
        obtain ⟨s', hexec⟩ := hP.complete m hm r.parser p d z hmid hblock hdne
        rw [← hbuf] at hexec
        simp only [hexec]
        have hserved'' : r.served ++ [m.request] = (done ++ [m]).map Message.request := by
          rw [hserved', hserved, List.map_append]
          rfl
        split
        next =>
          -- the connection goes to the upgrade handler
          exact .closed done (m :: more) hsplit (hserved'.trans hserved) rfl
        next =>
          have hend : r.bsp + d.length ≤ r.buf.length := by
            have hlen := congrArg List.length hbuf
            rw [Connection.buffered, List.length_drop, List.length_append] at hlen
            omega
          refine .handling done more m [] m.body (exec m.request) hsplit hserved'' rfl hend
            (List.nil_append _).symm ?_ (hwithin m hm)
          show r.buf.drop (r.bsp + d.length) ++ r.rest = _
          rw [← List.drop_drop]
          show r.buffered.drop d.length ++ r.rest = _
          rw [hbuf, List.drop_left, hbody]

/-- A handler reads on in its body, or returns and has read all of it. -/
theorem framed_handle (hP : ConsumesOneBlock P reqs mid) (hc : Framed reqs mid c)
    (hread : BodyRead P c (.handle k)) (hk : c.enabledIn c.phase (.handle k)) :
    Framed reqs mid (c.handle P k) := by
  unfold Connection.handle
  cases hc with
  | parsing done more p _ _ hphase =>
    rw [hphase] at hk
    exact hk.elim
  | closed done more _ _ hphase =>
    rw [hphase] at hk
    exact hk.elim
  | handling done more m before after h hsplit hserved hphase hbsp hbody hrest hwithin =>
    rw [hphase] at hk ⊢
    have hsplit' : reqs = (done ++ [m]) ++ more := by
      rw [List.append_assoc, List.singleton_append, hsplit]
    cases h with
    | ret =>
      rw [BodyRead, hphase] at hread
      show Framed reqs mid (c.afterExec P)
      unfold Connection.afterExec
      by_cases hkeep : P.shouldKeepAlive c.parser = true
      · rw [if_pos hkeep]
        -- none of the body is left
        have hlen := congrArg List.length hbody
        rw [List.length_append, ← m.bodyLength_eq, ← hread hkeep] at hlen
        have hnil : after = [] := List.length_eq_zero_iff.mp (by omega)
        rw [hnil, List.nil_append] at hrest
        refine .parsing (done ++ [m]) more [] hsplit' hserved rfl (Nat.zero_le _) hP.init hrest ?_
        intro m' _
        exact List.length_pos_iff.mpr m'.block_ne
      · rw [if_neg hkeep]
        exact .closed (done ++ [m]) more hsplit' hserved rfl
    | throw e => exact .closed (done ++ [m]) more hsplit' hserved rfl
    | respond reply next failed =>
      exact .handling done more m before after next hsplit hserved rfl hbsp hbody hrest hwithin.1
    | read len next failed =>
      obtain ⟨hlen, hnext, -⟩ := hwithin
      have hshort : (c.pipeRead len k).1.length ≤ len := length_pipeRead hk
      have hparts := unread_pipeRead c len k
      have hbsp' := bsp_pipeRead hbsp len k
      have hserved' := served_pipeRead c len k
      rw [hrest] at hparts
      -- the bytes that are read are the next ones of the body
      obtain ⟨z, hafter, hunread⟩ := exists_append_of_le hparts (Nat.le_trans hshort hlen)
      refine .handling done more m (before ++ (c.pipeRead len k).1) z
        (next (c.pipeRead len k).1) hsplit
        (hserved'.trans hserved) ?_ hbsp' ?_ hunread ?_
      · rw [List.length_append]
      · rw [List.append_assoc, ← hafter, hbody]
      · have hz := hnext _ hshort
        rw [hafter, List.length_append, Nat.add_sub_cancel_left] at hz
        exact hz

/-- An exception of the pipe goes to the handler, or ends the connection. -/
theorem framed_fail (hc : Framed reqs mid c) (e : Thrown) : Framed reqs mid (c.fail e) := by
  unfold Connection.fail
  cases hc with
  | parsing done more p hsplit hserved hphase =>
    rw [hphase]
    exact .closed done more hsplit hserved rfl
  | closed done more hsplit hserved hphase =>
    rw [hphase]
    exact .closed done more hsplit hserved hphase
  | handling done more m before after h hsplit hserved hphase hbsp hbody hrest hwithin =>
    rw [hphase]
    cases h with
    | ret =>
      exact .handling done more m before after _ hsplit hserved hphase hbsp hbody hrest hwithin
    | throw e' =>
      exact .handling done more m before after _ hsplit hserved hphase hbsp hbody hrest hwithin
    | respond reply next failed =>
      exact .handling done more m before after _ hsplit hserved rfl hbsp hbody hrest (hwithin.2 e)
    | read len next failed =>
      exact .handling done more m before after _ hsplit hserved rfl hbsp hbody hrest (hwithin.2.2 e)

/-- The loop goes round only when no handler is running. -/
theorem phase_of_parse (ha : c.enabledIn c.phase (.parse k)) :
    c.phase = .parsing ∧ c.Delivers (bufSize - c.buf.length) k := by
  cases hphase : c.phase with
  | parsing =>
    rw [hphase] at ha
    exact ⟨rfl, ha⟩
  | handling request taken h =>
    rw [hphase] at ha
    cases h <;> exact ha.elim
  | closed =>
    rw [hphase] at ha
    exact ha.elim

/-- One step that is not the return of a handler that leaves some of its body. -/
theorem framed_step (hP : ConsumesOneBlock P reqs mid)
    (hwithin : ∀ m ∈ reqs, (exec m.request).Within m.body.length) {a : ServerAction}
    (hc : Framed reqs mid c) (hread : BodyRead P c a) (ha : c.enabledIn c.phase a) :
    Framed reqs mid ((serverMachine P exec (pipelined reqs)).next c a) := by
  cases a with
  | handle k => exact framed_handle hP hc hread ha
  | fail e => exact framed_fail hc e
  | parse k =>
    obtain ⟨hphase, hk⟩ := phase_of_parse ha
    exact framed_parse hP hwithin hphase hc hk

theorem framed_init (hP : ConsumesOneBlock P reqs mid) :
    Framed reqs mid (serverMachine P exec (pipelined reqs)).init := by
  refine .parsing [] reqs [] rfl rfl rfl (Nat.le_refl _) hP.init rfl ?_
  intro m _
  exact List.length_pos_iff.mpr m.block_ne

/-- In every run in which the handlers of kept connections read all of their bodies, the loop parses
the requests that were sent. -/
theorem framed (hP : ConsumesOneBlock P reqs mid)
    (hwithin : ∀ m ∈ reqs, (exec m.request).Within m.body.length)
    (hc : (serverMachine P exec (pipelined reqs)).Reachable (BodyRead P) c) :
    Framed reqs mid c := by
  refine hc.invariant (framed_init hP) ?_
  intro c a hframed hread ha
  exact framed_step hP hwithin hframed hread ha

/-- The handlers were called with the first of the requests that were sent. -/
theorem served_of_framed (hc : Framed reqs mid c) : c.served <+: reqs.map Message.request := by
  cases hc with
  | parsing done more p hsplit hserved =>
    rw [hserved, hsplit]
    exact (List.prefix_append done more).map _
  | closed done more hsplit hserved =>
    rw [hserved, hsplit]
    exact (List.prefix_append done more).map _
  | handling done more m before after h hsplit hserved =>
    have hsplit' : reqs = (done ++ [m]) ++ more := by
      rw [List.append_assoc, List.singleton_append, hsplit]
    rw [hserved, hsplit']
    exact (List.prefix_append (done ++ [m]) more).map _

/-! ## Handlers that read their bodies -/

/-- With `n` bytes of its body left, the handler reads them before it returns, if no read fails. -/
def Handler.Drains (n : ℕ) : Handler → Prop
  | .ret => n = 0
  | .throw _ => True
  | .read len next _ =>
    1 ≤ len ∧ len ≤ n ∧
      ∀ bs : Bytes, 1 ≤ bs.length → bs.length ≤ len → (next bs).Drains (n - bs.length)
  | .respond _ next failed => next.Drains n ∧ ∀ e, (failed e).Drains n

/-- No read or response throws. -/
def NoFailure (_ : Connection σ) : ServerAction → Prop
  | .fail _ => False
  | _ => True

/-- A read delivers something. -/
theorem length_pipeRead_pos (hbsp : c.bsp ≤ c.buf.length) (hlen : 1 ≤ len)
    (hk : c.Delivers len k) : 1 ≤ (c.pipeRead len k).1.length := by
  unfold Connection.pipeRead
  split
  next hne =>
    show 1 ≤ ((c.buf.drop c.bsp).take len).length
    rw [List.length_take, List.length_drop]
    omega
  next hempty =>
    obtain ⟨hpos, -, hle⟩ := hk (not_not.mp hempty)
    show 1 ≤ (c.rest.take k).length
    rw [List.length_take]
    omega

/-- The handler that is running reads what is left of its body. -/
def Draining (c : Connection σ) : Prop :=
  ∀ request taken h, c.phase = .handling request taken h → h.Drains (request.bodyLength - taken)

/-- A handler that is called in a round of the loop has read nothing. -/
theorem phase_parse (hphase : c.phase = .parsing) {request : Request} {taken : ℕ} {h : Handler}
    (heq : (c.parse P exec k).phase = .handling request taken h) :
    taken = 0 ∧ h = exec request := by
  have hfill := (served_fill c k).2.2
  simp only [Connection.parse] at heq
  split at heq
  · split at heq
    · exact absurd heq ServerPhase.noConfusion
    · injection heq with hrequest htaken hexec
      rw [← hrequest]
      exact ⟨htaken.symm, hexec.symm⟩
  · split at heq
    · exact absurd heq ServerPhase.noConfusion
    · split at heq
      · exact absurd heq ServerPhase.noConfusion
      · exact absurd ((hfill.trans hphase).symm.trans heq) ServerPhase.noConfusion

/-- A handler that reads its body goes on to do so. -/
theorem draining_handle (hbsp : c.bsp ≤ c.buf.length) (hc : Draining c)
    (hk : c.enabledIn c.phase (.handle k)) : Draining (c.handle P k) := by
  intro request taken h heq
  unfold Connection.handle at heq
  cases hphase : c.phase with
  | parsing =>
    rw [hphase] at hk
    exact hk.elim
  | closed =>
    rw [hphase] at hk
    exact hk.elim
  | handling request' taken' h' =>
    rw [hphase] at hk heq
    have hdrains := hc request' taken' h' hphase
    cases h' with
    | ret =>
      simp only [Connection.afterExec] at heq
      split at heq <;> exact absurd heq ServerPhase.noConfusion
    | throw e => exact absurd heq ServerPhase.noConfusion
    | respond reply next failed =>
      injection heq with hrequest htaken hnext
      rw [← hrequest, ← htaken, ← hnext]
      exact hdrains.1
    | read len next failed =>
      obtain ⟨hlen, -, hbs⟩ := hdrains
      injection heq with hrequest htaken hnext
      rw [← hrequest, ← htaken, ← hnext, ← Nat.sub_sub]
      exact hbs _ (length_pipeRead_pos hbsp hlen hk) (length_pipeRead hk)

/-- A handler that reads its body has no body left when it returns. -/
theorem bodyRead_of_draining (hc : Framed reqs mid c) (hdraining : Draining c)
    (a : ServerAction) : BodyRead P c a := by
  cases a with
  | parse k => trivial
  | fail e => trivial
  | handle k =>
    show ReturnsRead _ c.phase
    unfold ReturnsRead
    split
    next request taken hphase =>
      intro _
      have hnone : request.bodyLength - taken = 0 := hdraining request taken .ret hphase
      cases hc with
      | parsing done more p _ _ hphase' =>
        exact absurd (hphase'.symm.trans hphase) ServerPhase.noConfusion
      | closed done more _ _ hphase' =>
        exact absurd (hphase'.symm.trans hphase) ServerPhase.noConfusion
      | handling done more m before after h _ _ hphase' _ hbody =>
        injection hphase'.symm.trans hphase with hrequest htaken
        have hlen := congrArg List.length hbody
        rw [List.length_append, ← m.bodyLength_eq, hrequest] at hlen
        omega
    next => trivial

/-- If every handler reads its body, then without failures the loop parses the requests that were
sent. -/
theorem framed_of_drains (hP : ConsumesOneBlock P reqs mid)
    (hwithin : ∀ m ∈ reqs, (exec m.request).Within m.body.length)
    (hdrains : ∀ m ∈ reqs, (exec m.request).Drains m.body.length)
    (hc : (serverMachine P exec (pipelined reqs)).Reachable NoFailure c) :
    Framed reqs mid c ∧ Draining c := by
  refine hc.invariant (P := fun c => Framed reqs mid c ∧ Draining c)
    ⟨framed_init hP, fun _ _ _ h => absurd h ServerPhase.noConfusion⟩ ?_
  intro c a ⟨hframed, hdraining⟩ hfail ha
  have hnext := framed_step hP hwithin hframed (bodyRead_of_draining hframed hdraining a) ha
  refine ⟨hnext, ?_⟩
  cases a with
  | fail e => exact hfail.elim
  | handle k =>
    cases hframed with
    | parsing done more p _ _ _ hbsp => exact draining_handle hbsp hdraining ha
    | handling done more m before after h _ _ _ hbsp => exact draining_handle hbsp hdraining ha
    | closed done more _ _ hphase =>
      have hen : c.enabledIn c.phase (.handle k) := ha
      rw [hphase] at hen
      exact hen.elim
  | parse k =>
    intro request taken h heq
    obtain ⟨rfl, rfl⟩ := phase_parse (phase_of_parse ha).1 heq
    -- the request is one of those that were sent
    cases hnext with
    | parsing done more p _ _ hphase =>
      exact absurd (hphase.symm.trans heq) ServerPhase.noConfusion
    | closed done more _ _ hphase =>
      exact absurd (hphase.symm.trans heq) ServerPhase.noConfusion
    | handling done more m before after h hsplit _ hphase =>
      injection hphase.symm.trans heq with hrequest
      have hm : m ∈ reqs := by
        rw [hsplit]
        exact List.mem_append_right _ List.mem_cons_self
      rw [← hrequest, m.bodyLength_eq]
      exact hdrains m hm

/-! ## `body_as_json` -/

section BodyAsJson

variable {J : Type*} {parse : Bytes → Except String J} {f : J → Handler} {next : Bytes → Handler}
  {h : Handler} {n left rounds : ℕ}

/-- `request_wrap` reads what the code in it reads. -/
theorem within_requestWrap (hh : h.Within n) : (requestWrap h).Within n := by
  induction h generalizing n with
  | ret => trivial
  | throw e => cases e <;> exact ⟨trivial, fun _ => trivial⟩
  | read len next failed ihnext ihfailed =>
    exact ⟨hh.1, fun bs hbs => ihnext bs (hh.2.1 bs hbs), fun e => ihfailed e (hh.2.2 e)⟩
  | respond reply next failed ihnext ihfailed =>
    exact ⟨ihnext hh.1, fun e => ihfailed e (hh.2 e)⟩

/-- An error reply reads nothing. -/
theorem drains_reply (e : Thrown) : (requestWrap (.throw e)).Drains n ↔ n = 0 := by
  cases e <;> exact ⟨fun h => h.1, fun h => ⟨h, fun _ => h⟩⟩

/-- The loop reads no more than the bytes that are missing. -/
theorem within_readBody (hnext : ∀ buff n, (next buff).Within n) (hle : left ≤ n) (buff : Bytes) :
    (readBody rounds left buff next).Within n := by
  induction rounds generalizing left n buff with
  | zero => exact hnext buff n
  | succ rounds ih =>
    rw [readBody]
    split
    next => exact hnext buff n
    next => exact ⟨hle, fun bs _ => ih (Nat.sub_le_sub_right hle _) _, fun _ => trivial⟩

/-- The loop reads exactly the bytes that are missing. -/
theorem drains_readBody (hnext : ∀ buff n, (requestWrap (next buff)).Drains n ↔ n = 0)
    (hrounds : left ≤ rounds) (buff : Bytes) :
    (requestWrap (readBody rounds left buff next)).Drains n ↔ n = left := by
  induction rounds generalizing left n buff with
  | zero =>
    rw [readBody, hnext]
    omega
  | succ rounds ih =>
    rw [readBody]
    split
    next hnil => rw [hnext, hnil]
    next hpos =>
      have hstep : ∀ bs : Bytes, 1 ≤ bs.length →
          ((requestWrap (readBody rounds (left - bs.length) (buff ++ bs) next)).Drains
            (n - bs.length) ↔ n - bs.length = left - bs.length) :=
        fun bs hbs => ih (by omega) _
      constructor
      · rintro ⟨-, hle, hbs⟩
        have hone := (hstep [0] (Nat.le_refl 1)).mp (hbs [0] (Nat.le_refl 1) (by
          show 1 ≤ left
          omega))
        simp only [List.length_singleton] at hone
        omega
      · intro heq
        subst heq
        exact ⟨by omega, Nat.le_refl _, fun bs hbs _ => (hstep bs hbs).mpr rfl⟩

theorem bmod_le (n m : ℕ) : Int.bmod n m ≤ n := by
  have hmod := Nat.mod_le n m
  rw [Int.bmod_eq_emod, ← Int.natCast_emod]
  split <;> omega

/-- As an `int` a length is not longer. -/
theorem contentLength_le (request : Request) :
    request.contentLength.toNat ≤ request.bodyLength :=
  Int.toNat_le.mpr (bmod_le _ _)

/-- `body_as_json` reads nothing behind the body. -/
theorem within_bodyAsJson (hf : ∀ body n, (f body).Within n) (peer : String) (request : Request) :
    (bodyAsJson parse peer request f).Within request.bodyLength := by
  have hclen := contentLength_le request
  simp only [bodyAsJson]
  generalize request.contentLength = clen at hclen ⊢
  split
  next => exact True.intro
  next =>
    split
    next => exact True.intro
    next =>
      split
      next => exact True.intro
      next =>
        apply within_readBody _ hclen
        intro buff n
        split
        next body _ => exact hf body n
        next => exact True.intro

/-- An `int` holds a small length. -/
theorem contentLength_of_le {request : Request} (hle : request.bodyLength ≤ 16384) :
    request.contentLength = request.bodyLength := by
  apply Int.bmod_eq_of_le
  · omega
  · omega

/-- `body_as_json` under `request_wrap` reads a body of 2 to 16384 bytes, and no other. -/
theorem drains_bodyAsJson {peer : String} {request : Request}
    (hclen : request.hasContentLength = true)
    (hf : ∀ body n, (requestWrap (f body)).Drains n ↔ n = 0) :
    (requestWrap (bodyAsJson parse peer request f)).Drains request.bodyLength ↔
      request.bodyLength = 0 ∨ 2 ≤ request.bodyLength ∧ request.bodyLength ≤ 16384 := by
  have hsmall : request.bodyLength ≤ 16384 → request.contentLength = request.bodyLength :=
    contentLength_of_le
  simp only [bodyAsJson, hclen, Bool.not_true, Bool.false_eq_true, if_false]
  generalize request.contentLength = clen at hsmall ⊢
  split
  next hlow =>
    rw [throwRequestError, drains_reply]
    omega
  next hlow =>
    split
    next hhigh =>
      rw [throwRequestError, drains_reply]
      omega
    next hhigh =>
      rw [drains_readBody _ (Nat.le_refl _)]
      · omega
      · intro buff n
        split
        next body _ => exact hf body n
        next what _ => exact drains_reply (.json what)

end BodyAsJson

/-! ## A parser of known header blocks -/

/-- Feed bytes one by one, until what was fed is a known header block. -/
def feed (known : List (Bytes × Request)) (fed : Bytes) : Bytes → Bytes × ℕ × Option Request
  | [] => (fed, 0, none)
  | b :: bs =>
    match known.lookup (fed ++ [b]) with
    | some request => (fed ++ [b], 1, some request)
    | none =>
      let (fed, parsed, complete) := feed known (fed ++ [b]) bs
      (fed, parsed + 1, complete)

/-- A parser that knows some header blocks of connections that are kept alive. -/
def tableParser (known : List (Bytes × Request)) : HttpParser Bytes where
  init := []
  execute := feed known
  shouldKeepAlive _ := true

section TableParser

variable {known : List (Bytes × Request)} {block : Bytes} {request : Request}

theorem feed_inside (hnone : ∀ n < block.length, known.lookup (block.take n) = none)
    {p d more : Bytes} (hblock : block = p ++ (d ++ more)) (hmore : more ≠ []) :
    feed known p d = (p ++ d, d.length, none) := by
  induction d generalizing p with
  | nil => rw [feed, List.append_nil, List.length_nil]
  | cons b d ih =>
    have hpos := List.length_pos_iff.mpr hmore
    have htake : block.take (p.length + 1) = p ++ [b] := by
      rw [hblock, List.take_length_add_append]
      rfl
    have hlen : p.length + 1 < block.length := by
      rw [hblock]
      simp only [List.length_append, List.length_cons]
      omega
    have hfed := hnone _ hlen
    rw [htake] at hfed
    have hnext : block = (p ++ [b]) ++ (d ++ more) := by
      rw [hblock, List.append_assoc]
      rfl
    rw [feed, hfed]
    simp only [ih hnext, List.append_assoc, List.singleton_append, List.length_cons]

theorem feed_complete (hnone : ∀ n < block.length, known.lookup (block.take n) = none)
    (hsome : known.lookup block = some request) {p d : Bytes} (hblock : block = p ++ d)
    (hd : d ≠ []) (more : Bytes) :
    feed known p (d ++ more) = (p ++ d, d.length, some request) := by
  induction d generalizing p with
  | nil => exact absurd rfl hd
  | cons b d ih =>
    have htake : block.take (p.length + 1) = p ++ [b] := by
      rw [hblock, List.take_length_add_append]
      rfl
    rw [List.cons_append, feed]
    by_cases hlast : d = []
    · subst hlast
      rw [← hblock, hsome]
      rfl
    · -- the block is longer than what has been fed
      have hpos := List.length_pos_iff.mpr hlast
      have hlen : p.length + 1 < block.length := by
        rw [hblock]
        simp only [List.length_append, List.length_cons]
        omega
      have hfed := hnone _ hlen
      rw [htake] at hfed
      have hnext : block = (p ++ [b]) ++ d := by
        rw [hblock, List.append_assoc]
        rfl
      rw [hfed]
      simp only [ih hnext hlast, List.append_assoc, List.singleton_append, List.length_cons]

/-- If no known block is the beginning of another, the parser consumes exactly one. -/
theorem consumesOneBlock_tableParser
    (hknown : ∀ m ∈ reqs, known.lookup m.block = some m.request ∧
      ∀ n < m.block.length, known.lookup (m.block.take n) = none) :
    ConsumesOneBlock (tableParser known) reqs fun s p => s = p where
  init := rfl
  inside m hm s p d more hs hblock _ hmore := by
    subst hs
    exact ⟨s ++ d, feed_inside (hknown m hm).2 hblock hmore, rfl⟩
  complete m hm s p d more hs hblock hd := by
    subst hs
    exact ⟨s ++ d, feed_complete (hknown m hm).2 (hknown m hm).1 hblock hd more⟩

end TableParser

/-! ## A request in the body of another -/

def getBlock : Bytes := ascii "GET /b HTTP/1.1\r\n\r\n"

def postBlock : Bytes := ascii "POST /a HTTP/1.1\r\nContent-Length: 19\r\n\r\n"

/-- The parser's `content_length` without a Content-Length is `ULLONG_MAX`. -/
def getRequest : Request := ⟨false, false, 2 ^ 64 - 1⟩

def postRequest : Request := ⟨false, true, 19⟩

/-- A request whose body reads like another one. -/
def post : Message where
  block := postBlock
  request := postRequest
  body := getBlock
  block_ne := by decide +kernel
  hasContentLength := rfl
  bodyLength_eq := by decide +kernel

def knownBlocks : List (Bytes × Request) := [(getBlock, getRequest), (postBlock, postRequest)]

theorem consumesOneBlock_post :
    ConsumesOneBlock (tableParser knownBlocks) [post] fun s p => s = p := by
  apply consumesOneBlock_tableParser
  intro m hm
  rw [List.mem_singleton.mp hm]
  refine ⟨by decide +kernel, ?_⟩
  have hall : ∀ n < postBlock.length, knownBlocks.lookup (postBlock.take n) = none := by
    decide +kernel
  exact hall

/-- An answer that does not look at the body. -/
def answerAtOnce (_ : Request) : Handler :=
  requestWrap (.respond ⟨200, "text/plain", "ok"⟩ .ret .throw)

/-- The body that the handler leaves is parsed, and handled, as a request. -/
theorem not_framed_post :
    ConsumesOneBlock (tableParser knownBlocks) [post] (fun s p => s = p) ∧
      (∀ m ∈ [post], (answerAtOnce m.request).Within m.body.length) ∧
      ∃ c, (serverMachine (tableParser knownBlocks) answerAtOnce (pipelined [post])).Reachable
        Machine.anyStep c ∧ ¬ Framed [post] (fun s p => s = p) c := by
  refine ⟨consumesOneBlock_post, ?_, ?_⟩
  · intro m _
    apply within_requestWrap
    exact ⟨True.intro, fun _ => True.intro⟩
  · have hreplay : ((serverMachine (tableParser knownBlocks) answerAtOnce
        (pipelined [post])).replay Machine.anyStep
          [.parse 59, .handle 0, .handle 0, .parse 0]
          (serverMachine (tableParser knownBlocks) answerAtOnce (pipelined [post])).init).any
          (fun c => decide (c.served = [postRequest, getRequest])) = true := by decide +kernel
    obtain ⟨c, hc, hp⟩ := Machine.reachable_of_replay hreplay
    refine ⟨c, hc, ?_⟩
    intro hframed
    have hserved := (served_of_framed hframed).length_le
    rw [of_decide_eq_true hp] at hserved
    exact absurd hserved (by decide)

/-! ## Two requests with JSON bodies -/

def emptyBlock : Bytes := ascii "POST /a HTTP/1.1\r\nContent-Length: 0\r\n\r\n"

def emptyRequest : Request := ⟨false, true, 0⟩

/-- A request without a body. -/
def emptyPost : Message where
  block := emptyBlock
  request := emptyRequest
  body := []
  block_ne := by decide +kernel
  hasContentLength := rfl
  bodyLength_eq := rfl

def postBlocks : List (Bytes × Request) := [(postBlock, postRequest), (emptyBlock, emptyRequest)]

/-- A handler that answers any text, after `body_as_json`. -/
def answerJson (request : Request) : Handler :=
  requestWrap (bodyAsJson (fun _ => .ok ()) "::1" request fun _ : Unit =>
    .respond ⟨200, "text/plain", "ok"⟩ .ret .throw)

/-- The first body arrives in pieces and is read; for the second one there is an error reply. -/
theorem framed_posts : ∃ c, Framed [post, emptyPost] (fun s p => s = p) c ∧
    c.served = [postRequest, emptyRequest] ∧ c.rest = [] := by
  have hparser : ConsumesOneBlock (tableParser postBlocks) [post, emptyPost] fun s p => s = p := by
    apply consumesOneBlock_tableParser
    intro m hm
    have hall : ∀ block ∈ [postBlock, emptyBlock], ∀ n < block.length,
        postBlocks.lookup (block.take n) = none := by decide +kernel
    rcases List.mem_cons.mp hm with rfl | hm
    · exact ⟨by decide +kernel, hall postBlock List.mem_cons_self⟩
    · rw [List.mem_singleton.mp hm]
      exact ⟨by decide +kernel, hall emptyBlock (List.mem_cons_of_mem _ List.mem_cons_self)⟩
  have hwithin : ∀ m ∈ [post, emptyPost], (answerJson m.request).Within m.body.length := by
    intro m _
    rw [← m.bodyLength_eq]
    apply within_requestWrap
    apply within_bodyAsJson
    intro _ n
    exact ⟨True.intro, fun _ => True.intro⟩
  have hreplay : ((serverMachine (tableParser postBlocks) answerJson
      (pipelined [post, emptyPost])).replay (BodyRead (tableParser postBlocks))
        [.parse 30, .parse 20, .handle 0, .handle 9, .handle 0, .handle 0, .parse 39, .handle 0,
          .handle 0]
        (serverMachine (tableParser postBlocks) answerJson (pipelined [post, emptyPost])).init).any
        (fun c => decide (c.served = [postRequest, emptyRequest] ∧ c.rest = [])) = true := by
    decide +kernel
  obtain ⟨c, hc, hp⟩ := Machine.reachable_of_replay hreplay
  exact ⟨c, framed hparser hwithin hc, of_decide_eq_true hp⟩

end Anon.Http

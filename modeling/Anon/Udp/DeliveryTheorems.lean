import Anon.Udp.Dispatch

/-!
# Every datagram is delivered once, and unchanged

* `cleanSockaddr_writeAt`: nothing that was in `host` before `recvfrom` is left.
* `Holds`: the buffer of a capture has the bytes of its datagram.
* `Inv`: the invariant; a buffer that a thread fills is no one else's.
* `udp_delivers`: what the dispatcher is to do, it does in every run.
-/

namespace Anon.Udp

variable {T : Type} {s s' : UdpDispatch T} {c : Capture} {t : T} {buff : ℕ} {host : Bytes}

/-! ## Addresses -/

theorem cleanSockaddr_writeAt (host : Bytes) (peer : Peer) :
    cleanSockaddr (writeAt host 0 peer.sockaddr) = peer.clean := by
  have hwrite : writeAt host 0 peer.sockaddr =
      peer.sockaddr ++ host.drop peer.sockaddr.length := by
    simp [writeAt]
  rw [hwrite]
  cases peer with
  | inet port addr =>
    simp [cleanSockaddr, Peer.sockaddr, Peer.clean, AF_INET, writeAt, storageSize,
      List.take_append, List.drop_append]
  | inet6 port flowinfo addr scopeId =>
    simp [cleanSockaddr, Peer.sockaddr, Peer.clean, AF_INET, AF_INET6, writeAt, storageSize,
      List.take_append, List.drop_append]

/-! ## The invariant -/

/-- A capture, and the buffer with the bytes of its datagram. -/
def Holds (s : UdpDispatch T) (c : Capture) : Prop :=
  ∃ d, s.sent[c.id]? = some d ∧ c.dlen = d.bytes.length ∧
    cleanSockaddr c.host = d.peer.clean ∧ c.hostAddrSize = d.peer.sockaddr.length ∧
    ∀ i < c.dlen, d.bytes[i]? = some (s.memory c.buff i)

/-- A thread or a fiber has the capture. -/
def Captured (s : UdpDispatch T) (c : Capture) : Prop :=
  (∃ t, s.place t = .received c) ∨ c ∈ s.scheduled ∨ c ∈ s.running

/-- The invariant. -/
structure Inv (s : UdpDispatch T) : Prop extends s.Delivers where
  socket : ∀ d ∈ s.socket, s.sent[d.id]? = some d
  bound : ∀ b, (∃ owner, b ∈ s.buffs owner) → b < s.made
  captures : ∀ c, Captured s c → Holds s c

/-- The buffer of a capture is owned. -/
theorem Captured.owned (h : Captured s c) : ∃ owner, c.buff ∈ s.buffs owner := by
  rcases h with ⟨t, ht⟩ | h | h
  · exact ⟨.thread t, by simp [UdpDispatch.buffs, ht, Place.buff]⟩
  · exact ⟨.scheduled, List.mem_map_of_mem h⟩
  · exact ⟨.running, List.mem_map_of_mem h⟩

/-- A buffer that a thread fills is not the buffer of a capture. -/
theorem Captured.buff_ne (h : Captured s c) (ht : s.place t = .filling buff)
    (howner : Exclusive s.buffs) : c.buff ≠ buff := by
  rintro rfl
  have hfilling : c.buff ∈ s.buffs (.thread t) := by simp [UdpDispatch.buffs, ht, Place.buff]
  rcases h with ⟨u, hu⟩ | h | h
  · have hreceived : c.buff ∈ s.buffs (.thread u) := by simp [UdpDispatch.buffs, hu, Place.buff]
    have htu := howner.unique _ _ _ hfilling hreceived
    rw [Owner.thread.injEq] at htu
    rw [htu, hu] at ht
    exact absurd ht (by simp)
  · exact absurd (howner.unique _ .scheduled _ hfilling (List.mem_map_of_mem h)) (by simp)
  · exact absurd (howner.unique _ .running _ hfilling (List.mem_map_of_mem h)) (by simp)

/-- What is captured stays so where nothing new is sent and the memory of its buffer is kept. -/
theorem Holds.congr (h : Holds s c) (hsent : ∀ d, s.sent[c.id]? = some d → s'.sent[c.id]? = some d)
    (hmemory : s'.memory c.buff = s.memory c.buff) : Holds s' c := by
  obtain ⟨d, hd, hrest⟩ := h
  rw [← hmemory] at hrest
  exact ⟨d, hsent d hd, hrest⟩

/-! ## Steps of the threads -/

theorem ids_congr (hplace : ∀ u, (s'.place u).capture = (s.place u).capture)
    (hsocket : s'.socket = s.socket) (hscheduled : s'.scheduled = s.scheduled)
    (hcalls : s'.calls = s.calls) (hdropped : s'.dropped = s.dropped) : s'.ids = s.ids := by
  funext stage
  cases stage with
  | socket => rw [UdpDispatch.ids, hsocket]; rfl
  | thread u => rw [UdpDispatch.ids, hplace]; rfl
  | scheduled => rw [UdpDispatch.ids, hscheduled]; rfl
  | called => rw [UdpDispatch.ids, hcalls]; rfl
  | dropped => rw [UdpDispatch.ids, hdropped]; rfl

theorem buffs_congr (hplace : ∀ u, (s'.place u).buff = (s.place u).buff)
    (hfree : s'.freeBuffs = s.freeBuffs) (hscheduled : s'.scheduled = s.scheduled)
    (hrunning : s'.running = s.running) : s'.buffs = s.buffs := by
  funext owner
  cases owner with
  | free => exact hfree
  | thread u => rw [UdpDispatch.buffs, hplace]; rfl
  | scheduled => rw [UdpDispatch.buffs, hscheduled]; rfl
  | running => rw [UdpDispatch.buffs, hrunning]; rfl

/-- A step that gives no capture to any thread or fiber. -/
theorem Captured.back (h : Captured s' c)
    (hplace : ∀ u, (s'.place u).capture = (s.place u).capture)
    (hscheduled : ∀ c ∈ s'.scheduled, c ∈ s.scheduled)
    (hrunning : ∀ c ∈ s'.running, c ∈ s.running) : Captured s c := by
  refine h.imp ?_ (Or.imp (hscheduled c) (hrunning c))
  rintro ⟨u, hu⟩
  have hcapture := hplace u
  rw [hu] at hcapture
  refine ⟨u, ?_⟩
  cases hs : s.place u with
  | received c' =>
    rw [hs] at hcapture
    rw [Option.some.inj hcapture]
  | _ =>
    rw [hs] at hcapture
    exact absurd hcapture (Option.some_ne_none c)

/-- What a step of a thread leaves alone. -/
structure SameRecords (s s' : UdpDispatch T) : Prop where
  sent : s'.sent = s.sent
  socket : s'.socket = s.socket
  alive : s'.alive = s.alive
  calls : s'.calls = s.calls
  reads : s'.reads = s.reads
  dropped : s'.dropped = s.dropped

theorem Inv.frame (h : Inv s) (hsame : SameRecords s s')
    (honce : Distributed s'.ids {i | i < s.sent.length}) (howner : Exclusive s'.buffs)
    (hbound : ∀ b, (∃ owner, b ∈ s'.buffs owner) → b < s'.made)
    (hcaptures : ∀ c, Captured s' c → Holds s' c) : Inv s' := by
  refine ⟨⟨?_, ?_, ?_, ?_, howner⟩, ?_, hbound, hcaptures⟩
  · rw [hsame.calls, hsame.sent]
    exact h.calls
  · rw [hsame.reads, hsame.sent]
    exact h.reads
  · rw [hsame.sent]
    exact honce
  · rw [hsame.dropped, hsame.sent, hsame.alive]
    exact h.dropped
  · rw [hsame.socket, hsame.sent]
    exact h.socket

section Steps

variable [DecidableEq T]

theorem capture_update (f : T → Place) (t : T) (place : Place)
    (hplace : place.capture = (f t).capture) (u : T) :
    (Function.update f t place u).capture = (f u).capture := by
  by_cases hu : u = t
  · rw [hu, Function.update_self, hplace]
  · rw [Function.update_of_ne hu]

theorem buff_update (f : T → Place) (t : T) (place : Place)
    (hplace : place.buff = (f t).buff) (u : T) :
    (Function.update f t place u).buff = (f u).buff := by
  by_cases hu : u = t
  · rw [hu, Function.update_self, hplace]
  · rw [Function.update_of_ne hu]

theorem inv_ioAvail (h : Inv s) (hen : s.place t = .outside) : Inv (s.next (.ioAvail t)) := by
  have hcapture := capture_update s.place t .looping (by rw [hen]; rfl)
  have hids : (s.next (.ioAvail t)).ids = s.ids := ids_congr hcapture rfl rfl rfl rfl
  have hbuffs : (s.next (.ioAvail t)).buffs = s.buffs :=
    buffs_congr (buff_update s.place t _ (by rw [hen]; rfl)) rfl rfl rfl
  refine h.frame ⟨rfl, rfl, rfl, rfl, rfl, rfl⟩ ?_ ?_ ?_ fun c hc => ?_
  · rw [hids]
    exact h.once
  · rw [hbuffs]
    exact h.owner
  · rw [hbuffs]
    exact h.bound
  · exact h.captures c (hc.back hcapture (fun _ hc => hc) fun _ hc => hc)

theorem inv_getAvailBuff (h : Inv s) (hen : s.place t = .looping) :
    Inv (s.next (.getAvailBuff t)) := by
  have hcapture (buff : ℕ) := capture_update s.place t (.filling buff)
    (by rw [hen]; rfl)
  have hnone : s.buffs (.thread t) = [] := by simp [UdpDispatch.buffs, hen, Place.buff]
  unfold UdpDispatch.next
  dsimp only
  split
  · next buff freeBuffs hfree =>
    generalize hs' : { s with
      freeBuffs := freeBuffs
      place := Function.update s.place t (.filling buff) } = s'
    have hfrom : (s.buffs .free).Perm (buff :: s'.buffs .free) := by
      rw [← hs', UdpDispatch.buffs, hfree]
      exact List.Perm.refl _
    have hto : (s'.buffs (.thread t)).Perm (buff :: s.buffs (.thread t)) := by
      rw [← hs', hnone]
      simp [UdpDispatch.buffs, Place.buff]
    have hrest (k : Owner T) (hk : k ≠ .free) (hk' : k ≠ .thread t) : s'.buffs k = s.buffs k := by
      rw [← hs']
      cases k with
      | free => exact absurd rfl hk
      | thread u =>
        have hu : u ≠ t := fun hut => hk' (by rw [hut])
        simp [UdpDispatch.buffs, hu]
      | _ => rfl
    refine h.frame ?_ ?_ (h.owner.move (by simp) hfrom hto hrest) (fun b hb => ?_) fun c hc => ?_
    · subst hs'
      exact ⟨rfl, rfl, rfl, rfl, rfl, rfl⟩
    · have hids : s'.ids = s.ids := by
        subst hs'
        exact ids_congr (hcapture buff) rfl rfl rfl rfl
      rw [hids]
      exact h.once
    · have hb' := h.bound b ((exists_mem_move_iff hfrom hto hrest).mp hb)
      subst hs'
      exact hb'
    · subst hs'
      exact h.captures c (hc.back (hcapture buff) (fun _ hc => hc) fun _ hc => hc)
  · next hfree =>
    generalize hs' : { s with
      memory := Function.update s.memory s.made fun _ => 0
      made := s.made + 1
      place := Function.update s.place t (.filling s.made) } = s'
    have hto : (s'.buffs (.thread t)).Perm (s.made :: s.buffs (.thread t)) := by
      rw [← hs', hnone]
      simp [UdpDispatch.buffs, Place.buff]
    have hrest (k : Owner T) (hk : k ≠ .thread t) : s'.buffs k = s.buffs k := by
      rw [← hs']
      cases k with
      | thread u =>
        have hu : u ≠ t := fun hut => hk (by rw [hut])
        simp [UdpDispatch.buffs, hu]
      | _ => rfl
    have hnew (k : Owner T) : s.made ∉ s.buffs k :=
      fun hk => absurd (h.bound s.made ⟨k, hk⟩) (lt_irrefl _)
    refine h.frame ?_ ?_ (h.owner.add hnew hto hrest) ?_ fun c hc => ?_
    · subst hs'
      exact ⟨rfl, rfl, rfl, rfl, rfl, rfl⟩
    · have hids : s'.ids = s.ids := by
        subst hs'
        exact ids_congr (hcapture s.made) rfl rfl rfl rfl
      rw [hids]
      exact h.once
    · rintro b ⟨k, hb⟩
      have hb' : b < s.made + 1 := by
        rcases mem_of_add hto hrest hb with ⟨rfl, -⟩ | hb
        · exact Nat.lt_succ_self _
        · exact Nat.lt_succ_of_lt (h.bound b ⟨k, hb⟩)
      subst hs'
      exact hb'
    · subst hs'
      have hc' : Captured s c := hc.back (hcapture s.made) (fun _ hc => hc) fun _ hc => hc
      have hne : c.buff ≠ s.made := (h.bound _ hc'.owned).ne
      exact (h.captures c hc').congr (fun _ hd => hd) (Function.update_of_ne hne _ _)

/-- A thread lets go of its buffer, and may have written to it. -/
theorem release_buff (s' : UdpDispatch T) (place : Place) (h : Inv s)
    (hen : s.place t = .filling buff) (hplace : place.buff = none) (hcapture : place.capture = none)
    (hs' : s'.place = Function.update s.place t place) (hfree : s'.freeBuffs = s.freeBuffs)
    (hscheduled : s'.scheduled = s.scheduled) (hrunning : s'.running = s.running)
    (hmade : s'.made = s.made) (hsent : s'.sent = s.sent)
    (hmemory : ∀ b, b ≠ buff → s'.memory b = s.memory b) :
    Exclusive s'.buffs ∧ (∀ b, (∃ owner, b ∈ s'.buffs owner) → b < s'.made) ∧
      ∀ c, Captured s' c → Holds s' c := by
  have hfrom : (s.buffs (.thread t)).Perm (buff :: s'.buffs (.thread t)) := by
    rw [UdpDispatch.buffs, UdpDispatch.buffs, hs', Function.update_self, hplace, hen]
    exact List.Perm.refl _
  have hrest (k : Owner T) (hk : k ≠ .thread t) : s'.buffs k = s.buffs k := by
    cases k with
    | thread u =>
      have hu : u ≠ t := fun hut => hk (by rw [hut])
      simp [UdpDispatch.buffs, hs', hu]
    | free => exact hfree
    | scheduled => rw [UdpDispatch.buffs, hscheduled]; rfl
    | running => rw [UdpDispatch.buffs, hrunning]; rfl
  refine ⟨h.owner.release hfrom hrest, ?_, fun c hc => ?_⟩
  · rintro b ⟨k, hb⟩
    rw [hmade]
    exact h.bound b ⟨k, mem_of_release hfrom hrest hb⟩
  · have hc' : Captured s c := by
      apply hc.back
      · rw [hs']
        exact capture_update s.place t place (by rw [hcapture, hen]; rfl)
      · rw [hscheduled]
        exact fun _ hc => hc
      · rw [hrunning]
        exact fun _ hc => hc
    exact (h.captures c hc').congr (by rw [hsent]; exact fun _ hd => hd)
      (hmemory _ (hc'.buff_ne hen h.owner))

theorem inv_fail (h : Inv s) (hen : s.place t = .filling buff) :
    Inv { s with place := Function.update s.place t .outside } := by
  obtain ⟨howner, hbound, hcaptures⟩ := release_buff
    { s with place := Function.update s.place t .outside } .outside h hen rfl rfl rfl rfl rfl rfl
    rfl rfl fun _ _ => rfl
  refine h.frame ⟨rfl, rfl, rfl, rfl, rfl, rfl⟩ ?_ howner hbound hcaptures
  have hcapture := capture_update s.place t .outside (by rw [hen]; rfl)
  have hids : UdpDispatch.ids { s with place := Function.update s.place t .outside } = s.ids :=
    ids_congr hcapture rfl rfl rfl rfl
  rw [hids]
  exact h.once

/-- The bytes that `recvfrom` writes. -/
theorem getElem?_fill {bytes : Bytes} {dlen i : ℕ} (hi : i < min bytes.length dlen) (old : UInt8) :
    bytes[i]? = some ((bytes.take dlen).getD i old) := by
  have hlen : i < bytes.length := by omega
  have htake : i < (bytes.take dlen).length := by rw [List.length_take]; omega
  rw [List.getElem?_eq_getElem hlen, List.getD_eq_getElem _ _ htake, List.getElem_take]

theorem inv_receive (h : Inv s) (hen : s.place t = .filling buff) :
    Inv (s.receive t buff host) := by
  unfold UdpDispatch.receive
  split
  · exact inv_fail h hen
  · next d socket hsocket =>
    have hd : s.sent[d.id]? = some d := h.socket d (by rw [hsocket]; exact List.mem_cons_self)
    have hfrom : (s.ids .socket).Perm (d.id :: socket.map Datagram.id) := by
      rw [UdpDispatch.ids, hsocket]
      exact List.Perm.refl _
    have hrest' (e : Datagram) (he : e ∈ socket) : s.sent[e.id]? = some e :=
      h.socket e (by rw [hsocket]; exact List.mem_cons_of_mem _ he)
    dsimp only
    split
    · next hbig =>
      generalize hs' : UdpDispatch.mk _ _ _ _ _ _ _ _ _ _ _ _ = s'
      obtain ⟨howner, hbound, hcaptures⟩ := release_buff s' .looping h hen rfl
        rfl (by rw [← hs']) (by rw [← hs']) (by rw [← hs']) (by rw [← hs']) (by rw [← hs'])
        (by rw [← hs']) (by rw [← hs']; exact fun b hb => Function.update_of_ne hb _ _)
      have honce : Distributed s'.ids {i | i < s.sent.length} := by
        apply h.once.move (i := .socket) (j := .dropped) (x := d.id) (by simp)
        · rw [← hs']
          exact hfrom
        · rw [← hs']
          exact List.Perm.refl _
        · intro k hk hk'
          rw [← hs']
          cases k with
          | socket => exact absurd rfl hk
          | dropped => exact absurd rfl hk'
          | thread u =>
            have hcapture := capture_update s.place t .looping
              (by rw [hen]; rfl) u
            rw [UdpDispatch.ids, hcapture]
            rfl
          | _ => rfl
      subst hs'
      refine ⟨⟨h.calls, h.reads, honce, ?_, howner⟩, hrest', hbound, hcaptures⟩
      intro i hi
      rcases List.mem_cons.mp hi with rfl | hi
      · refine Or.inr ⟨d, hd, ?_⟩
        omega
      · exact h.dropped i hi
    · next hsmall =>
      have hlen : min d.bytes.length bufferSize = d.bytes.length := by omega
      generalize hs' : UdpDispatch.mk _ _ _ _ _ _ _ _ _ _ _ _ = s'
      have hplace : s'.place t = .received ⟨d.id, buff, min d.bytes.length bufferSize,
          writeAt host 0 d.peer.sockaddr, d.peer.sockaddr.length⟩ := by
        rw [← hs']
        exact Function.update_self _ _ _
      have hplace' (u : T) (hu : u ≠ t) : s'.place u = s.place u := by
        rw [← hs']
        exact Function.update_of_ne hu _ _
      have hbuffs : s'.buffs = s.buffs := by
        subst hs'
        exact buffs_congr (buff_update s.place t _ (by rw [hen]; rfl)) rfl rfl rfl
      have honce : Distributed s'.ids {i | i < s.sent.length} := by
        apply h.once.move (i := .socket) (j := .thread t) (x := d.id) (by simp)
        · rw [← hs']
          exact hfrom
        · rw [UdpDispatch.ids, UdpDispatch.ids, hplace, hen]
          exact List.Perm.refl _
        · intro k hk hk'
          cases k with
          | socket => exact absurd rfl hk
          | thread u =>
            rw [UdpDispatch.ids, hplace' u fun hut => hk' (by rw [hut])]
            rfl
          | _ =>
            rw [← hs']
            rfl
      have hcaptures (c : Capture) (hc : Captured s' c) : Holds s' c := by
        by_cases hct : s'.place t = .received c
        · have hc' := Place.received.inj (hplace.symm.trans hct)
          refine ⟨d, ?_, ?_, ?_, ?_, fun i hi => ?_⟩
          · rw [← hc', ← hs']
            exact hd
          · rw [← hc']
            exact hlen
          · rw [← hc']
            exact cleanSockaddr_writeAt host d.peer
          · rw [← hc']
          · rw [← hc'] at hi ⊢
            have hmemory : s'.memory buff = fun i =>
                (d.bytes.take (min d.bytes.length bufferSize)).getD i (s.memory buff i) := by
              rw [← hs']
              exact Function.update_self _ _ _
            rw [hmemory]
            exact getElem?_fill (lt_min (lt_of_lt_of_le hi (min_le_left _ _)) hi) _
        · have hc' : Captured s c := by
            rcases hc with ⟨u, hu⟩ | hc
            · have hut : u ≠ t := fun hut => hct (by rw [← hut, hu])
              exact Or.inl ⟨u, by rw [← hplace' u hut, hu]⟩
            · rw [← hs'] at hc
              exact Or.inr hc
          apply (h.captures c hc').congr
          · rw [← hs']
            exact fun _ hd => hd
          · rw [← hs']
            exact Function.update_of_ne (hc'.buff_ne hen h.owner) _ _
      refine ⟨⟨?_, ?_, ?_, ?_, ?_⟩, ?_, ?_, hcaptures⟩
      · rw [← hs']
        exact h.calls
      · rw [← hs']
        exact h.reads
      · rw [← hs'] at honce ⊢
        exact honce
      · rw [← hs']
        exact h.dropped
      · rw [hbuffs]
        exact h.owner
      · rw [← hs']
        exact hrest'
      · rw [hbuffs, ← hs']
        exact h.bound

/-! ## Steps of the fibers, and the others -/

theorem inv_runInFiber (h : Inv s) (hen : s.place t = .received c) :
    Inv (s.next (.runInFiber t)) := by
  have hnext : s.next (.runInFiber t) = { s with
      place := Function.update s.place t .looping
      scheduled := c :: s.scheduled } := by
    simp only [UdpDispatch.next, hen]
  rw [hnext]
  generalize hs' : UdpDispatch.mk _ _ _ _ _ _ _ _ _ _ _ _ = s'
  have hplace : s'.place t = .looping := by
    rw [← hs']
    exact Function.update_self _ _ _
  have hplace' (u : T) (hu : u ≠ t) : s'.place u = s.place u := by
    rw [← hs']
    exact Function.update_of_ne hu _ _
  have hfrom : (s.buffs (.thread t)).Perm (c.buff :: s'.buffs (.thread t)) := by
    rw [UdpDispatch.buffs, UdpDispatch.buffs, hplace, hen]
    exact List.Perm.refl _
  have hto : (s'.buffs .scheduled).Perm (c.buff :: s.buffs .scheduled) := by
    rw [← hs']
    exact List.Perm.refl _
  have hrest (k : Owner T) (hk : k ≠ .thread t) (hk' : k ≠ .scheduled) :
      s'.buffs k = s.buffs k := by
    cases k with
    | scheduled => exact absurd rfl hk'
    | thread u =>
      rw [UdpDispatch.buffs, hplace' u fun hut => hk (by rw [hut])]
      rfl
    | _ =>
      rw [← hs']
      rfl
  refine h.frame ?_ ?_ (h.owner.move (by simp) hfrom hto hrest) (fun b hb => ?_) fun c' hc => ?_
  · rw [← hs']
    exact ⟨rfl, rfl, rfl, rfl, rfl, rfl⟩
  · apply h.once.move (i := .thread t) (j := .scheduled) (x := c.id) (by simp)
    · rw [UdpDispatch.ids, UdpDispatch.ids, hplace, hen]
      exact List.Perm.refl _
    · rw [← hs']
      exact List.Perm.refl _
    · intro k hk hk'
      cases k with
      | scheduled => exact absurd rfl hk'
      | thread u =>
        rw [UdpDispatch.ids, hplace' u fun hut => hk (by rw [hut])]
        rfl
      | _ =>
        rw [← hs']
        rfl
  · have hb' := h.bound b ((exists_mem_move_iff hfrom hto hrest).mp hb)
    rw [← hs']
    exact hb'
  · have hc' : Captured s c' := by
      rw [← hs'] at hc
      rcases hc with ⟨u, hu⟩ | hc | hc
      · by_cases hut : u = t
        · rw [hut] at hu
          exact absurd ((Function.update_self _ _ _).symm.trans hu) (by simp)
        · exact Or.inl ⟨u, (Function.update_of_ne hut _ _).symm.trans hu⟩
      · rcases List.mem_cons.mp hc with rfl | hc
        · exact Or.inl ⟨t, hen⟩
        · exact Or.inr (Or.inl hc)
      · exact Or.inr (Or.inr hc)
    apply (h.captures c' hc').congr
    · rw [← hs']
      exact fun _ hd => hd
    · rw [← hs']

theorem inv_read (h : Inv s) {index : ℕ} (hen : c ∈ s.running) (hindex : index < c.dlen) :
    Inv (s.next (.read c index)) := by
  refine ⟨⟨h.calls, ?_, h.once, h.dropped, h.owner⟩, h.socket, h.bound, h.captures⟩
  intro r hr
  rcases List.mem_cons.mp hr with rfl | hr
  · obtain ⟨d, hd, -, -, -, hbytes⟩ := h.captures c (Or.inr (Or.inr hen))
    exact ⟨d, hd, hbytes index hindex⟩
  · exact h.reads r hr

theorem inv_releaseBuff (h : Inv s) (hen : c ∈ s.running) : Inv (s.next (.releaseBuff c)) := by
  have hfrom : (s.buffs .running).Perm (c.buff :: (s.next (.releaseBuff c)).buffs .running) :=
    (List.perm_cons_erase hen).map Capture.buff
  have hto : ((s.next (.releaseBuff c)).buffs .free).Perm (c.buff :: s.buffs .free) :=
    List.perm_append_singleton _ _
  have hrest (k : Owner T) (hk : k ≠ .running) (hk' : k ≠ .free) :
      (s.next (.releaseBuff c)).buffs k = s.buffs k := by
    cases k with
    | running => exact absurd rfl hk
    | free => exact absurd rfl hk'
    | _ => rfl
  have hids : (s.next (.releaseBuff c)).ids = s.ids := ids_congr (fun _ => rfl) rfl rfl rfl rfl
  refine h.frame ⟨rfl, rfl, rfl, rfl, rfl, rfl⟩ ?_ (h.owner.move (by simp) hfrom hto hrest)
    (fun b hb => ?_) fun c' hc => ?_
  · rw [hids]
    exact h.once
  · exact h.bound b ((exists_mem_move_iff hfrom hto hrest).mp hb)
  · apply h.captures c'
    exact hc.back (fun _ => rfl) (fun _ hc => hc) fun _ hc => List.mem_of_mem_erase hc

theorem inv_recvMsg (h : Inv s) (hen : c ∈ s.scheduled) : Inv (s.next (.recvMsg c)) := by
  have hids : (s.ids .scheduled).Perm (c.id :: (s.scheduled.erase c).map Capture.id) :=
    (List.perm_cons_erase hen).map Capture.id
  have hbuffs : (s.buffs .scheduled).Perm (c.buff :: (s.scheduled.erase c).map Capture.buff) :=
    (List.perm_cons_erase hen).map Capture.buff
  have hback (c' : Capture) (hc : c' ∈ s.scheduled.erase c) : c' ∈ s.scheduled :=
    List.mem_of_mem_erase hc
  unfold UdpDispatch.next
  dsimp only
  split
  · generalize hs' : UdpDispatch.mk _ _ _ _ _ _ _ _ _ _ _ _ = s'
    have hfrom : (s.buffs .scheduled).Perm (c.buff :: s'.buffs .scheduled) := by
      rw [← hs']
      exact hbuffs
    have hto : (s'.buffs .running).Perm (c.buff :: s.buffs .running) := by
      rw [← hs']
      exact List.Perm.refl _
    have hrest (k : Owner T) (hk : k ≠ .scheduled) (hk' : k ≠ .running) :
        s'.buffs k = s.buffs k := by
      rw [← hs']
      cases k with
      | scheduled => exact absurd rfl hk
      | running => exact absurd rfl hk'
      | _ => rfl
    have howner : Exclusive s'.buffs := h.owner.move (by simp) hfrom hto hrest
    have hbound (b : ℕ) (hb : ∃ k, b ∈ s'.buffs k) : b < s.made :=
      h.bound b ((exists_mem_move_iff hfrom hto hrest).mp hb)
    have honce : Distributed s'.ids {i | i < s.sent.length} := by
      apply h.once.move (i := .scheduled) (j := .called) (x := c.id) (by simp)
      · rw [← hs']
        exact hids
      · rw [← hs']
        exact List.Perm.refl _
      · intro k hk hk'
        rw [← hs']
        cases k with
        | scheduled => exact absurd rfl hk
        | called => exact absurd rfl hk'
        | _ => rfl
    subst hs'
    refine ⟨⟨?_, h.reads, honce, h.dropped, howner⟩, h.socket, hbound, fun c' hc => ?_⟩
    · intro call hcall
      rcases List.mem_cons.mp hcall with rfl | hcall
      · obtain ⟨d, hd, hlen, haddr, hsize, -⟩ := h.captures c (Or.inr (Or.inl hen))
        exact ⟨d, hd, hlen, haddr, hsize⟩
      · exact h.calls call hcall
    · apply h.captures c'
      rcases hc with hc | hc | hc
      · exact Or.inl hc
      · exact Or.inr (Or.inl (hback c' hc))
      · rcases List.mem_cons.mp hc with rfl | hc
        · exact Or.inr (Or.inl hen)
        · exact Or.inr (Or.inr hc)
  · next hgone =>
    generalize hs' : UdpDispatch.mk _ _ _ _ _ _ _ _ _ _ _ _ = s'
    have hfrom : (s.buffs .scheduled).Perm (c.buff :: s'.buffs .scheduled) := by
      rw [← hs']
      exact hbuffs
    have hrest (k : Owner T) (hk : k ≠ .scheduled) : s'.buffs k = s.buffs k := by
      rw [← hs']
      cases k with
      | scheduled => exact absurd rfl hk
      | _ => rfl
    have howner : Exclusive s'.buffs := h.owner.release hfrom hrest
    have hbound (b : ℕ) (hb : ∃ k, b ∈ s'.buffs k) : b < s.made := by
      obtain ⟨k, hb⟩ := hb
      exact h.bound b ⟨k, mem_of_release hfrom hrest hb⟩
    have honce : Distributed s'.ids {i | i < s.sent.length} := by
      apply h.once.move (i := .scheduled) (j := .dropped) (x := c.id) (by simp)
      · rw [← hs']
        exact hids
      · rw [← hs']
        exact List.Perm.refl _
      · intro k hk hk'
        rw [← hs']
        cases k with
        | scheduled => exact absurd rfl hk
        | dropped => exact absurd rfl hk'
        | _ => rfl
    subst hs'
    refine ⟨⟨h.calls, h.reads, honce, ?_, howner⟩, h.socket, hbound, fun c' hc => ?_⟩
    · intro i hi
      rcases List.mem_cons.mp hi with rfl | hi
      · exact Or.inl (by simpa using hgone)
      · exact h.dropped i hi
    · exact h.captures c' (hc.imp_right (Or.imp_left (hback c')))

theorem inv_send (h : Inv s) (bytes : Bytes) (peer : Peer) :
    Inv (s.next (.send bytes peer)) := by
  have hsent {i : ℕ} {d : Datagram} (hd : s.sent[i]? = some d) :
      (s.sent ++ [⟨s.sent.length, bytes, peer⟩])[i]? = some d := by
    rw [List.getElem?_append_left (List.getElem?_eq_some_iff.mp hd).1]
    exact hd
  have hnew : s.sent.length ∉ {i | i < s.sent.length} := lt_irrefl s.sent.length
  have hto : ((s.next (.send bytes peer)).ids .socket).Perm (s.sent.length :: s.ids .socket) := by
    show ((s.socket ++ [_]).map Datagram.id).Perm _
    rw [List.map_append]
    exact List.perm_append_singleton _ _
  have hrest (k : Stage T) (hk : k ≠ .socket) :
      (s.next (.send bytes peer)).ids k = s.ids k := by
    cases k with
    | socket => exact absurd rfl hk
    | _ => rfl
  have hset : insert s.sent.length {i | i < s.sent.length} =
      {i | i < (s.next (.send bytes peer)).sent.length} := by
    ext i
    show i = s.sent.length ∨ i < s.sent.length ↔ i < (s.sent ++ [_]).length
    rw [List.length_append]
    simp only [List.length_singleton]
    omega
  have hbuffs : (s.next (.send bytes peer)).buffs = s.buffs :=
    buffs_congr (fun _ => rfl) rfl rfl rfl
  refine ⟨⟨?_, ?_, ?_, ?_, ?_⟩, ?_, ?_, ?_⟩
  · intro call hcall
    obtain ⟨d, hd, hrest⟩ := h.calls call hcall
    exact ⟨d, hsent hd, hrest⟩
  · intro r hr
    obtain ⟨d, hd, hbyte⟩ := h.reads r hr
    exact ⟨d, hsent hd, hbyte⟩
  · rw [← hset]
    exact h.once.add hnew hto hrest
  · intro i hi
    apply (h.dropped i hi).imp_right
    rintro ⟨d, hd, hlen⟩
    exact ⟨d, hsent hd, hlen⟩
  · rw [hbuffs]
    exact h.owner
  · intro d hd
    rcases List.mem_append.mp hd with hd | hd
    · exact hsent (h.socket d hd)
    · rw [List.mem_singleton.mp hd]
      exact List.getElem?_concat_length
  · rw [hbuffs]
    exact h.bound
  · intro c hc
    have hc' : Captured s c := hc.back (fun _ => rfl) (fun _ hc => hc) fun _ hc => hc
    exact (h.captures c hc').congr (fun _ hd => hsent hd) rfl

theorem inv_destroy (h : Inv s) : Inv (s.next .destroy) := by
  have hids : (s.next .destroy).ids = s.ids := ids_congr (fun _ => rfl) rfl rfl rfl rfl
  have hbuffs : (s.next .destroy).buffs = s.buffs := buffs_congr (fun _ => rfl) rfl rfl rfl
  refine ⟨⟨h.calls, h.reads, ?_, fun _ _ => Or.inl rfl, ?_⟩, h.socket, ?_, fun c hc => ?_⟩
  · rw [hids]
    exact h.once
  · rw [hbuffs]
    exact h.owner
  · rw [hbuffs]
    exact h.bound
  · exact h.captures c (hc.back (fun _ => rfl) (fun _ hc => hc) fun _ hc => hc)

theorem inv_next {x : UdpAction T} (h : Inv s) (hen : s.enabled x) : Inv (s.next x) := by
  cases x with
  | send bytes peer => exact inv_send h bytes peer
  | ioAvail t => exact inv_ioAvail h hen.1
  | getAvailBuff t => exact inv_getAvailBuff h hen
  | recvfrom t host =>
    simp only [UdpDispatch.enabled] at hen
    split at hen
    · next buff hplace =>
      have hnext : s.next (.recvfrom t host) = s.receive t buff host := by
        simp only [UdpDispatch.next, hplace]
      rw [hnext]
      exact inv_receive h hplace
    · exact absurd hen id
  | fail t =>
    simp only [UdpDispatch.enabled] at hen
    split at hen
    · next hplace => exact inv_fail h hplace
    · exact absurd hen id
  | runInFiber t =>
    simp only [UdpDispatch.enabled] at hen
    split at hen
    · next hplace => exact inv_runInFiber h hplace
    · exact absurd hen id
  | recvMsg c => exact inv_recvMsg h hen
  | read c index => exact inv_read h hen.1 hen.2
  | releaseBuff c => exact inv_releaseBuff h hen
  | destroy => exact inv_destroy h

theorem inv_init : Inv (udpMachine (T := T)).init := by
  have hids (k : Stage T) : (udpMachine (T := T)).init.ids k = [] := by cases k <;> rfl
  have hbuffs (k : Owner T) : (udpMachine (T := T)).init.buffs k = [] := by cases k <;> rfl
  refine ⟨⟨?_, ?_, ⟨⟨?_, ?_⟩, ?_⟩, ?_, ⟨?_, ?_⟩⟩, ?_, ?_, ?_⟩
  · exact fun _ hcall => absurd hcall List.not_mem_nil
  · exact fun _ hr => absurd hr List.not_mem_nil
  · exact fun k => by rw [hids]; exact List.nodup_nil
  · exact fun k l i hi => absurd hi (by rw [hids]; exact List.not_mem_nil)
  · refine fun i => iff_of_false ?_ (Nat.not_lt_zero i)
    rintro ⟨k, hi⟩
    rw [hids] at hi
    exact List.not_mem_nil hi
  · exact fun _ hi => absurd hi List.not_mem_nil
  · exact fun k => by rw [hbuffs]; exact List.nodup_nil
  · exact fun k l i hi => absurd hi (by rw [hbuffs]; exact List.not_mem_nil)
  · exact fun _ hd => absurd hd List.not_mem_nil
  · rintro b ⟨k, hb⟩
    rw [hbuffs] at hb
    exact absurd hb List.not_mem_nil
  · rintro c (⟨t, ht⟩ | hc | hc)
    · exact absurd ht (by simp [udpMachine])
    · exact absurd hc List.not_mem_nil
    · exact absurd hc List.not_mem_nil

/-- In every run, `recv_msg` is called once for a datagram and reads the bytes that were sent, as
long as it runs; a datagram is lost only if it is too big, or with the object. -/
theorem udp_delivers (hs : udpMachine.Reachable KeepsObject s) : s.Delivers := by
  have hinv : Inv s := by
    apply Machine.Reachable.invariant _ _ hs
    · exact inv_init
    · exact fun s x h _ hen => inv_next h hen
  exact hinv.toDelivers

end Steps

/-- Two threads share the buffers of three datagrams, one of which is read while the next one comes
in. -/
theorem udp_delivers_three : ∃ s : UdpDispatch Bool,
    (s.reads = [⟨0, 1, 8⟩] ∧ s.calls.map Call.id = [2, 0] ∧ s.made = 3) ∧ s.Delivers := by
  let peer : Peer := .inet #v[0, 53] #v[127, 0, 0, 1]
  let host : Bytes := List.replicate 128 255
  let capture (id buff dlen : ℕ) : Capture := ⟨id, buff, dlen, writeAt host 0 peer.sockaddr, 16⟩
  have hreplay : ((udpMachine (T := Bool)).replay KeepsObject
      [.send [7, 8] peer, .send [9] peer, .ioAvail false, .ioAvail true, .getAvailBuff false,
        .getAvailBuff true, .recvfrom false host, .recvfrom true host, .runInFiber false,
        .recvMsg (capture 0 0 2), .runInFiber true, .read (capture 0 0 2) 1,
        .releaseBuff (capture 0 0 2), .send [] peer, .getAvailBuff true, .recvfrom true host,
        .runInFiber true, .recvMsg (capture 2 0 0), .getAvailBuff false, .recvfrom false host]
      udpMachine.init).any (fun s => decide
        (s.reads = [⟨0, 1, 8⟩] ∧ s.calls.map Call.id = [2, 0] ∧ s.made = 3)) = true := by
    decide +kernel
  obtain ⟨s, hs, hp⟩ := Machine.reachable_of_replay hreplay
  exact ⟨s, of_decide_eq_true hp, udp_delivers hs⟩

end Anon.Udp

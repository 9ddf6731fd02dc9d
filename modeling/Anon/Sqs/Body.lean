import Anon.Lib.Replace

/-!
# Bodies of messages

`get_body` of `aws_sqs.h` undoes the escaping of a message body by five replacements, one after
the other, the first of which puts back the `&` that all others look for.

* `replaceAll`, `getBody`: the replacements.
* `escape`: the standard escaping.
* `getBody_escape`: what comes out.
* `getBody_escape_eq_iff`: when it is what went in.
-/

namespace Anon.Sqs

/-! ## The program -/

/-- `s.find(pat, pos)` -/
def find (s pat : Bytes) (pos : ℕ) : Option ℕ := (strstr (s.drop pos) pat).map (pos + ·)

theorem add_length_le_of_find {s pat : Bytes} {pos fpos : ℕ} (hne : pat ≠ [])
    (h : find s pat pos = some fpos) : pos ≤ fpos ∧ fpos + pat.length ≤ s.length := by
  obtain ⟨i, hi, hfpos⟩ := Option.map_eq_some_iff.mp h
  have hle := add_length_le_of_strstr_eq_some hi
  have hpos := List.length_pos_of_ne_nil hne
  rw [List.length_drop] at hle
  omega

/-- The loop of `replace_all`, which would not end for an empty pattern. -/
def replaceLoop (pat rep : Bytes) (hne : pat ≠ []) (s : Bytes) (pos : ℕ) : Bytes :=
  match _h : find s pat pos with
  | none => s
  | some fpos =>
    replaceLoop pat rep hne (s.take fpos ++ rep ++ s.drop (fpos + pat.length)) (fpos + rep.length)
termination_by s.length - pos
decreasing_by
  have hle := add_length_le_of_find hne _h
  have hpos := List.length_pos_of_ne_nil hne
  rw [List.length_append, List.length_append, List.length_take, List.length_drop]
  omega

/-- `replace_all` -/
def replaceAll (s pat rep : Bytes) (hne : pat ≠ []) : Bytes := replaceLoop pat rep hne s 0

/-- `get_body` -/
def getBody (body : Bytes) : Bytes :=
  let body := replaceAll body (ascii "&amp;") (ascii "&") (by decide)
  let body := replaceAll body (ascii "&quot;") (ascii "\"") (by decide)
  let body := replaceAll body (ascii "&apos;") (ascii "'") (by decide)
  let body := replaceAll body (ascii "&lt;") (ascii "<") (by decide)
  cString (replaceAll body (ascii "&gt;") (ascii ">") (by decide))

/-! ## The escaping -/

def amp : UInt8 := 38
def quot : UInt8 := 34
def apos : UInt8 := 39
def lt : UInt8 := 60
def gt : UInt8 := 62

/-- How a character is written. -/
def entity (c : UInt8) : Bytes :=
  if c = amp then ascii "&amp;"
  else if c = quot then ascii "&quot;"
  else if c = apos then ascii "&apos;"
  else if c = lt then ascii "&lt;"
  else if c = gt then ascii "&gt;"
  else [c]

/-- The service's escaping of a text. -/
def escape (s : Bytes) : Bytes := s.flatMap entity

/-! ## One replacement -/

variable {pat rep s : Bytes} {c x : UInt8} {chars : List UInt8}

/-- The searches of `replace_all` find one occurrence after the other. -/
theorem replaceLoop_eq (hne : pat ≠ []) (rep s : Bytes) (pos : ℕ) :
    replaceLoop pat rep hne s pos = s.take pos ++ substAll pat rep (s.drop pos) := by
  induction hlen : s.length - pos using Nat.strongRecOn generalizing s pos with
  | _ n ih =>
    rw [replaceLoop, substAll_of_strstr hne]
    split
    · next hnone =>
      rw [find, Option.map_eq_none_iff] at hnone
      rw [hnone, List.take_append_drop]
    · next fpos hsome =>
      obtain ⟨hpos, hle⟩ := add_length_le_of_find hne hsome
      obtain ⟨i, hi, rfl⟩ := Option.map_eq_some_iff.mp hsome
      have hpat := List.length_pos_of_ne_nil hne
      have htake : s.take (pos + i) = s.take pos ++ (s.drop pos).take i := List.take_add
      have hdone : (s.take (pos + i) ++ rep).length = pos + i + rep.length := by
        rw [List.length_append, List.length_take]
        omega
      rw [hi]
      show _ = s.take pos ++
        ((s.drop pos).take i ++ rep ++ substAll pat rep ((s.drop pos).drop (i + pat.length)))
      rw [ih _ _ _ _ rfl, ← hdone, List.take_left, List.drop_left, htake, List.drop_drop,
        ← Nat.add_assoc]
      · simp only [List.append_assoc]
      · rw [List.length_append, hdone, List.length_drop]
        omega

theorem replaceAll_eq (hne : pat ≠ []) (s rep : Bytes) :
    replaceAll s pat rep hne = substAll pat rep s := by
  rw [replaceAll, replaceLoop_eq, List.take_zero, List.nil_append, List.drop_zero]

/-! ## Texts in which some characters are escaped -/

/-- The text with the given characters escaped. -/
def escapeOnly (chars : List UInt8) (s : Bytes) : Bytes :=
  s.flatMap fun c => if c ∈ chars then entity c else [c]

theorem escapeOnly_cons_of_mem (h : c ∈ chars) (s : Bytes) :
    escapeOnly chars (c :: s) = entity c ++ escapeOnly chars s := by
  rw [escapeOnly, List.flatMap_cons, if_pos h]
  rfl

theorem escapeOnly_cons_of_notMem (h : c ∉ chars) (s : Bytes) :
    escapeOnly chars (c :: s) = c :: escapeOnly chars s := by
  rw [escapeOnly, List.flatMap_cons, if_neg h]
  rfl

theorem escapeOnly_append (s t : Bytes) :
    escapeOnly chars (s ++ t) = escapeOnly chars s ++ escapeOnly chars t := List.flatMap_append

theorem escapeOnly_of_notMem (h : ∀ c ∈ s, c ∉ chars) : escapeOnly chars s = s := by
  induction s with
  | nil => rfl
  | cons c s ih =>
    rw [escapeOnly_cons_of_notMem (h c List.mem_cons_self),
      ih fun c hc => h c (List.mem_cons_of_mem _ hc)]

/-- The characters that are escaped. -/
def special : List UInt8 := [amp, quot, apos, lt, gt]

theorem entity_of_notMem (h : c ∉ special) : entity c = [c] := by
  simp only [special, List.mem_cons, List.not_mem_nil, or_false, not_or] at h
  rw [entity, if_neg h.1, if_neg h.2.1, if_neg h.2.2.1, if_neg h.2.2.2.1, if_neg h.2.2.2.2]

theorem escape_eq (s : Bytes) : escape s = escapeOnly special s := by
  apply congrArg (fun f => s.flatMap f)
  ext1 c
  split
  · rfl
  · next h => exact entity_of_notMem h

/-- An escape sequence begins with `&`, which is not in it again. -/
theorem entity_eq_cons : ∀ c ∈ special,
    entity c = amp :: (entity c).tail ∧ amp ∉ (entity c).tail ∧ 3 ≤ (entity c).length := by
  decide +kernel

/-- No special character but `&` is in an escape sequence. -/
theorem plain_entity : ∀ c ∈ special, ∀ d ∈ entity c, d = amp ∨ d ∉ special := by
  decide +kernel

/-- The first three characters tell the escape sequences apart. -/
theorem entity_unique : ∀ c ∈ special, ∀ d ∈ special,
    (entity c).take 3 = (entity d).take 3 → c = d := by
  decide +kernel

/-! ## The five replacements -/

/-- A replacement leaves the escape sequences of other characters alone. -/
theorem substAll_entity (hx : x ∈ special) (hc : c ∈ special) (hne : c ≠ x) (rep s : Bytes) :
    substAll (entity x) rep (entity c ++ s) = entity c ++ substAll (entity x) rep s := by
  obtain ⟨hcons, hnot, hlen⟩ := entity_eq_cons c hc
  obtain ⟨hxcons, -, hxlen⟩ := entity_eq_cons x hx
  have hprefix : ¬entity x <+: entity c ++ s := by
    rintro ⟨rest, hrest⟩
    have htake := congrArg (List.take 3) hrest
    rw [List.take_append_of_le_length hxlen, List.take_append_of_le_length hlen] at htake
    exact hne (entity_unique x hx c hc htake).symm
  rw [hcons, List.cons_append] at hprefix ⊢
  rw [substAll_cons hprefix, hxcons, substAll_append hnot, List.cons_append]

/-- The first replacement puts back the `&`. -/
theorem substAll_amp (hsub : ∀ c ∈ chars, c ∈ special) (hamp : amp ∉ chars) (s : Bytes) :
    substAll (entity amp) [amp] (escapeOnly (amp :: chars) s) = escapeOnly chars s := by
  induction s with
  | nil => exact substAll_nil _ _
  | cons c s ih =>
    by_cases hc : c = amp
    · rw [hc, escapeOnly_cons_of_mem List.mem_cons_self, substAll_pattern (by decide), ih,
        escapeOnly_cons_of_notMem hamp]
      rfl
    · by_cases hmem : c ∈ chars
      · rw [escapeOnly_cons_of_mem (List.mem_cons_of_mem amp hmem),
          substAll_entity (by decide) (hsub c hmem) hc, ih, escapeOnly_cons_of_mem hmem]
      -- a plain character is not the beginning of an escape sequence
      · have hnot : c ∉ amp :: chars := by
          rw [List.mem_cons, not_or]
          exact ⟨hc, hmem⟩
        have hprefix : ¬entity amp <+: c :: escapeOnly (amp :: chars) s := by
          rw [show entity amp = amp :: ascii "amp;" by decide, List.cons_prefix_cons]
          exact fun h => hc h.1.symm
        rw [escapeOnly_cons_of_notMem hnot, substAll_cons hprefix, ih,
          escapeOnly_cons_of_notMem hmem]

/-- Plain text is in front of an escaped text if it is in front of the text. -/
theorem prefix_escapeOnly (hsub : ∀ c ∈ chars, c ∈ special) {plain : Bytes}
    (hplain : ∀ d ∈ plain, d ≠ amp ∧ d ∉ chars) :
    plain <+: escapeOnly chars s → plain <+: s := by
  induction plain generalizing s with
  | nil => exact fun _ => List.nil_prefix
  | cons d plain ih =>
    obtain ⟨hamp, hd⟩ := hplain d List.mem_cons_self
    intro h
    cases s with
    | nil => exact h
    | cons c s =>
      by_cases hmem : c ∈ chars
      · obtain ⟨hcons, -⟩ := entity_eq_cons c (hsub c hmem)
        rw [escapeOnly_cons_of_mem hmem, hcons, List.cons_append, List.cons_prefix_cons] at h
        exact absurd h.1 hamp
      · rw [escapeOnly_cons_of_notMem hmem, List.cons_prefix_cons] at h
        rw [List.cons_prefix_cons]
        exact ⟨h.1, ih (fun e he => hplain e (List.mem_cons_of_mem d he)) h.2⟩

/-- Each other replacement puts back its character, and takes what looks like its escape sequence
in the text for one. -/
theorem substAll_escapeOnly (hx : x ∈ special) (hxamp : x ≠ amp)
    (hsub : ∀ c ∈ chars, c ∈ special) (hamp : amp ∉ chars) (hxnot : x ∉ chars) (s : Bytes) :
    substAll (entity x) [x] (escapeOnly (x :: chars) s) =
      escapeOnly chars (substAll (entity x) [x] s) := by
  obtain ⟨hcons, hnot, -⟩ := entity_eq_cons x hx
  have hne : entity x ≠ [] := by
    rw [hcons]
    exact List.cons_ne_nil _ _
  have hall : ∀ c ∈ x :: chars, c ∈ special := by
    intro c hc
    rcases List.mem_cons.mp hc with rfl | hc
    · exact hx
    · exact hsub c hc
  have hampnot : amp ∉ x :: chars := by
    rw [List.mem_cons, not_or]
    exact ⟨Ne.symm hxamp, hamp⟩
  have hliteral : ∀ d ∈ entity x, d ∉ x :: chars := by
    intro d hd
    rcases plain_entity x hx d hd with rfl | hd
    · exact hampnot
    · exact fun hmem => hd (hall d hmem)
  induction s using substAll_induction hne with
  | nil => rw [substAll_nil, escapeOnly, List.flatMap_nil, substAll_nil, escapeOnly,
      List.flatMap_nil]
  | pattern s ih =>
    have hself : escapeOnly chars [x] = [x] := escapeOnly_cons_of_notMem hxnot []
    rw [escapeOnly_append, escapeOnly_of_notMem hliteral, substAll_pattern hne, ih,
      substAll_pattern hne, escapeOnly_append, hself]
  | cons c s hprefix ih =>
    rw [substAll_cons hprefix]
    by_cases hc : c = x
    · rw [hc, escapeOnly_cons_of_mem List.mem_cons_self, substAll_pattern hne, ih,
        escapeOnly_cons_of_notMem hxnot]
      rfl
    · by_cases hmem : c ∈ chars
      · rw [escapeOnly_cons_of_mem (List.mem_cons_of_mem x hmem),
          substAll_entity hx (hsub c hmem) hc, ih, escapeOnly_cons_of_mem hmem]
      · have hout : c ∉ x :: chars := by
          rw [List.mem_cons, not_or]
          exact ⟨hc, hmem⟩
        have hstill : ¬entity x <+: c :: escapeOnly (x :: chars) s := by
          intro h
          apply hprefix
          rw [hcons, List.cons_prefix_cons] at h ⊢
          refine ⟨h.1, prefix_escapeOnly hall ?_ h.2⟩
          intro d hd
          have hd' : d ∈ entity x := by
            rw [hcons]
            exact List.mem_cons_of_mem amp hd
          exact ⟨fun heq => hnot (heq ▸ hd), hliteral d hd'⟩
        rw [escapeOnly_cons_of_notMem hout, substAll_cons hstill, ih,
          escapeOnly_cons_of_notMem hmem]

/-- What comes out of an escaped text: the text, with what looks like an escape sequence decoded
once more. -/
theorem getBody_escape (hs : 0 ∉ s) : getBody (escape s) =
    substAll (entity gt) [gt] (substAll (entity lt) [lt]
      (substAll (entity apos) [apos] (substAll (entity quot) [quot] s))) := by
  have hquot (t : Bytes) : substAll (entity quot) [quot] (escapeOnly [quot, apos, lt, gt] t) =
      escapeOnly [apos, lt, gt] (substAll (entity quot) [quot] t) := by
    apply substAll_escapeOnly <;> decide +kernel
  have hapos (t : Bytes) : substAll (entity apos) [apos] (escapeOnly [apos, lt, gt] t) =
      escapeOnly [lt, gt] (substAll (entity apos) [apos] t) := by
    apply substAll_escapeOnly <;> decide +kernel
  have hlt (t : Bytes) : substAll (entity lt) [lt] (escapeOnly [lt, gt] t) =
      escapeOnly [gt] (substAll (entity lt) [lt] t) := by
    apply substAll_escapeOnly <;> decide +kernel
  have hgt (t : Bytes) : substAll (entity gt) [gt] (escapeOnly [gt] t) =
      escapeOnly [] (substAll (entity gt) [gt] t) := by
    apply substAll_escapeOnly <;> decide +kernel
  have hnone (t : Bytes) : escapeOnly [] t = t :=
    escapeOnly_of_notMem fun _ _ => List.not_mem_nil
  have hbody : getBody (escape s) = cString (substAll (entity gt) [gt] (substAll (entity lt) [lt]
      (substAll (entity apos) [apos] (substAll (entity quot) [quot] (substAll (entity amp) [amp]
        (escape s)))))) := by
    rw [getBody]
    simp only [replaceAll_eq]
    rfl
  have hzero : 0 ∉ substAll (entity gt) [gt] (substAll (entity lt) [lt]
      (substAll (entity apos) [apos] (substAll (entity quot) [quot] s))) := by
    intro h
    have h := (mem_substAll (by decide +kernel) h).resolve_left (by decide +kernel)
    have h := (mem_substAll (by decide +kernel) h).resolve_left (by decide +kernel)
    have h := (mem_substAll (by decide +kernel) h).resolve_left (by decide +kernel)
    exact hs ((mem_substAll (by decide +kernel) h).resolve_left (by decide +kernel))
  rw [hbody, escape_eq, special, substAll_amp (by decide +kernel) (by decide +kernel), hquot,
    hapos, hlt, hgt, hnone, cString_eq_self hzero]

/-- No escape sequence but `&amp;` is in the text. -/
def NoEntity (s : Bytes) : Prop := ∀ c ∈ special, c ≠ amp → ¬entity c <:+: s

instance (s : Bytes) : Decidable (NoEntity s) :=
  inferInstanceAs (Decidable (∀ c ∈ special, c ≠ amp → ¬entity c <:+: s))

/-- Decoding gives an escaped text back exactly if no escape sequence but `&amp;` is in it. -/
theorem getBody_escape_eq_iff (hs : 0 ∉ s) : getBody (escape s) = s ↔ NoEntity s := by
  have hshort : ∀ c ∈ special, [c].length < (entity c).length := by decide +kernel
  have hle (c : UInt8) (hc : c ∈ special) (t : Bytes) :=
    length_substAll_le (hshort c hc) t
  have heq (c : UInt8) (hc : c ∈ special) (t : Bytes) :=
    substAll_eq_self_iff (s := t) (hshort c hc)
  have hsame (c : UInt8) (hc : c ∈ special) (t : Bytes) :
      substAll (entity c) [c] t = t ↔ (substAll (entity c) [c] t).length = t.length := by
    rw [heq c hc t, length_substAll_eq_iff (hshort c hc)]
  rw [getBody_escape hs]
  constructor
  -- none of the replacements has made the text shorter
  · intro h
    have hlen := congrArg List.length h
    have hone := hle quot (by decide +kernel) s
    have htwo := hle apos (by decide +kernel) (substAll (entity quot) [quot] s)
    have hthree := hle lt (by decide +kernel)
      (substAll (entity apos) [apos] (substAll (entity quot) [quot] s))
    have hfour := hle gt (by decide +kernel) (substAll (entity lt) [lt]
      (substAll (entity apos) [apos] (substAll (entity quot) [quot] s)))
    have hquot : substAll (entity quot) [quot] s = s :=
      (hsame quot (by decide +kernel) s).mpr (by omega)
    rw [hquot] at hlen htwo hthree hfour
    have hapos : substAll (entity apos) [apos] s = s :=
      (hsame apos (by decide +kernel) s).mpr (by omega)
    rw [hapos] at hlen hthree hfour
    have hlt : substAll (entity lt) [lt] s = s :=
      (hsame lt (by decide +kernel) s).mpr (by omega)
    rw [hlt] at hlen
    have hgt : substAll (entity gt) [gt] s = s :=
      (hsame gt (by decide +kernel) s).mpr hlen
    intro c hc hne
    simp only [special, List.mem_cons, List.not_mem_nil, or_false] at hc
    rcases hc with rfl | rfl | rfl | rfl | rfl
    · exact absurd rfl hne
    · exact (heq quot (by decide +kernel) s).mp hquot
    · exact (heq apos (by decide +kernel) s).mp hapos
    · exact (heq lt (by decide +kernel) s).mp hlt
    · exact (heq gt (by decide +kernel) s).mp hgt
  · intro h
    rw [(heq quot (by decide +kernel) s).mpr (h quot (by decide +kernel) (by decide +kernel)),
      (heq apos (by decide +kernel) s).mpr (h apos (by decide +kernel) (by decide +kernel)),
      (heq lt (by decide +kernel) s).mpr (h lt (by decide +kernel) (by decide +kernel)),
      (heq gt (by decide +kernel) s).mpr (h gt (by decide +kernel) (by decide +kernel))]

/-- A text that quotes a tag. -/
theorem getBody_escape_tag : getBody (escape (ascii "a < b & \"&amp;\"")) =
    ascii "a < b & \"&amp;\"" :=
  (getBody_escape_eq_iff (by decide +kernel)).mpr (by decide +kernel)

/-- A text that quotes an escape sequence. -/
theorem getBody_escape_quoted : escape (ascii "&lt;") = ascii "&amp;lt;" ∧
    getBody (ascii "&amp;lt;") = ascii "<" ∧ getBody (escape (ascii "&lt;")) ≠ ascii "&lt;" := by
  decide +kernel

end Anon.Sqs

import Anon.Lib.CString

/-!
# The host name of a certificate

`compare_to_host` and `verify_host_name` of `tls_context.cpp`: whether a certificate was issued to
the host that a connection is made to. The names come from the certificate, so they are any bytes;
`ASN1_STRING_to_UTF8` gives them with their length and puts a NUL behind them.

* `verifyHostName`: the check as the code makes it.
* `Matches`: what it is to establish.
* `Loose`: the names that it takes although they do not match.
-/

namespace Anon.Tls

/-- What `ASN1_STRING_to_UTF8` makes of a string; `none` if it fails. -/
abbrev Utf8 := Option Bytes

/-- An entry of the subject alternative names. -/
inductive GeneralName
  | dns (dNSName : Utf8)
  /-- Any other type of name. -/
  | other

/-- What `verify_host_name` reads of an `X509`. -/
structure X509 where
  /-- The subject alternative names, unless there are none; an entry may be a null pointer. -/
  names : Option (List (Option GeneralName))
  /-- The first common name of the subject, unless there is none. -/
  commonName : Option Utf8

/-- A host name is a C string of the program itself. -/
def HostName := { s : Bytes // 0 ∉ s }

/-- The character `*`. -/
def star : UInt8 := 42

/-- `compare_to_host` -/
def compareToHost (certName : Bytes) (hostName : HostName) : Bool :=
  let utf8 := cString certName
  let len1 := utf8.length
  if 1 < len1 ∧ utf8.head? = some star then
    let pos := strstr hostName.val utf8.tail
    -- The statement that this comparison guards is empty.
    if pos = some (hostName.val.length - (len1 - 1)) then true else true
  else decide (utf8 = hostName.val)

/-- The body of the loop over the subject alternative names. -/
def verifyEntry (hostName : HostName) : Option GeneralName → Bool
  | some (.dns (some utf8)) =>
    let len1 := utf8.length
    let len2 := (cString utf8).length
    decide (len1 ≠ 0) && decide (len2 ≠ 0) && decide (len1 = len2) && compareToHost utf8 hostName
  | _ => false

/-- The part of `verify_host_name` that looks at the common name. -/
def verifyCommonName (hostName : HostName) : Option Utf8 → Bool
  | some (some utf8) => decide (0 < utf8.length) && compareToHost utf8 hostName
  | _ => false

/-- `verify_host_name` -/
def verifyHostName (cert : Option X509) (hostName : HostName) : Bool :=
  match cert with
  | none => false
  | some cert =>
    (match cert.names with
      | none => false
      | some names => names.any (verifyEntry hostName)) ||
    verifyCommonName hostName cert.commonName

/-! ## What a name may stand for -/

/-- The name is the host, or `*` and a nonempty suffix of it. -/
def Matches (name : Bytes) (hostName : HostName) : Prop :=
  0 ∉ name ∧ (name = hostName.val ∨
    ∃ suffix, suffix ≠ [] ∧ name = star :: suffix ∧ suffix <:+ hostName.val)

/-- `name` is one of the DNS names among the subject alternative names. -/
def X509.IsDnsName (cert : X509) (name : Bytes) : Prop :=
  ∃ names, cert.names = some names ∧ some (GeneralName.dns (some name)) ∈ names

/-- `name` is the common name. -/
def X509.IsCommonName (cert : X509) (name : Bytes) : Prop := cert.commonName = some (some name)

/-- The common name is the one consulted: no subject alternative name has been taken. -/
def X509.ConsultsCommonName (cert : X509) (hostName : HostName) : Prop :=
  ∀ names, cert.names = some names → ∀ entry ∈ names, verifyEntry hostName entry = false

/-- Some name of the certificate that is consulted matches the host. -/
def X509.IssuedTo (cert : X509) (hostName : HostName) : Prop :=
  (∃ name, cert.IsDnsName name ∧ Matches name hostName) ∨
  (cert.ConsultsCommonName hostName ∧ ∃ name, cert.IsCommonName name ∧ Matches name hostName)

/-- A check of the host name: a certificate that is taken was issued to the host. -/
def SoundFor (cert : Option X509) (hostName : HostName) : Prop :=
  verifyHostName cert hostName = true → ∃ c, cert = some c ∧ c.IssuedTo hostName

/-- The part of the name in front of a NUL is `*` and something that the host does not end with,
or the name has a NUL behind a part that is the host or `*` and something. -/
def Loose (name : Bytes) (hostName : HostName) : Prop :=
  (∃ suffix, suffix ≠ [] ∧ cString name = star :: suffix ∧
    (0 ∈ name ∨ ¬suffix <:+ hostName.val)) ∨
  (0 ∈ name ∧ cString name = hostName.val)

/-- No DNS name without a NUL and no common name is loose, or some DNS name matches anyway. -/
def X509.Strict (cert : X509) (hostName : HostName) : Prop :=
  (∃ name, cert.IsDnsName name ∧ 0 ∉ name ∧ Loose name hostName) ∨
    (∃ name, cert.IsCommonName name ∧ Loose name hostName) →
  ∃ name, cert.IsDnsName name ∧ Matches name hostName

/-! ## Single names -/

variable {name : Bytes} {hostName : HostName} {cert : X509}

/-- A name that `compare_to_host` takes. -/
def Accepted (name : Bytes) (hostName : HostName) : Prop :=
  (∃ suffix, suffix ≠ [] ∧ cString name = star :: suffix) ∨ cString name = hostName.val

theorem compareToHost_iff : compareToHost name hostName = true ↔ Accepted name hostName := by
  unfold compareToHost Accepted
  by_cases hwild : 1 < (cString name).length ∧ (cString name).head? = some star
  · simp only [if_pos hwild, ite_self, true_iff]
    obtain ⟨hlen, hhead⟩ := hwild
    obtain ⟨suffix, hsuffix⟩ := List.head?_eq_some_iff.mp hhead
    refine .inl ⟨suffix, ?_, hsuffix⟩
    intro hnil
    rw [hsuffix, hnil] at hlen
    exact absurd hlen (by decide)
  · simp only [if_neg hwild, decide_eq_true_eq]
    constructor
    · exact .inr
    · intro h
      obtain ⟨suffix, hne, hsuffix⟩ | h := h
      · have hlen : 0 < suffix.length := List.length_pos_iff.mpr hne
        refine absurd ⟨?_, ?_⟩ hwild
        · rw [hsuffix, List.length_cons]
          omega
        · rw [hsuffix, List.head?_cons]
      · exact h

/-- What is taken matches the host or is loose. -/
theorem Accepted.matches_or_loose (h : Accepted name hostName) :
    Matches name hostName ∨ Loose name hostName := by
  by_cases hzero : 0 ∈ name
  · obtain ⟨suffix, hne, hsuffix⟩ | h := h
    · exact .inr (.inl ⟨suffix, hne, hsuffix, .inl hzero⟩)
    · exact .inr (.inr ⟨hzero, h⟩)
  · rw [Accepted, cString_eq_self hzero] at h
    obtain ⟨suffix, hne, hsuffix⟩ | h := h
    · by_cases hends : suffix <:+ hostName.val
      · exact .inl ⟨hzero, .inr ⟨suffix, hne, hsuffix, hends⟩⟩
      · exact .inr (.inl ⟨suffix, hne, by rwa [cString_eq_self hzero], .inr hends⟩)
    · exact .inl ⟨hzero, .inl h⟩

theorem Loose.accepted (h : Loose name hostName) : Accepted name hostName := by
  obtain ⟨suffix, hne, hsuffix, -⟩ | ⟨-, h⟩ := h
  · exact .inl ⟨suffix, hne, hsuffix⟩
  · exact .inr h

/-- A loose name that matches would have a suffix that the host both has and has not. -/
theorem Loose.not_matches (h : Loose name hostName) : ¬Matches name hostName := by
  intro hm
  obtain ⟨hzero, hm⟩ := hm
  rw [Loose, cString_eq_self hzero] at h
  obtain ⟨suffix, -, hsuffix, hout⟩ | ⟨hin, -⟩ := h
  · have hends := hout.resolve_left hzero
    obtain hname | ⟨suffix', -, hsuffix', hends'⟩ := hm
    · apply hends
      rw [← hname, hsuffix]
      exact List.suffix_cons star suffix
    · rw [hsuffix] at hsuffix'
      rw [(List.cons.inj hsuffix').2] at hends
      exact hends hends'
  · exact hzero hin

/-! ## The names of a certificate -/

/-- An entry is taken for a nonempty DNS name without a NUL. -/
theorem verifyEntry_iff {entry : Option GeneralName} : verifyEntry hostName entry = true ↔
    ∃ name, entry = some (.dns (some name)) ∧ name ≠ [] ∧ 0 ∉ name ∧ Accepted name hostName := by
  unfold verifyEntry
  split
  · next utf8 =>
    have hzero : utf8.length = (cString utf8).length ↔ 0 ∉ utf8 := by
      rw [← length_cString_eq_iff]
      exact eq_comm
    simp only [Bool.and_eq_true, decide_eq_true_eq, compareToHost_iff, hzero]
    constructor
    · intro h
      obtain ⟨⟨⟨hlen, -⟩, hzero⟩, haccepted⟩ := h
      exact ⟨utf8, rfl, List.ne_nil_of_length_pos (by omega), hzero, haccepted⟩
    · intro h
      obtain ⟨name, hname, hne, hzero, haccepted⟩ := h
      obtain rfl : utf8 = name := by simpa using hname
      have hlen := List.length_pos_iff.mpr hne
      exact ⟨⟨⟨by omega, by rw [cString_eq_self hzero]; omega⟩, hzero⟩, haccepted⟩
  · next hother =>
    constructor
    · intro h
      exact absurd h Bool.false_ne_true
    · intro h
      obtain ⟨name, rfl, -⟩ := h
      exact absurd rfl (hother name)

theorem verifyCommonName_iff : verifyCommonName hostName cert.commonName = true ↔
    ∃ name, cert.IsCommonName name ∧ name ≠ [] ∧ Accepted name hostName := by
  unfold verifyCommonName X509.IsCommonName
  split
  · next utf8 hcommon =>
    simp only [Bool.and_eq_true, decide_eq_true_eq, compareToHost_iff, List.length_pos_iff, hcommon,
      Option.some.injEq]
    constructor
    · intro h
      exact ⟨utf8, rfl, h⟩
    · intro h
      obtain ⟨name, rfl, h⟩ := h
      exact h
  · next hother =>
    constructor
    · intro h
      exact absurd h Bool.false_ne_true
    · intro h
      obtain ⟨name, hname, -⟩ := h
      exact absurd hname (hother name)

/-- The loop over the subject alternative names takes a certificate for one of its DNS names. -/
theorem consultsCommonName_iff : cert.ConsultsCommonName hostName ↔
    ∀ name, cert.IsDnsName name → name ≠ [] → 0 ∉ name → ¬Accepted name hostName := by
  constructor
  · intro h name hname hne hzero haccepted
    obtain ⟨names, hnames, hmem⟩ := hname
    have htaken := verifyEntry_iff.mpr ⟨name, rfl, hne, hzero, haccepted⟩
    rw [h names hnames _ hmem] at htaken
    exact absurd htaken Bool.false_ne_true
  · intro h names hnames entry hmem
    rw [← Bool.not_eq_true, verifyEntry_iff]
    intro htaken
    obtain ⟨name, rfl, hne, hzero, haccepted⟩ := htaken
    exact h name ⟨names, hnames, hmem⟩ hne hzero haccepted

/-- A certificate is taken for one of its DNS names, or else for its common name. -/
theorem verifyHostName_iff : verifyHostName (some cert) hostName = true ↔
    ¬cert.ConsultsCommonName hostName ∨
      ∃ name, cert.IsCommonName name ∧ name ≠ [] ∧ Accepted name hostName := by
  rw [← verifyCommonName_iff]
  show (_ || _) = true ↔ _
  rw [Bool.or_eq_true]
  apply or_congr_left
  rw [X509.ConsultsCommonName]
  cases hnames : cert.names with
  | none => simp
  | some names =>
    rw [List.any_eq_true]
    push Not
    constructor
    · intro h
      obtain ⟨entry, hmem, htaken⟩ := h
      exact ⟨names, rfl, entry, hmem, by rw [htaken]; decide⟩
    · intro h
      obtain ⟨names', hsome, entry, hmem, htaken⟩ := h
      obtain rfl := Option.some.inj hsome
      exact ⟨entry, hmem, by simpa using htaken⟩

/-! ## The whole check -/

/-- A certificate that is not strict is taken for a loose name of it. -/
theorem X509.Strict.of_sound (h : SoundFor (some cert) hostName) : cert.Strict hostName := by
  have hissued : verifyHostName (some cert) hostName = true → cert.IssuedTo hostName := by
    intro htaken
    obtain ⟨c, hc, hissued⟩ := h htaken
    rwa [Option.some.inj hc]
  intro hloose
  by_cases hconsults : cert.ConsultsCommonName hostName
  · -- No DNS name is taken, so the loose one is the common name.
    obtain ⟨name, hname, hzero, hloose⟩ | ⟨name, hname, hloose⟩ := hloose
    · have hne : name ≠ [] := by
        rintro rfl
        obtain ⟨suffix, -, hsuffix, -⟩ | ⟨hin, -⟩ := hloose
        · exact absurd hsuffix (by simp [cString])
        · exact hzero hin
      exact absurd hloose.accepted (consultsCommonName_iff.mp hconsults name hname hne hzero)
    · have hne : name ≠ [] := by
        rintro rfl
        obtain ⟨suffix, -, hsuffix, -⟩ | ⟨hin, -⟩ := hloose
        · exact absurd hsuffix (by simp [cString])
        · exact absurd hin List.not_mem_nil
      obtain hdns | ⟨-, name', hname', hmatches⟩ :=
        hissued (verifyHostName_iff.mpr (.inr ⟨name, hname, hne, hloose.accepted⟩))
      · exact hdns
      · obtain rfl : name = name' := by simpa using hname.symm.trans hname'
        exact absurd hmatches hloose.not_matches
  · obtain hdns | ⟨hconsults', -⟩ := hissued (verifyHostName_iff.mpr (.inl hconsults))
    · exact hdns
    · exact absurd hconsults' hconsults

/-- A strict certificate is taken only for a name that matches. -/
theorem X509.Strict.issuedTo (h : cert.Strict hostName)
    (htaken : verifyHostName (some cert) hostName = true) : cert.IssuedTo hostName := by
  by_cases hconsults : cert.ConsultsCommonName hostName
  · obtain ⟨name, hname, -, haccepted⟩ :=
      (verifyHostName_iff.mp htaken).resolve_left (not_not.mpr hconsults)
    obtain hmatches | hloose := haccepted.matches_or_loose
    · exact .inr ⟨hconsults, name, hname, hmatches⟩
    · exact .inl (h (.inr ⟨name, hname, hloose⟩))
  · rw [consultsCommonName_iff] at hconsults
    push Not at hconsults
    obtain ⟨name, hname, -, hzero, haccepted⟩ := hconsults
    obtain hmatches | hloose := haccepted.matches_or_loose
    · exact .inl ⟨name, hname, hmatches⟩
    · exact .inl (h (.inl ⟨name, hname, hzero, hloose⟩))

/-- The check is sound for exactly the certificates whose names are strict. -/
theorem verify_host_name_sound_iff (cert : Option X509) (hostName : HostName) :
    SoundFor cert hostName ↔ ∀ c, cert = some c → c.Strict hostName := by
  constructor
  · intro h c hc
    apply X509.Strict.of_sound
    rwa [← hc]
  · intro h htaken
    cases cert with
    | none => exact absurd htaken Bool.false_ne_true
    | some c => exact ⟨c, rfl, (h c rfl).issuedTo htaken⟩

/-- A certificate for `*x` is taken for the host `a`. -/
theorem verify_host_name_takes_wildcard :
    ¬SoundFor (some ⟨some [some (.dns (some [star, 120]))], none⟩) ⟨[97], by decide⟩ := by
  intro h
  obtain ⟨c, hc, hissued⟩ := h (by decide +kernel)
  obtain rfl := Option.some.inj hc
  obtain ⟨name, ⟨names, hnames, hmem⟩, hzero, hm⟩ | ⟨-, name, hname, -⟩ := hissued
  · obtain rfl := Option.some.inj hnames
    obtain rfl : name = [star, 120] := by simpa using hmem
    obtain heq | ⟨suffix, -, hsuffix, hends⟩ := hm
    · exact absurd heq (by decide)
    · obtain rfl := (List.cons.inj hsuffix).2
      exact absurd hends (by decide)
  · exact absurd hname (by simp [X509.IsCommonName])

end Anon.Tls

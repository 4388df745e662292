import PolkadotApi.MachineModel
import PolkadotApi.SubstringSearch

set_option autoImplicit false

namespace PolkadotApi.HostNames
open StreamReader MachineModel SubstringSearch

def HOST_SIZE : ℕ := 1024

def copyHost (s : Str) : Result Str :=
  if (cstr s).length < HOST_SIZE then .ok (cstr s) else .error .undefined

/-- The part between the slashes, which is cut off by a NUL. -/
def hostTrimmed (hostname : Str) : Str :=
  match search (lit "//") hostname with
  | some firstSlash => (firstSlash.drop 2).takeWhile (· ≠ 47)
  | none => hostname

/-- The certificate's name without what stands before and in its wildcard. -/
def certHostTrimmed (certHost : Str) : Str :=
  match search (lit "*.") certHost with
  | some asterisk => asterisk.drop 2
  | none => certHost

def compare_host_name (node_url cert_hostname : Str) : Result Bool := do
  let hostname ← copyHost node_url
  let certHost ← copyHost cert_hostname
  return (search (certHostTrimmed certHost) (hostTrimmed hostname)).isSome

section Certificates

inductive GeneralName where
  | dNSName (data : Str)
  | other
  deriving DecidableEq

structure Certificate where
  subjectAltNames : Option (List GeneralName)
  commonName : Option Str

/-- `ASN1_STRING_length` differs from `strlen`. -/
def embeddedNul (data : Str) : Bool := (cstr data).length ≠ data.length

/-- The loop over the names; an embedded NUL ends it. -/
def sanLoop (node_url : Str) : List GeneralName → Result Bool
  | [] => .ok false
  | .other :: names => sanLoop node_url names
  | .dNSName data :: names =>
    if embeddedNul data then .ok false
    else do
      if ← compare_host_name node_url data then return true
      sanLoop node_url names

def verify_subject_alternative_name (node_url : Str) (cert : Certificate) : Result Bool :=
  match cert.subjectAltNames with
  | none => .ok false
  | some names => sanLoop node_url names

def verify_common_name (node_url : Str) (cert : Certificate) : Result Bool :=
  match cert.commonName with
  | none => .ok false
  | some data => if embeddedNul data then .ok false else compare_host_name node_url data

/-- What `verify_certificate` does with the server's own certificate, once it is
preverified. -/
def verify_certificate (node_url : Str) (cert : Certificate) : Result Bool := do
  if ← verify_subject_alternative_name node_url cert then return true
  verify_common_name node_url cert

end Certificates

section Urls

structure NodeUrl where
  scheme : Str
  host : Str
  port : Option Str
  path : Option Str
  scheme_slash : 47 ∉ scheme
  host_slash : 47 ∉ host
  port_slash : ∀ p ∈ port, 47 ∉ p
  nul : 0 ∉ scheme ++ host ++ port.getD [] ++ path.getD []

namespace NodeUrl

def authority (url : NodeUrl) : Str := url.host ++ url.port.elim [] (58 :: ·)

def text (url : NodeUrl) : Str :=
  url.scheme ++ lit "://" ++ url.authority ++ url.path.elim [] (47 :: ·)

theorem text_nul (url : NodeUrl) : 0 ∉ url.text := by
  have hnul := url.nul
  have hcolon : (0 : UInt8) ∉ lit "://" := by decide
  simp only [List.mem_append, not_or] at hnul
  obtain ⟨⟨⟨hscheme, hhost⟩, hport⟩, hpath⟩ := hnul
  have hportText : 0 ∉ url.port.elim [] (58 :: ·) := by
    cases h : url.port with
    | none => simp
    | some p =>
      rw [h] at hport
      simpa using hport
  have hpathText : 0 ∉ url.path.elim [] (47 :: ·) := by
    cases h : url.path with
    | none => simp
    | some p =>
      rw [h] at hpath
      simpa using hpath
  simp only [text, authority, List.mem_append, not_or]
  exact ⟨⟨⟨hscheme, hcolon⟩, hhost, hportText⟩, hpathText⟩

theorem authority_slash (url : NodeUrl) : 47 ∉ url.authority := by
  intro hmem
  rcases List.mem_append.1 hmem with hmem | hmem
  · exact url.host_slash hmem
  · cases hport : url.port with
    | none =>
      rw [hport] at hmem
      cases hmem
    | some p =>
      rw [hport] at hmem
      rcases List.mem_cons.1 hmem with hcolon | hmem
      · exact absurd hcolon (by decide)
      · exact url.port_slash p hport hmem

theorem hostTrimmed_text (url : NodeUrl) : hostTrimmed url.text = url.authority := by
  have hscheme : 47 ∉ url.scheme ++ lit ":" := by
    intro hmem
    rcases List.mem_append.1 hmem with hmem | hmem
    · exact url.scheme_slash hmem
    · exact absurd hmem (by decide)
  have htext : url.text = (url.scheme ++ lit ":") ++ (lit "//" ++ (url.authority ++
      url.path.elim [] (47 :: ·))) := by
    have hsplit : lit "://" = lit ":" ++ lit "//" := by decide
    rw [text, hsplit]
    simp only [List.append_assoc]
  have hsearch : search (lit "//") url.text = some (lit "//" ++ (url.authority ++
      url.path.elim [] (47 :: ·))) := by
    rw [htext]
    refine (search_append_of_notMem hscheme).trans ?_
    exact search_self (List.prefix_append _ _)
  have hclean : ∀ b ∈ url.authority, (decide (b ≠ 47)) = true := by
    intro b hb
    simp only [decide_eq_true_eq]
    rintro rfl
    exact url.authority_slash hb
  rw [hostTrimmed, hsearch]
  change (url.authority ++ url.path.elim [] (47 :: ·)).takeWhile _ = url.authority
  rw [List.takeWhile_append_of_pos hclean]
  cases url.path with
  | none => simp
  | some p => simp

end NodeUrl

end Urls

section Names

variable {url : NodeUrl} {cert : Str}

/-- The name is the host, or it is a wildcard for one label of it. -/
def Matches (host cert : Str) : Prop :=
  cert = host ∨ ∃ label suffix, cert = lit "*." ++ suffix ∧ host = label ++ lit "." ++ suffix ∧
    label ≠ [] ∧ 46 ∉ label

def Fits (s : Str) : Prop := 0 ∉ s ∧ s.length < HOST_SIZE

instance (s : Str) : Decidable (Fits s) := inferInstanceAs (Decidable (_ ∧ _))

theorem copyHost_eq {s : Str} (h : Fits s) : copyHost s = .ok s := by
  rw [copyHost, cstr_eq_self h.1, if_pos h.2]

/-- The check accepts exactly the names whose trimmed form occurs in `host[:port]`. -/
theorem compare_host_name_eq (hurl : url.text.length < HOST_SIZE) (hcert : Fits cert) :
    compare_host_name url.text cert = .ok (decide (certHostTrimmed cert <:+: url.authority)) := by
  have hsearch : (search (certHostTrimmed cert) url.authority).isSome =
      decide (certHostTrimmed cert <:+: url.authority) := by
    rw [Bool.eq_iff_iff, search_isSome_iff, decide_eq_true_eq]
  rw [compare_host_name, copyHost_eq ⟨url.text_nul, hurl⟩, copyHost_eq hcert, ← hsearch,
    ← url.hostTrimmed_text]
  rfl

theorem certHostTrimmed_suffix (cert : Str) : certHostTrimmed cert <:+ cert := by
  rw [certHostTrimmed]
  split
  · next asterisk h => exact (List.drop_suffix 2 asterisk).trans (search_eq_some h).1
  · exact List.suffix_rfl

theorem certHostTrimmed_wildcard (name : Str) : certHostTrimmed (lit "*." ++ name) = name := by
  rw [certHostTrimmed, search_self (List.prefix_append _ _)]
  rfl

theorem infix_of_matches (h : Matches url.host cert) : certHostTrimmed cert <:+: url.authority := by
  have hhost : url.host <:+: url.authority := (List.prefix_append _ _).isInfix
  rcases h with rfl | ⟨label, suffix, rfl, hlabel, _⟩
  · exact (certHostTrimmed_suffix _).isInfix.trans hhost
  · rw [certHostTrimmed_wildcard]
    refine List.IsInfix.trans ?_ hhost
    rw [hlabel]
    exact (List.suffix_append _ _).isInfix

/-- A name that does not match is rejected exactly if its trimmed form occurs nowhere
in `host[:port]`. -/
theorem compare_host_name_rejects_iff (hurl : url.text.length < HOST_SIZE) (hcert : Fits cert) :
    (¬ Matches url.host cert → compare_host_name url.text cert = .ok false) ↔
      Matches url.host cert ∨ ¬ certHostTrimmed cert <:+: url.authority := by
  rw [compare_host_name_eq hurl hcert]
  have hvalue : (Except.ok (decide (certHostTrimmed cert <:+: url.authority)) : Result Bool) =
      .ok false ↔ ¬ certHostTrimmed cert <:+: url.authority := by
    rw [Except.ok.injEq, decide_eq_false_iff_not]
  rw [hvalue]
  exact Classical.or_iff_not_imp_left.symm

theorem not_matches {host : Str} (hne : cert ≠ host) (hplain : ¬ lit "*." <+: cert) :
    ¬ Matches host cert := by
  rintro (heq | ⟨label, suffix, heq, _⟩)
  · exact hne heq
  · exact hplain ⟨suffix, heq.symm⟩

def sampleUrl : NodeUrl where
  scheme := lit "wss"
  host := lit "rpc.node.io"
  port := some (lit "443")
  path := none
  scheme_slash := by decide
  host_slash := by decide
  port_slash := by decide
  nul := by decide

theorem compare_host_name_rejects_iff_sampleUrl :
    ¬ Matches sampleUrl.host (lit "node.com") ∧
      compare_host_name sampleUrl.text (lit "node.com") = .ok false := by
  have hother : ¬ Matches sampleUrl.host (lit "node.com") := not_matches (by decide) (by decide)
  exact ⟨hother,
    (compare_host_name_rejects_iff (by decide) (by decide)).2 (Or.inr (by decide)) hother⟩

/-- A certificate for a top-level domain is taken for one of the host. -/
theorem compare_host_name_rejects_fails :
    ¬ ∀ (url : NodeUrl) (cert : Str), url.text.length < HOST_SIZE → Fits cert →
      ¬ Matches url.host cert →
      compare_host_name url.text cert = .ok false := by
  intro hall
  have hother : ¬ Matches sampleUrl.host (lit "io") := not_matches (by decide) (by decide)
  have haccepted : compare_host_name sampleUrl.text (lit "io") = .ok true := by decide
  rw [hall sampleUrl (lit "io") (by decide) (by decide) hother] at haccepted
  cases haccepted

end Names

section Verification

variable {url : NodeUrl}

def clean : GeneralName → Bool
  | .dNSName data => !embeddedNul data
  | .other => true

def accepts (url : NodeUrl) : GeneralName → Bool
  | .dNSName data => decide (certHostTrimmed data <:+: url.authority)
  | .other => false

theorem nul_of_embeddedNul {data : Str} (h : embeddedNul data = false) : 0 ∉ data := by
  have hlength : (cstr data).length = data.length := by simpa [embeddedNul] using h
  have hself : cstr data = data := (List.takeWhile_prefix _).eq_of_length hlength
  intro hmem
  have hne := List.takeWhile_eq_self_iff.1 hself 0 hmem
  simp at hne

theorem sanLoop_eq (hurl : url.text.length < HOST_SIZE) {names : List GeneralName}
    (hnames : ∀ data, .dNSName data ∈ names → data.length < HOST_SIZE) :
    sanLoop url.text names = .ok ((names.takeWhile clean).any (accepts url)) := by
  induction names with
  | nil => rfl
  | cons name names ih =>
    have hlater := ih fun data hdata => hnames data (List.mem_cons_of_mem name hdata)
    cases name with
    | other => exact hlater
    | dNSName data =>
      rw [sanLoop]
      split_ifs with hnul
      · simp [clean, hnul]
      · have hnul : embeddedNul data = false := by simpa using hnul
        have hfits : Fits data := ⟨nul_of_embeddedNul hnul, hnames data List.mem_cons_self⟩
        have hclean : clean (.dNSName data) = true := by simp [clean, hnul]
        rw [compare_host_name_eq hurl hfits, hlater, List.takeWhile_cons_of_pos hclean, List.any_cons]
        by_cases hin : certHostTrimmed data <:+: url.authority
        · simp [accepts, hin, bind, Except.bind, pure, Except.pure]
        · simp [accepts, hin, bind, Except.bind]

def sanAccepts (url : NodeUrl) (cert : Certificate) : Bool :=
  cert.subjectAltNames.any fun names => (names.takeWhile clean).any (accepts url)

def cnAccepts (url : NodeUrl) (cert : Certificate) : Bool :=
  cert.commonName.any fun data => clean (.dNSName data) && accepts url (.dNSName data)

theorem verify_common_name_eq (hurl : url.text.length < HOST_SIZE) {cert : Certificate}
    (hcn : ∀ data ∈ cert.commonName, data.length < HOST_SIZE) :
    verify_common_name url.text cert = .ok (cnAccepts url cert) := by
  rw [verify_common_name, cnAccepts]
  cases hname : cert.commonName with
  | none => rfl
  | some data =>
    cases hnul : embeddedNul data with
    | true => simp [clean, hnul]
    | false =>
      have hfits : Fits data := ⟨nul_of_embeddedNul hnul, hcn data hname⟩
      simp [clean, accepts, hnul, compare_host_name_eq hurl hfits]

/-- A server certificate is accepted exactly if the trimmed form of one of its names
occurs in `host[:port]`. -/
theorem verify_certificate_eq (hurl : url.text.length < HOST_SIZE) {cert : Certificate}
    (hsan : ∀ names ∈ cert.subjectAltNames, ∀ data, .dNSName data ∈ names → data.length < HOST_SIZE)
    (hcn : ∀ data ∈ cert.commonName, data.length < HOST_SIZE) :
    verify_certificate url.text cert = .ok (sanAccepts url cert || cnAccepts url cert) := by
  have hnames : verify_subject_alternative_name url.text cert = .ok (sanAccepts url cert) := by
    rw [verify_subject_alternative_name, sanAccepts]
    cases hnames : cert.subjectAltNames with
    | none => rfl
    | some names => exact sanLoop_eq hurl (hsan names hnames)
  rw [verify_certificate, hnames, verify_common_name_eq hurl hcn]
  cases sanAccepts url cert <;> rfl

end Verification

end PolkadotApi.HostNames

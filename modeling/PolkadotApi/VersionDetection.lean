import PolkadotApi.CompactReading
import PolkadotApi.MetadataFactory

set_option autoImplicit false

/-!
The parsers compare no header byte, so a blob is told apart by what it cannot be.
Read as version 0, the letters "me" of the header announce a text of 6491 bytes.
Versions 4 to 6 have the prefix of the module behind its name, where version 7 has
the flag of its storage: a flag 1 and a storage prefix of `n` letters read together
as a text of `256 * n` bytes.
-/
namespace PolkadotApi.VersionDetection
open StreamReader HexText MachineModel ScaleCodec ScaleRoundTrip CompactReading MetadataFormats
open MetadataFactory

/-- The bytes begin with a text that announces more than is left. -/
def Overruns (bytes : List UInt8) : Prop :=
  ∃ len n tail, bytes = len ++ tail ∧ Compact len n ∧ n < 2 ^ 31 ∧ tail.length < n

def Counts (count : List UInt8) : Prop := ∃ n, Compact count n ∧ 0 < n ∧ n < 2 ^ 31

/-- What stands behind the header tells which layouts cannot have been meant: the first
name runs past the end, or in version 7 only the prefix does that versions 4 to 6 would
have behind the name. -/
inductive Decides (version : UInt8) : List UInt8 → Prop where
  | name {count rest : List UInt8} (hcount : Counts count) (hrest : Overruns rest) :
      Decides version (count ++ rest)
  | modulePrefix {count len name rest : List UInt8} (hversion : version = 7)
      (hcount : Counts count) (hlen : Compact len name.length) (hname : name.length < 2 ^ 31)
      (hrest : Overruns rest) : Decides version (count ++ (len ++ (name ++ rest)))

section Texts

variable {bytes len name rest : List UInt8} {s t text : Str}

theorem readText_eq_ok (h : readText (m := Reader) s = .ok (text, t)) :
    ∃ len rest bytes, decodeCompactInteger (m := Reader) s = .ok (len, rest) ∧
      extractString (m := Reader) len rest = .ok (bytes, t) := by
  obtain ⟨bytes, u, hbytes, hcopy⟩ := bind_eq_ok h
  obtain ⟨len, rest, hlen, hextract⟩ := bind_eq_ok hbytes
  obtain ⟨-, rfl⟩ := copy_eq_ok hcopy
  exact ⟨len, rest, bytes, hlen, hextract⟩

theorem Pairs.two_mul_le {P : UInt8 → UInt8 → Prop} {n : ℕ} (h : Pairs P n s) :
    2 * n ≤ s.length := by
  induction n generalizing s with
  | zero => exact Nat.zero_le _
  | succ n ih =>
    match s, h with
    | c :: d :: s, h =>
      have hrest := ih h.2
      simp only [List.length_cons]
      omega

theorem extractBytes_two_mul_le {n : ℕ} (h : extractBytes (m := Reader) n s = .ok (text, t)) :
    2 * n ≤ s.length := by
  by_cases hpairs : Pairs Readable n s
  · exact Pairs.two_mul_le hpairs
  · obtain ⟨e, he⟩ := (takesPairs_extractBytes n s).2 hpairs
    cases h.symm.trans he

theorem readText_ne_ok (h : Overruns bytes) (hs : Spells bytes s) :
    readText (m := Reader) s ≠ .ok (text, t) := by
  intro hread
  obtain ⟨len, n, tail, rfl, hcompact, hn, hshort⟩ := h
  obtain ⟨u, v, rfl, hu, hv⟩ := hs.split
  obtain ⟨announced, rest, taken, hlen, hextract⟩ := readText_eq_ok hread
  rw [decodes_complete anyCase hcompact (by omega) u v hu] at hlen
  cases hlen
  rw [extractString, asInt_of_small hn] at hextract
  have hroom := extractBytes_two_mul_le hextract
  rw [hv.length] at hroom
  omega

theorem spells_rest_of_readText (hlen : Compact len name.length) (hname : name.length < 2 ^ 31)
    (hs : Spells (len ++ (name ++ rest)) s) (h : readText (m := Reader) s = .ok (text, t)) :
    Spells rest t := by
  obtain ⟨u, v, rfl, hu, hv⟩ := hs.split
  obtain ⟨v₁, v₂, rfl, hv₁, hv₂⟩ := hv.split
  obtain ⟨announced, w, taken, hannounced, hextract⟩ := readText_eq_ok h
  rw [decodes_complete anyCase hlen (by omega) u _ hu] at hannounced
  cases hannounced
  rw [decodes_extractString anyCase name hname v₁ v₂ hv₁] at hextract
  cases hextract
  exact hv₂

end Texts

section Modules

variable {layout : Layout} {bytes count rest : List UInt8} {s t text : Str}

theorem body_of_fits (h : Fits layout text) (hcount : Counts count)
    (htext : Spells (count ++ rest) text) :
    ∃ s m t, Spells rest s ∧ layout.body s = .ok (m, t) := by
  obtain ⟨r, hr⟩ := h
  obtain ⟨n, hcompact, hpos, hn⟩ := hcount
  obtain ⟨u, v, rfl, hu, hv⟩ := htext.split
  obtain ⟨mLen, w, hmLen, hmodules⟩ := bind_eq_ok hr
  rw [decodes_complete anyCase hcompact (by omega) u v hu] at hmLen
  cases hmLen
  obtain ⟨ms, hreads, hlength, -⟩ := (claimEach_eq_ok_iff _ _ _ _ _ _).1 hmodules
  rw [asInt_of_small hn, Int.toNat_natCast] at hlength
  cases hreads with
  | nil =>
    change 0 = n at hlength
    omega
  | cons head tail => exact ⟨v, _, _, hv, head⟩

/-- Every layout begins with the name; behind it versions 4 to 6 have the prefix. -/
theorem readText_of_body {m : Traced layout.Carrier} (h : layout.body s = .ok (m, t)) :
    ∃ name u, readText (m := Reader) s = .ok (name, u) ∧
      (layout ≠ .v7 → ∃ modulePrefix v, readText (m := Reader) u = .ok (modulePrefix, v)) := by
  have hmodule : ∀ {S : Type} {fresh : S} {item : Reader S} {m : Traced (Module S)} {t : Str},
      getModule (m := Reader) fresh item getCall getEvent s = .ok (m, t) →
        ∃ name u, readText (m := Reader) s = .ok (name, u) ∧
          ∃ modulePrefix v, readText (m := Reader) u = .ok (modulePrefix, v) := by
    intro S fresh item m t h
    obtain ⟨name, u, hname, h⟩ := bind_eq_ok h
    obtain ⟨modulePrefix, v, hprefix, -⟩ := bind_eq_ok h
    exact ⟨name, u, hname, modulePrefix, v, hprefix⟩
  cases layout with
  | v4 =>
    obtain ⟨name, u, hname, hprefix⟩ := hmodule h
    exact ⟨name, u, hname, fun _ => hprefix⟩
  | v5 =>
    obtain ⟨name, u, hname, hprefix⟩ := hmodule h
    exact ⟨name, u, hname, fun _ => hprefix⟩
  | v6 =>
    obtain ⟨base, v, hbase, -⟩ := bind_eq_ok h
    obtain ⟨name, u, hname, hprefix⟩ := hmodule hbase
    exact ⟨name, u, hname, fun _ => hprefix⟩
  | v7 =>
    obtain ⟨name, u, hname, -⟩ := bind_eq_ok h
    exact ⟨name, u, hname, fun hne => absurd rfl hne⟩

theorem number_of_fits {version : UInt8} (hdecides : Decides version bytes)
    (htext : Spells bytes text) (h : Fits layout text) : layout.number = version := by
  cases hdecides with
  | name hcount hrest =>
    obtain ⟨s, m, t, hs, hbody⟩ := body_of_fits h hcount htext
    obtain ⟨name, u, hname, -⟩ := readText_of_body hbody
    exact absurd hname (readText_ne_ok hrest hs)
  | modulePrefix hversion hcount hlen hname hrest =>
    obtain ⟨s, m, t, hs, hbody⟩ := body_of_fits h hcount htext
    obtain ⟨name, u, hread, hprefix⟩ := readText_of_body hbody
    have hu := spells_rest_of_readText hlen hname hs hread
    by_cases hseven : layout = .v7
    · rw [hseven, hversion]
      rfl
    · obtain ⟨modulePrefix, v, hprefix⟩ := hprefix hseven
      exact absurd hprefix (readText_ne_ok hrest hu)

end Modules

section Header

def header (version : UInt8) : List UInt8 := [0x6d, 0x65, 0x74, 0x61, version]

theorem compact_me : Compact [0x6d, 0x65] 6491 := Compact.double (by decide)

theorem not_version_zero {version : UInt8} {bytes : List UInt8} (hshort : bytes.length < 6488)
    {s : Str} (hs : Spells (header version ++ bytes) s) (md : MDV0) :
    fillV0Metadata s ≠ .ok md := by
  intro hfill
  have hoverruns : Overruns (header version ++ bytes) := by
    refine ⟨[0x6d, 0x65], 6491, [0x74, 0x61, version] ++ bytes, rfl, compact_me, by norm_num, ?_⟩
    simp only [List.length_append, List.length_cons, List.length_nil]
    omega
  obtain ⟨⟨m, t⟩, hread, -⟩ := except_map_eq_ok hfill
  obtain ⟨name, u, hname, -⟩ := bind_eq_ok hread
  exact readText_ne_ok hoverruns hs hname

theorem decodes_magicBytes (version : UInt8) :
    Decodes anyCase magicBytes (header version) version := by
  change Decodes anyCase magicBytes ([0x6d] ++ ([0x65] ++ ([0x74] ++ ([0x61] ++ [version])))) version
  apply (decodes_nextByte anyCase _).bind
  apply (decodes_nextByte anyCase _).bind
  apply (decodes_nextByte anyCase _).bind
  apply (decodes_nextByte anyCase _).bind
  exact decodes_nextByte anyCase version

end Header

theorem overruns_storage {n : ℕ} (hpos : 0 < n) (hn : n < 64) {tail : List UInt8}
    (h : tail.length < 256 * n) : Overruns (1 :: UInt8.ofNat (4 * n) :: tail) := by
  have hbyte : (UInt8.ofNat (4 * n)).toNat = 4 * n := toNat_ofNat_lt (by omega)
  have hvalue : valueLE [1, UInt8.ofNat (4 * n)] / 4 = 256 * n := by
    simp only [valueLE_cons, valueLE_nil, hbyte]
    change (1 + 256 * (4 * n + 256 * 0)) / 4 = 256 * n
    omega
  have hcompact : Compact [1, UInt8.ofNat (4 * n)] (256 * n) := by
    rw [← hvalue]
    exact Compact.double (by decide)
  exact ⟨_, _, tail, rfl, hcompact, by omega, h⟩

def storageModule : List UInt8 := [4, 4, 0x41, 1, 4, 0x41, 0, 0, 0, 0]

def storageText : Str := lit "0x" ++ upperText (header 7 ++ storageModule)

theorem storageModule_decides : Decides 7 storageModule := by
  have hcounts : Counts [4] := ⟨1, Compact.single (by decide), by norm_num, by norm_num⟩
  have hlen : Compact [4] [(0x41 : UInt8)].length := Compact.single (by decide)
  have hrest : Overruns [1, 4, 0x41, 0, 0, 0, 0] :=
    overruns_storage (n := 1) (by norm_num) (by norm_num) (by decide)
  exact Decides.modulePrefix rfl hcounts hlen (by decide) hrest

end PolkadotApi.VersionDetection

import PolkadotApi.MetadataFactory
import PolkadotApi.ParserLimits
import PolkadotApi.StepRuns

set_option autoImplicit false

namespace PolkadotApi.VersionHistory
open StreamReader MachineModel MetadataFactory ParserLimits StepRuns

def number : Version → ℤ
  | .v0 => 0
  | .v4 => 4
  | .v5 => 5
  | .v6 => 6
  | .v7 => 7

def text : Version → String
  | .v0 => "V0"
  | .v4 => "V4"
  | .v5 => "V5"
  | .v6 => "V6"
  | .v7 => "V7"

def accepts (version : Version) (buffer : Str) : Bool := (version.fill buffer).toOption.isSome

section Calls

def getMetadata : (version : Version) → Factory → Result (Option version.Metadata × Factory)
  | .v0 => getMetadataV0
  | .v4 => getMetadataV4
  | .v5 => getMetadataV5
  | .v6 => getMetadataV6
  | .v7 => getMetadataV7

inductive Call where
  | setInputData (hexString : Str)
  | getMetadata (version : Version)
  | getVersion

def Call.isInput : Call → Bool
  | .setInputData _ => true
  | _ => false

def perform (mdf : Factory) : Call → Result Factory
  | .setInputData hexString => .ok (setInputData mdf hexString)
  | .getMetadata version => (getMetadata version mdf).map Prod.snd
  | .getVersion => (getVersion mdf).map Prod.snd

def step (mdf : Factory) (call : Call) : Option Factory := (perform mdf call).toOption

/-- What `getVersion` returns at the end of a sequence of calls. -/
def answer (calls : List Call) : Option ℤ :=
  (run step newFactory calls).bind fun mdf => ((getVersion mdf).map Prod.fst).toOption

end Calls

section Attempts

variable {version : Version} {mdf next : Factory}

theorem getMetadata_eq (version : Version) (mdf : Factory) :
    getMetadata version mdf = tryFill (number version) (text version) version.fill mdf := by
  cases version <;> rfl

theorem number_ne (version : Version) : number version ≠ -1 := by
  cases version <;> decide

theorem attempt_eq_ok (h : (getMetadata version mdf).map Prod.snd = .ok next) :
    next.buffer = mdf.buffer ∧
      next.version = if accepts version mdf.buffer then number version else mdf.version := by
  rw [getMetadata_eq, tryFill] at h
  rw [accepts]
  cases hfill : version.fill mdf.buffer with
  | ok md =>
    rw [hfill] at h
    cases h
    exact ⟨rfl, rfl⟩
  | error fault =>
    rw [hfill] at h
    cases fault with
    | thrown e =>
      cases h
      exact ⟨rfl, rfl⟩
    | undefined => cases h

theorem attempt_defined_iff : (∃ next, (getMetadata version mdf).map Prod.snd = .ok next) ↔
    version.FitsArrays mdf.buffer := by
  rw [← Version.returns_or_throws_iff, getMetadata_eq, tryFill]
  cases version.fill mdf.buffer with
  | ok md => simp [Except.map]
  | error fault => cases fault <;> simp [Except.map, throwing]

theorem attemptUnknown_eq (version : Version) (mdf : Factory) :
    attemptUnknown (getMetadata version) mdf =
      if mdf.version = -1 then (getMetadata version mdf).map Prod.snd else .ok mdf := rfl

def laterVersion (buffer : Str) : ℤ :=
  if accepts .v5 buffer then 5 else if accepts .v6 buffer then 6
  else if accepts .v7 buffer then 7 else -1

def reported (buffer : Str) (known : ℤ) : ℤ :=
  if accepts .v0 buffer then 0 else if known = -1 then laterVersion buffer else known

theorem attemptUnknown_eq_ok (version : Version)
    (h : attemptUnknown (getMetadata version) mdf = .ok next) :
    next.buffer = mdf.buffer ∧ next.version =
      if mdf.version = -1 then
        if accepts version mdf.buffer then number version else -1
      else mdf.version := by
  rw [attemptUnknown_eq] at h
  split_ifs at h ⊢ with hunknown haccepts
  · obtain ⟨hbuffer, hversion⟩ := attempt_eq_ok h
    rw [if_pos haccepts] at hversion
    exact ⟨hbuffer, hversion⟩
  · obtain ⟨hbuffer, hversion⟩ := attempt_eq_ok h
    rw [if_neg haccepts] at hversion
    exact ⟨hbuffer, hversion.trans hunknown⟩
  · cases h
    exact ⟨rfl, rfl⟩

/-- The four attempts of `getVersion`, of which the last three may be skipped. -/
theorem getVersion_attempts {r : ℤ × Factory} : getVersion mdf = .ok r ↔
    ∃ f0 f5 f6 f7, (getMetadata .v0 mdf).map Prod.snd = .ok f0 ∧
      attemptUnknown (getMetadata .v5) f0 = .ok f5 ∧
      attemptUnknown (getMetadata .v6) f5 = .ok f6 ∧
      attemptUnknown (getMetadata .v7) f6 = .ok f7 ∧ r = (f7.version, f7) := by
  constructor
  · intro h
    obtain ⟨⟨md, f0⟩, h0, h⟩ := except_bind_eq_ok h
    obtain ⟨f5, h5, h⟩ := except_bind_eq_ok h
    obtain ⟨f6, h6, h⟩ := except_bind_eq_ok h
    obtain ⟨f7, h7, h⟩ := except_bind_eq_ok h
    refine ⟨f0, f5, f6, f7, ?_, h5, h6, h7, (Except.ok.inj h).symm⟩
    change (getMetadataV0 mdf).map Prod.snd = _
    rw [h0]
    rfl
  · rintro ⟨f0, f5, f6, f7, hattempt, h5, h6, h7, rfl⟩
    obtain ⟨⟨md, f0'⟩, h0, hf0⟩ := except_map_eq_ok hattempt
    obtain rfl : f0' = f0 := hf0
    have h0' : getMetadataV0 mdf = .ok (md, f0') := h0
    have h5' : attemptUnknown getMetadataV5 f0' = .ok f5 := h5
    have h6' : attemptUnknown getMetadataV6 f5 = .ok f6 := h6
    have h7' : attemptUnknown getMetadataV7 f6 = .ok f7 := h7
    rw [getVersion, h0', except_ok_bind]
    dsimp only
    rw [h5', except_ok_bind, h6', except_ok_bind, h7', except_ok_bind]
    rfl

theorem getVersion_eq_ok {v : ℤ} (h : getVersion mdf = .ok (v, next)) :
    v = reported mdf.buffer mdf.version ∧ next.version = v ∧ next.buffer = mdf.buffer := by
  obtain ⟨f0, f5, f6, f7, h0, h5, h6, h7, hr⟩ := getVersion_attempts.1 h
  obtain ⟨b0, v0⟩ := attempt_eq_ok h0
  obtain ⟨b5, v5⟩ := attemptUnknown_eq_ok .v5 h5
  obtain ⟨b6, v6⟩ := attemptUnknown_eq_ok .v6 h6
  obtain ⟨b7, v7⟩ := attemptUnknown_eq_ok .v7 h7
  cases hr
  have hbuffer := b7.trans (b6.trans (b5.trans b0))
  refine ⟨?_, rfl, hbuffer⟩
  rw [b6, b5, b0] at v7
  rw [b5, b0] at v6
  rw [b0] at v5
  rw [v7, v6, v5, v0]
  unfold reported laterVersion
  generalize mdf.version = known
  cases accepts .v0 mdf.buffer with
  | true => rfl
  | false =>
    by_cases hknown : known = -1
    · subst hknown
      cases accepts .v5 mdf.buffer with
      | true => rfl
      | false => cases accepts .v6 mdf.buffer <;> cases accepts .v7 mdf.buffer <;> rfl
    · simp [hknown]

def InsideArrays (mdf : Factory) : Call → Prop
  | .setInputData _ => True
  | .getMetadata version => version.FitsArrays mdf.buffer
  | .getVersion => Version.v0.FitsArrays mdf.buffer ∧
      (mdf.version = -1 ∧ accepts .v0 mdf.buffer = false →
        Version.v5.FitsArrays mdf.buffer ∧ (accepts .v5 mdf.buffer = false →
          Version.v6.FitsArrays mdf.buffer ∧ (accepts .v6 mdf.buffer = false →
            Version.v7.FitsArrays mdf.buffer)))

theorem attemptUnknown_defined_iff (version : Version) {buffer : Str}
    (hbuffer : mdf.buffer = buffer) :
    (∃ next, attemptUnknown (getMetadata version) mdf = .ok next) ↔
      (mdf.version = -1 → version.FitsArrays buffer) := by
  rw [attemptUnknown_eq, ← hbuffer]
  split_ifs with hunknown
  · rw [attempt_defined_iff, forall_prop_of_true hunknown]
  · exact iff_of_true ⟨mdf, rfl⟩ fun h => absurd h hunknown

theorem attempt_next (h : (getMetadata version mdf).map Prod.snd = .ok next) :
    next.buffer = mdf.buffer ∧
      (next.version = -1 ↔ mdf.version = -1 ∧ accepts version mdf.buffer = false) := by
  obtain ⟨hbuffer, hversion⟩ := attempt_eq_ok h
  refine ⟨hbuffer, ?_⟩
  rw [hversion]
  cases haccepts : accepts version mdf.buffer with
  | true => simp [number_ne]
  | false => simp

theorem attemptUnknown_next (version : Version) {buffer : Str} (hbuffer : mdf.buffer = buffer)
    (h : attemptUnknown (getMetadata version) mdf = .ok next) :
    next.buffer = buffer ∧
      (next.version = -1 ↔ mdf.version = -1 ∧ accepts version buffer = false) := by
  subst hbuffer
  rw [attemptUnknown_eq] at h
  split_ifs at h with hunknown
  · exact attempt_next h
  · cases h
    simp [hunknown]

theorem getVersion_defined_iff (mdf : Factory) :
    (∃ r, getVersion mdf = .ok r) ↔ InsideArrays mdf .getVersion := by
  constructor
  · rintro ⟨r, h⟩
    obtain ⟨f0, f5, f6, f7, h0, h5, h6, h7, -⟩ := getVersion_attempts.1 h
    obtain ⟨b0, u0⟩ := attempt_next h0
    obtain ⟨b5, u5⟩ := attemptUnknown_next .v5 b0 h5
    obtain ⟨b6, u6⟩ := attemptUnknown_next .v6 b5 h6
    have d5 := (attemptUnknown_defined_iff .v5 b0).1 ⟨_, h5⟩
    have d6 := (attemptUnknown_defined_iff .v6 b5).1 ⟨_, h6⟩
    have d7 := (attemptUnknown_defined_iff .v7 b6).1 ⟨_, h7⟩
    refine ⟨attempt_defined_iff.1 ⟨_, h0⟩, ?_⟩
    intro hunknown
    refine ⟨d5 (u0.2 hunknown), ?_⟩
    intro h5'
    refine ⟨d6 (u5.2 ⟨u0.2 hunknown, h5'⟩), ?_⟩
    intro h6'
    exact d7 (u6.2 ⟨u5.2 ⟨u0.2 hunknown, h5'⟩, h6'⟩)
  · rintro ⟨hfits, hlater⟩
    obtain ⟨f0, h0⟩ := attempt_defined_iff.2 hfits
    obtain ⟨b0, u0⟩ := attempt_next h0
    obtain ⟨f5, h5⟩ := (attemptUnknown_defined_iff .v5 b0).2 (by
      intro hunknown
      exact (hlater (u0.1 hunknown)).1)
    obtain ⟨b5, u5⟩ := attemptUnknown_next .v5 b0 h5
    obtain ⟨f6, h6⟩ := (attemptUnknown_defined_iff .v6 b5).2 (by
      intro hunknown
      obtain ⟨hunknown, h5'⟩ := u5.1 hunknown
      exact ((hlater (u0.1 hunknown)).2 h5').1)
    obtain ⟨b6, u6⟩ := attemptUnknown_next .v6 b5 h6
    obtain ⟨f7, h7⟩ := (attemptUnknown_defined_iff .v7 b6).2 (by
      intro hunknown
      obtain ⟨hunknown, h6'⟩ := u6.1 hunknown
      obtain ⟨hunknown, h5'⟩ := u5.1 hunknown
      exact ((hlater (u0.1 hunknown)).2 h5').2 h6')
    exact ⟨_, getVersion_attempts.2 ⟨f0, f5, f6, f7, h0, h5, h6, h7, rfl⟩⟩

theorem step_isSome_iff (mdf : Factory) (call : Call) :
    (step mdf call).isSome ↔ InsideArrays mdf call := by
  have hsome : ∀ {α : Type} {r : Result α}, r.toOption.isSome ↔ ∃ a, r = .ok a := by
    intro α r
    cases r <;> simp [Except.toOption]
  rw [step, hsome]
  cases call with
  | setInputData hexString => exact iff_of_true ⟨_, rfl⟩ trivial
  | getMetadata version => exact attempt_defined_iff
  | getVersion =>
    rw [← getVersion_defined_iff]
    constructor
    · rintro ⟨next, h⟩
      obtain ⟨r, hr, -⟩ := except_map_eq_ok h
      exact ⟨r, hr⟩
    · rintro ⟨r, hr⟩
      refine ⟨r.2, ?_⟩
      rw [perform, hr]
      rfl

end Attempts

section Histories

def known (buffer : Str) (version : ℤ) : Call → ℤ
  | .setInputData _ => version
  | .getMetadata attempted => if accepts attempted buffer then number attempted else version
  | .getVersion => reported buffer version

variable {buffer : Str} {calls after : List Call}

theorem step_known {mdf next : Factory} {call : Call} (hinput : call.isInput = false)
    (h : step mdf call = some next) :
    next.buffer = mdf.buffer ∧ next.version = known mdf.buffer mdf.version call := by
  have hperform := except_toOption_eq_some h
  cases call with
  | setInputData hexString => cases hinput
  | getMetadata version => exact attempt_eq_ok hperform
  | getVersion =>
    obtain ⟨⟨v, t⟩, hv, rfl⟩ := except_map_eq_ok hperform
    obtain ⟨hreported, hversion, hbuffer⟩ := getVersion_eq_ok hv
    exact ⟨hbuffer, hversion.trans hreported⟩

theorem run_known {mdf next : Factory} (hinput : ∀ call ∈ calls, call.isInput = false)
    (h : run step mdf calls = some next) :
    next.buffer = mdf.buffer ∧ next.version = calls.foldl (known mdf.buffer) mdf.version := by
  induction calls generalizing mdf with
  | nil =>
    cases h
    exact ⟨rfl, rfl⟩
  | cons call calls ih =>
    obtain ⟨t, ht, hrest⟩ := run_cons.1 h
    obtain ⟨hbuffer, hversion⟩ := step_known (hinput call List.mem_cons_self) ht
    obtain ⟨hbuffer', hversion'⟩ := ih (fun c hc => hinput c (List.mem_cons_of_mem _ hc)) hrest
    rw [hbuffer, hversion] at hversion'
    exact ⟨hbuffer'.trans hbuffer, hversion'⟩

theorem laterVersion_accepted (h : laterVersion buffer ≠ -1) :
    ∃ version, laterVersion buffer = number version ∧ accepts version buffer := by
  unfold laterVersion at h ⊢
  split_ifs at h ⊢ with h5 h6 h7
  · exact ⟨.v5, rfl, h5⟩
  · exact ⟨.v6, rfl, h6⟩
  · exact ⟨.v7, rfl, h7⟩
  · exact absurd rfl h

/-- A successful attempt is what the later calls find, whatever was known before. -/
theorem foldl_known_attempted (hzero : accepts .v0 buffer = false)
    (h : ∃ version, .getMetadata version ∈ calls ∧ accepts version buffer) :
    ∃ version, accepts version buffer ∧ ∀ v, calls.foldl (known buffer) v = number version := by
  induction calls using List.reverseRecOn with
  | nil =>
    obtain ⟨version, hmem, -⟩ := h
    cases hmem
  | append_singleton calls call ih =>
    by_cases hlast : ∃ version, call = .getMetadata version ∧ accepts version buffer
    · obtain ⟨version, rfl, haccepts⟩ := hlast
      refine ⟨version, haccepts, ?_⟩
      intro v
      rw [List.foldl_append, List.foldl_cons, List.foldl_nil, known, if_pos haccepts]
    · obtain ⟨version, hmem, haccepts⟩ := h
      have hbefore : .getMetadata version ∈ calls := by
        rcases List.mem_append.1 hmem with hin | hin
        · exact hin
        · exact absurd ⟨version, (List.mem_singleton.1 hin).symm, haccepts⟩ hlast
      obtain ⟨found, hfound, hall⟩ := ih ⟨version, hbefore, haccepts⟩
      refine ⟨found, hfound, ?_⟩
      intro v
      rw [List.foldl_append, List.foldl_cons, List.foldl_nil, hall v]
      cases call with
      | setInputData hexString => rfl
      | getMetadata attempted =>
        rw [known, if_neg]
        exact fun haccepted => hlast ⟨attempted, rfl, haccepted⟩
      | getVersion => simp [known, reported, hzero, number_ne]

section Unattempted

variable (hzero : accepts .v0 buffer = false)
  (hnone : ∀ version, .getMetadata version ∈ calls → accepts version buffer = false)

include hzero hnone

theorem foldl_known_kept {v : ℤ} (hv : v ≠ -1) : calls.foldl (known buffer) v = v := by
  induction calls with
  | nil => rfl
  | cons call calls ih =>
    have hstay : known buffer v call = v := by
      cases call with
      | setInputData hexString => rfl
      | getMetadata version => simp [known, hnone version List.mem_cons_self]
      | getVersion => simp [known, reported, hzero, hv]
    rw [List.foldl_cons, hstay]
    exact ih fun version hmem => hnone version (List.mem_cons_of_mem _ hmem)

/-- Without a successful attempt and a known version the answer is one of the versions
that `getVersion` tries. -/
theorem reported_unknown {v : ℤ} (hv : v = -1 ∨ v = laterVersion buffer) :
    reported buffer (calls.foldl (known buffer) v) = laterVersion buffer := by
  have hreported : ∀ v, v = -1 ∨ v = laterVersion buffer →
      reported buffer v = laterVersion buffer := by
    intro v hv
    rw [reported, hzero]
    rcases hv with rfl | rfl <;> simp
  induction calls generalizing v with
  | nil => exact hreported v hv
  | cons call calls ih =>
    have hnext : known buffer v call = -1 ∨ known buffer v call = laterVersion buffer := by
      cases call with
      | setInputData hexString => exact hv
      | getMetadata version => simpa [known, hnone version List.mem_cons_self] using hv
      | getVersion => exact Or.inr (hreported v hv)
    rw [List.foldl_cons]
    exact ih (fun version hmem => hnone version (List.mem_cons_of_mem _ hmem)) hnext

end Unattempted

end Histories

section Detection

def Right (buffer : Str) (v : ℤ) : Prop :=
  (∃ version, v = number version ∧ accepts version buffer) ∨
    v = -1 ∧ ∀ version, accepts version buffer = false

def buffered (buffer : Str) : Call → Str
  | .setInputData hexString => hexString
  | _ => buffer

def currentBuffer (calls : List Call) : Str := calls.foldl buffered []

/-- The calls up to the last `setInputData`, and the calls after it. -/
def upToInput (calls : List Call) : List Call := calls.rdropWhile fun call => !call.isInput

def sinceInput (calls : List Call) : List Call := calls.rtakeWhile fun call => !call.isInput

/-- The answer is right for the current buffer, and it is the answer of a new factory
that gets this buffer first. -/
def Detects (calls : List Call) : Prop :=
  ∃ v, answer calls = some v ∧ Right (currentBuffer calls) v ∧
    answer (.setInputData (currentBuffer calls) :: sinceInput calls) = some v

variable {buffer : Str} {calls : List Call}

theorem sinceInput_isInput (calls : List Call) :
    ∀ call ∈ sinceInput calls, call.isInput = false := by
  intro call hmem
  simpa using List.mem_rtakeWhile_imp hmem

theorem upToInput_append (calls : List Call) : upToInput calls ++ sinceInput calls = calls :=
  List.rdropWhile_append_rtakeWhile

theorem right_laterVersion_iff (hzero : accepts .v0 buffer = false) :
    Right buffer (laterVersion buffer) ↔
      (laterVersion buffer = -1 → accepts .v4 buffer = false) := by
  constructor
  · rintro (⟨version, hv, -⟩ | ⟨-, hnone⟩) hlater
    · exact absurd (hv.symm.trans hlater) (number_ne version)
    · exact hnone .v4
  · intro h
    by_cases hlater : laterVersion buffer = -1
    · refine Or.inr ⟨hlater, ?_⟩
      have hfour := h hlater
      unfold laterVersion at hlater
      split_ifs at hlater with h5 h6 h7
      intro version
      cases version with
      | v0 => exact hzero
      | v4 => exact hfour
      | v5 => exact Bool.eq_false_iff.2 h5
      | v6 => exact Bool.eq_false_iff.2 h6
      | v7 => exact Bool.eq_false_iff.2 h7
    · exact Or.inl (laterVersion_accepted hlater)

/-- An old version is harmless if it is found again or replaced. -/
theorem reported_right_iff (buffer : Str) (calls : List Call) (v : ℤ) :
    reported buffer (calls.foldl (known buffer) v) =
        reported buffer (calls.foldl (known buffer) (-1)) ∧
      Right buffer (reported buffer (calls.foldl (known buffer) (-1))) ↔
    accepts .v0 buffer ∨ (∃ version, .getMetadata version ∈ calls ∧ accepts version buffer) ∨
      (v = -1 ∨ v = laterVersion buffer) ∧
        (laterVersion buffer = -1 → accepts .v4 buffer = false) := by
  by_cases hzero : accepts .v0 buffer
  · have hreported : ∀ w, reported buffer w = 0 := fun w => if_pos hzero
    rw [hreported, hreported]
    exact iff_of_true ⟨rfl, Or.inl ⟨.v0, rfl, hzero⟩⟩ (Or.inl hzero)
  have hzero' := Bool.eq_false_iff.2 hzero
  rw [or_iff_right hzero]
  by_cases hattempt : ∃ version, .getMetadata version ∈ calls ∧ accepts version buffer
  · obtain ⟨found, hfound, hall⟩ := foldl_known_attempted hzero' hattempt
    have hreported : reported buffer (number found) = number found := by
      rw [reported, if_neg hzero, if_neg (number_ne found)]
    rw [hall, hall, hreported]
    exact iff_of_true ⟨rfl, Or.inl ⟨found, rfl, hfound⟩⟩ (Or.inl hattempt)
  rw [or_iff_right hattempt]
  have hnone : ∀ version, .getMetadata version ∈ calls → accepts version buffer = false :=
    fun version hmem => Bool.eq_false_iff.2 fun haccepts => hattempt ⟨version, hmem, haccepts⟩
  rw [reported_unknown hzero' hnone (Or.inl rfl), right_laterVersion_iff hzero']
  refine and_congr_left' ?_
  by_cases hv : v = -1
  · rw [hv, reported_unknown hzero' hnone (Or.inl rfl)]
    simp
  · rw [foldl_known_kept hzero' hnone hv, reported, if_neg hzero, if_neg hv, or_iff_right hv]

theorem run_buffer {mdf next : Factory} (h : run step mdf calls = some next) :
    next.buffer = calls.foldl buffered mdf.buffer := by
  induction calls generalizing mdf with
  | nil =>
    cases h
    rfl
  | cons call calls ih =>
    obtain ⟨t, ht, hrest⟩ := run_cons.1 h
    rw [ih hrest, List.foldl_cons]
    cases call with
    | setInputData hexString =>
      cases ht
      rfl
    | getMetadata version =>
      rw [(step_known rfl ht).1]
      rfl
    | getVersion =>
      rw [(step_known rfl ht).1]
      rfl

theorem currentBuffer_upToInput (calls : List Call) :
    currentBuffer (upToInput calls) = currentBuffer calls := by
  have hkeep : ∀ (buffer : Str) (later : List Call), (∀ call ∈ later, call.isInput = false) →
      later.foldl buffered buffer = buffer := by
    intro buffer later hlater
    induction later with
    | nil => rfl
    | cons call later ih =>
      have hcall := hlater call List.mem_cons_self
      cases call with
      | setInputData hexString => cases hcall
      | getMetadata version => exact ih fun c hc => hlater c (List.mem_cons_of_mem _ hc)
      | getVersion => exact ih fun c hc => hlater c (List.mem_cons_of_mem _ hc)
  conv_rhs => rw [← upToInput_append calls, currentBuffer, List.foldl_append]
  rw [hkeep _ _ (sinceInput_isInput calls), currentBuffer]

theorem answer_defined_iff (calls : List Call) :
    (answer calls).isSome ↔ Along step InsideArrays newFactory (calls ++ [.getVersion]) := by
  rw [← run_isSome_iff step_isSome_iff, Option.isSome_iff_exists, Option.isSome_iff_exists]
  constructor
  · rintro ⟨v, h⟩
    obtain ⟨mdf, hrun, h⟩ := Option.bind_eq_some_iff.1 h
    obtain ⟨⟨w, next⟩, hversion, -⟩ := except_map_eq_ok (except_toOption_eq_some h)
    refine ⟨next, run_append.2 ⟨mdf, hrun, run_cons.2 ⟨next, ?_, rfl⟩⟩⟩
    rw [step, perform, hversion]
    rfl
  · rintro ⟨next, h⟩
    obtain ⟨mdf, hrun, h⟩ := run_append.1 h
    obtain ⟨t, ht, -⟩ := run_cons.1 h
    obtain ⟨⟨w, u⟩, hversion, -⟩ := except_map_eq_ok (except_toOption_eq_some ht)
    refine ⟨w, Option.bind_eq_some_iff.2 ⟨mdf, hrun, ?_⟩⟩
    rw [hversion]
    rfl

theorem answer_eq {v : ℤ} (h : answer calls = some v) :
    ∃ mdf, run step newFactory (upToInput calls) = some mdf ∧
      v = reported (currentBuffer calls)
        ((sinceInput calls).foldl (known (currentBuffer calls)) mdf.version) := by
  obtain ⟨last, hrun, h⟩ := Option.bind_eq_some_iff.1 h
  obtain ⟨⟨w, next⟩, hversion, hw⟩ := except_map_eq_ok (except_toOption_eq_some h)
  obtain rfl : w = v := hw
  rw [← upToInput_append calls] at hrun
  obtain ⟨mdf, hbefore, hafter⟩ := run_append.1 hrun
  obtain ⟨hbuffer, hknown⟩ := run_known (sinceInput_isInput calls) hafter
  have hcurrent : mdf.buffer = currentBuffer calls :=
    (run_buffer hbefore).trans (currentBuffer_upToInput calls)
  refine ⟨mdf, hbefore, ?_⟩
  rw [(getVersion_eq_ok hversion).1, hknown, hbuffer, hcurrent]

theorem answer_fresh_eq {v : ℤ} (hinput : ∀ call ∈ calls, call.isInput = false)
    (h : answer (.setInputData buffer :: calls) = some v) :
    v = reported buffer (calls.foldl (known buffer) (-1)) := by
  obtain ⟨last, hrun, h⟩ := Option.bind_eq_some_iff.1 h
  obtain ⟨⟨w, next⟩, hversion, hw⟩ := except_map_eq_ok (except_toOption_eq_some h)
  obtain rfl : w = v := hw
  obtain ⟨mdf, hset, hafter⟩ := run_cons.1 hrun
  cases hset
  obtain ⟨hbuffer, hknown⟩ := run_known hinput hafter
  rw [(getVersion_eq_ok hversion).1, hknown, hbuffer]
  rfl

/-- The detection is right exactly if no parser leaves its arrays, and version 0 accepts
the buffer, or a direct attempt since the last input did, or the version left by earlier
buffers is none or the one found anew, where version 4 is not the only one. -/
theorem detects_iff (calls : List Call) : Detects calls ↔
    Along step InsideArrays newFactory (calls ++ [.getVersion]) ∧
    Along step InsideArrays newFactory
      (.setInputData (currentBuffer calls) :: sinceInput calls ++ [.getVersion]) ∧
    (accepts .v0 (currentBuffer calls) ∨
      (∃ version, .getMetadata version ∈ sinceInput calls ∧
        accepts version (currentBuffer calls)) ∨
      (∀ mdf, run step newFactory (upToInput calls) = some mdf →
        mdf.version = -1 ∨ mdf.version = laterVersion (currentBuffer calls)) ∧
      (laterVersion (currentBuffer calls) = -1 → accepts .v4 (currentBuffer calls) = false)) := by
  rw [← answer_defined_iff, ← answer_defined_iff]
  constructor
  · rintro ⟨v, hv, hright, hfresh⟩
    refine ⟨by rw [hv]; rfl, by rw [hfresh]; rfl, ?_⟩
    obtain ⟨mdf, hrun, heq⟩ := answer_eq hv
    have heq' := answer_fresh_eq (sinceInput_isInput calls) hfresh
    have hcases := (reported_right_iff _ _ mdf.version).1 ⟨heq.symm.trans heq', heq' ▸ hright⟩
    refine hcases.imp_right (Or.imp_right (And.imp_left ?_))
    intro hversion other hother
    cases hrun.symm.trans hother
    exact hversion
  · rintro ⟨hdefined, hdefined', hcases⟩
    obtain ⟨v, hv⟩ := Option.isSome_iff_exists.1 hdefined
    obtain ⟨w, hw⟩ := Option.isSome_iff_exists.1 hdefined'
    obtain ⟨mdf, hrun, heq⟩ := answer_eq hv
    have heq' := answer_fresh_eq (sinceInput_isInput calls) hw
    obtain ⟨hsame, hright⟩ := (reported_right_iff _ _ mdf.version).2
      (hcases.imp_right (Or.imp_right (And.imp_left fun h => h mdf hrun)))
    have hvw : v = w := heq.trans (hsame.trans heq'.symm)
    rw [← heq', ← hvw] at hright
    rw [← hvw] at hw
    exact ⟨v, hv, hright, hw⟩

def replaced : List Call :=
  [.setInputData (singleModule.drop 2), .getVersion, .setInputData []]

theorem detects_fails : ¬ ∀ calls, Detects calls := by
  intro hall
  obtain ⟨v, hv, hright, hfresh⟩ := hall replaced
  have hseven : answer replaced = some 7 := by decide +kernel
  have hnone : answer [.setInputData []] = some (-1) := by decide +kernel
  have hsame : some 7 = some (-1 : ℤ) := hseven.symm.trans (hv.trans (hfresh.symm.trans hnone))
  exact absurd hsame (by decide)

end Detection

end PolkadotApi.VersionHistory

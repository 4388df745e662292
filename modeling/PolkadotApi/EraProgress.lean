import PolkadotApi.ObjectRuns

set_option autoImplicit false

namespace PolkadotApi.EraProgress
open StreamReader MachineModel JsonValues Notifications Subscriptions SubscriptionFrames ObjectRuns
open StepRuns

section Words

theorem wrap64_eq (z : ℤ) :
    wrap64 z = if z % 2 ^ 64 < 2 ^ 63 then z % 2 ^ 64 else z % 2 ^ 64 - 2 ^ 64 := by
  have hmod : ((z % 2 ^ 64).toNat : ℤ) % 2 ^ 64 = z % 2 ^ 64 := by omega
  unfold wrap64 asLong
  simp only [hmod]

theorem wrap64_of_long {z : ℤ} (hlow : -2 ^ 63 ≤ z) (hhigh : z < 2 ^ 63) : wrap64 z = z := by
  rw [wrap64_eq]
  split_ifs <;> omega

theorem wrap64_congr {a b : ℤ} (h : a % 2 ^ 64 = b % 2 ^ 64) : wrap64 a = wrap64 b := by
  rw [wrap64_eq, wrap64_eq, h]

theorem wrap64_emod (z : ℤ) : wrap64 z % 2 ^ 64 = z % 2 ^ 64 := by
  rw [wrap64_eq]
  split_ifs <;> omega

theorem wrap64_wrap64_add (a b : ℤ) : wrap64 (wrap64 a + b) = wrap64 (a + b) := by
  apply wrap64_congr
  rw [Int.add_emod, wrap64_emod, ← Int.add_emod]

theorem wrap64_add_wrap64 (a b : ℤ) : wrap64 (a + wrap64 b) = wrap64 (a + b) := by
  rw [Int.add_comm, wrap64_wrap64_add, Int.add_comm]

theorem wrap64_sub_wrap64 (a b : ℤ) : wrap64 (a - wrap64 b) = wrap64 (a - b) := by
  apply wrap64_congr
  rw [Int.sub_emod, wrap64_emod, ← Int.sub_emod]

theorem wrap64_range_iff {z length : ℤ} (h : length ≤ 2 ^ 63) :
    0 ≤ wrap64 z ∧ wrap64 z < length ↔ z % 2 ^ 64 < length := by
  rw [wrap64_eq]
  split_ifs <;> omega

theorem wrap64_le (z : ℤ) : wrap64 z ≤ 2 ^ 63 := by
  rw [wrap64_eq]
  split_ifs <;> omega

theorem remainder_eq_ok {a b : ℤ} (hb : b ≠ 0) (h : ¬ (a = -2 ^ 63 ∧ b = -1)) :
    remainder a b = .ok (a.tmod b) := by
  rw [remainder, if_neg]
  rintro (hzero | hoverflow)
  · exact hb hzero
  · exact h hoverflow

theorem remainder_of_pos {a b : ℤ} (hb : 0 < b) (ha : 0 ≤ a) : remainder a b = .ok (a % b) := by
  rw [remainder_eq_ok (by omega) (by omega), Int.tmod_eq_emod_of_nonneg ha]

end Words

abbrev eraAndSession : Topic := .slot .eraAndSession

theorem payload_epochs {api : Api} (hmode : api.isEpoch = true) (message : Json) :
    payload api eraAndSession message =
      (epochUpdate api.babeEpochDuration api.sessionsPerEra message).map some := by
  rw [payload, if_pos hmode]

theorem payload_sessions {api : Api} (hmode : api.isEpoch = false) (message : Json) :
    payload api eraAndSession message = sessionUpdate api.bestBlockNum message := by
  rw [payload, if_neg (by rw [hmode]; decide)]

section Handling

variable {w : World} {id : ℤ} {message : Json} {p : Payload} {tag : ℕ}

def Calls (w : World) (id : ℤ) (message : Json) (tag : ℕ) (p : Payload) : Prop :=
  ∃ w', handleWsMessage w id message = .ok w' ∧
    w'.log = w.log ++ [.handled id message, .invoked id (.client tag) p]

theorem handle_era (hroute : route w.api id = some eraAndSession)
    (hsubscriber : w.api.subscriber eraAndSession = some (.client tag))
    (hpayload : payload w.api eraAndSession message = .ok (some p)) :
    Calls w id message tag p := by
  have hhandle := handleWsMessage_invokes hroute hpayload hsubscriber rfl
  refine ⟨_, hhandle, ?_⟩
  rw [update_log, record_log, record_log, List.append_assoc]
  rfl

theorem calls_iff (hroute : route w.api id = some eraAndSession)
    (hsubscriber : w.api.subscriber eraAndSession = some (.client tag)) :
    Calls w id message tag p ↔ payload w.api eraAndSession message = .ok (some p) := by
  refine ⟨?_, handle_era hroute hsubscriber⟩
  rintro ⟨w', hhandle, hlog⟩
  rcases handleWsMessage_log hhandle with hsilent | ⟨topic, callback, p', hr, -, hp, hlog'⟩
  · rw [hsilent] at hlog
    cases List.append_cancel_left hlog
  · cases hroute.symm.trans hr
    rw [hlog'] at hlog
    cases List.append_cancel_left hlog
    exact hp

end Handling

section Sessions

variable {best lastLengthChange sessionLength currentEra sessionsPerEra currentIndex : ℤ}

theorem sessionUpdate_eq {message : Json} (hlast : changeValue message 0 = .ok lastLengthChange)
    (hlength : changeValue message 1 = .ok sessionLength)
    (hera : changeValue message 2 = .ok currentEra)
    (hper : changeValue message 3 = .ok sessionsPerEra)
    (hindex : changeValue message 4 = .ok currentIndex)
    (hpositive : 0 < lastLengthChange ∧ 0 < sessionLength ∧ 0 < currentEra ∧ 0 < sessionsPerEra ∧
      0 < currentIndex) (hbest : lastLengthChange ≤ best)
    (hsum : best - lastLengthChange + sessionLength < 2 ^ 63)
    (hproduct : sessionsPerEra * sessionLength < 2 ^ 63) :
    sessionUpdate best message = .ok (some (.eraAndSession
      ⟨currentIndex % sessionsPerEra * sessionLength +
          (best - lastLengthChange + sessionLength) % sessionLength,
        sessionsPerEra * sessionLength⟩
      (.session ((best - lastLengthChange + sessionLength) % sessionLength) sessionLength))) := by
  obtain ⟨hpos₀, hpos₁, hpos₂, hpos₃, hpos₄⟩ := hpositive
  have hprogress := Int.emod_nonneg (best - lastLengthChange + sessionLength) hpos₁.ne'
  have hprogress_lt := Int.emod_lt_of_pos (best - lastLengthChange + sessionLength) hpos₁
  have hsession := Int.emod_nonneg currentIndex hpos₃.ne'
  have hsession_lt := Int.emod_lt_of_pos currentIndex hpos₃
  have hbefore : currentIndex % sessionsPerEra * sessionLength ≤
      sessionsPerEra * sessionLength - sessionLength := by
    calc currentIndex % sessionsPerEra * sessionLength ≤ (sessionsPerEra - 1) * sessionLength :=
          Int.mul_le_mul_of_nonneg_right (by omega) hpos₁.le
      _ = sessionsPerEra * sessionLength - sessionLength := by ring
  have hbefore_nonneg : 0 ≤ currentIndex % sessionsPerEra * sessionLength :=
    Int.mul_nonneg hsession hpos₁.le
  rw [sessionUpdate, hlast, except_ok_bind, hlength, except_ok_bind, hera, except_ok_bind, hper,
    except_ok_bind, hindex, except_ok_bind, if_pos ⟨hpos₀, hpos₁, hpos₂, hpos₃, hpos₄⟩,
    wrap64_wrap64_add, wrap64_of_long (by omega) (by omega),
    remainder_of_pos hpos₁ (by omega), except_ok_bind, remainder_of_pos hpos₃ hpos₄.le,
    except_ok_bind, wrap64_wrap64_add, wrap64_of_long (by omega) (by omega),
    wrap64_of_long (by omega) hproduct]
  rfl

end Sessions

/-- In session mode the progress stays inside the session and the era. -/
theorem session_progress {w : World} {id : ℤ} {message : Json} {tag : ℕ}
    {lastLengthChange sessionLength currentEra sessionsPerEra currentIndex : ℤ}
    (hmode : w.api.isEpoch = false) (hroute : route w.api id = some eraAndSession)
    (hsubscriber : w.api.subscriber eraAndSession = some (.client tag))
    (hlast : changeValue message 0 = .ok lastLengthChange)
    (hlength : changeValue message 1 = .ok sessionLength)
    (hera : changeValue message 2 = .ok currentEra)
    (hper : changeValue message 3 = .ok sessionsPerEra)
    (hindex : changeValue message 4 = .ok currentIndex)
    (hpositive : 0 < lastLengthChange ∧ 0 < sessionLength ∧ 0 < currentEra ∧ 0 < sessionsPerEra ∧
      0 < currentIndex) (hbest : lastLengthChange ≤ w.api.bestBlockNum)
    (hsum : w.api.bestBlockNum - lastLengthChange + sessionLength < 2 ^ 63)
    (hproduct : sessionsPerEra * sessionLength < 2 ^ 63) :
    ∃ w' era sessionProgress, handleWsMessage w id message = .ok w' ∧
      w'.log = w.log ++ [.handled id message,
        .invoked id (.client tag) (.eraAndSession era (.session sessionProgress sessionLength))] ∧
      0 ≤ sessionProgress ∧ sessionProgress < sessionLength ∧
      0 ≤ era.eraProgress ∧ era.eraProgress < era.eraLength ∧
      era.eraLength = sessionsPerEra * sessionLength ∧
      era.eraProgress % sessionLength = sessionProgress := by
  have hpayload := payload_sessions hmode message
  rw [sessionUpdate_eq hlast hlength hera hper hindex hpositive hbest hsum hproduct] at hpayload
  obtain ⟨w', hhandle, hlog⟩ := handle_era hroute hsubscriber hpayload
  obtain ⟨-, hpos₁, -, hpos₃, -⟩ := hpositive
  generalize w.api.bestBlockNum - lastLengthChange + sessionLength = blocks at hlog
  have hprogress := Int.emod_nonneg blocks hpos₁.ne'
  have hprogress_lt := Int.emod_lt_of_pos blocks hpos₁
  have hsession := Int.emod_nonneg currentIndex hpos₃.ne'
  have hsession_lt := Int.emod_lt_of_pos currentIndex hpos₃
  refine ⟨w', _, _, hhandle, hlog, hprogress, hprogress_lt, ?_, ?_, rfl, ?_⟩
  · have hbefore := Int.mul_nonneg hsession hpos₁.le
    dsimp only
    omega
  · dsimp only
    calc currentIndex % sessionsPerEra * sessionLength + blocks % sessionLength
        < (currentIndex % sessionsPerEra + 1) * sessionLength := by
          rw [Int.add_mul, Int.one_mul]
          omega
      _ ≤ sessionsPerEra * sessionLength :=
          Int.mul_le_mul_of_nonneg_right (by omega) hpos₁.le
  · dsimp only
    rw [Int.add_comm, Int.add_mul_emod_self_right, Int.emod_emod_of_dvd _ (dvd_refl _)]

def changesOf (values : List String) : Json :=
  .object [(lit "changes",
    .array (values.map fun value => .array [.string (lit "0x"), .string (lit value)]))]

def watchEra (chain : Str) : List Event :=
  [connectTo chain, { op := .subscribeEraAndSession 0, answers := [answered 1, answered 2] },
    { op := .notify 1 (newHeadOf "0x64") }]

def watching (chain : Str) : World := after (start (construct blankMemory)) (watchEra chain)

theorem session_progress_plainChain :
    ∃ w' era sessionProgress,
      handleWsMessage (watching plainChain) 2 (changesOf ["0x0a", "0x14", "0x01", "0x06", "0x05"]) =
        .ok w' ∧
      w'.log = (watching plainChain).log ++
        [.handled 2 (changesOf ["0x0a", "0x14", "0x01", "0x06", "0x05"]),
          .invoked 2 (.client 0) (.eraAndSession era (.session sessionProgress 20))] ∧
      0 ≤ sessionProgress ∧ sessionProgress < 20 ∧ 0 ≤ era.eraProgress ∧
      era.eraProgress < era.eraLength ∧ era.eraLength = 6 * 20 ∧
      era.eraProgress % 20 = sessionProgress := by
  obtain ⟨hmode, hroute, hsubscriber, hbest⟩ : (watching plainChain).api.isEpoch = false ∧
      route (watching plainChain).api 2 = some eraAndSession ∧
      (watching plainChain).api.subscriber eraAndSession = some (.client 0) ∧
      (watching plainChain).api.bestBlockNum = 100 := by decide +kernel
  obtain ⟨hlast, hlength, hera, hper, hindex⟩ :
      changeValue (changesOf ["0x0a", "0x14", "0x01", "0x06", "0x05"]) 0 = .ok 10 ∧
      changeValue (changesOf ["0x0a", "0x14", "0x01", "0x06", "0x05"]) 1 = .ok 20 ∧
      changeValue (changesOf ["0x0a", "0x14", "0x01", "0x06", "0x05"]) 2 = .ok 1 ∧
      changeValue (changesOf ["0x0a", "0x14", "0x01", "0x06", "0x05"]) 3 = .ok 6 ∧
      changeValue (changesOf ["0x0a", "0x14", "0x01", "0x06", "0x05"]) 4 = .ok 5 := by
    decide +kernel
  exact session_progress hmode hroute hsubscriber hlast hlength hera hper hindex (by decide)
    (by rw [hbest]; decide) (by rw [hbest]; decide) (by decide)

section Epochs

variable {sessionsPerEra duration epochIndex genesisSlot currentSlot : ℤ}

/-- The slot is one of the `length` slots from `start` on, as the 64-bit words are. -/
def InSpan (start length slot : ℤ) : Prop := (slot - start) % 2 ^ 64 < length

/-- The number of sessions is not zero, and the slot lies in the epoch with the index
and in its era. For an era of at most `2 ^ 63` slots the second follows unless the index
is negative. A remainder that overflows ends the process, so that nothing is reported. -/
def SlotInEra (sessionsPerEra duration epochIndex genesisSlot currentSlot : ℤ) : Prop :=
  sessionsPerEra ≠ 0 ∧
    (epochIndex = -2 ^ 63 ∧ sessionsPerEra = -1 ∨
      InSpan (genesisSlot + duration * epochIndex) duration currentSlot ∧
        if 0 < sessionsPerEra ∧ sessionsPerEra * duration < 2 ^ 63 then
          0 ≤ epochIndex ∨ sessionsPerEra ∣ epochIndex
        else InSpan (genesisSlot + sessionsPerEra * duration * epochIndex.tdiv sessionsPerEra)
          (wrap64 (sessionsPerEra * duration)) currentSlot)

theorem tmod_nonneg_iff {a b : ℤ} : 0 ≤ a.tmod b ↔ 0 ≤ a ∨ b ∣ a := by
  constructor
  · intro h
    by_contra hcontra
    push Not at hcontra
    have hle : 0 ≤ (-a).tmod b := Int.tmod_nonneg b (by omega)
    rw [Int.neg_tmod] at hle
    have hzero : a.tmod b = 0 := by omega
    exact hcontra.2 (Int.dvd_of_tmod_eq_zero hzero)
  · rintro (ha | hdvd)
    · exact Int.tmod_nonneg b ha
    · rw [Int.tmod_eq_zero_of_dvd hdvd]

/-- In an era that fits, the slot of an epoch is a slot of its era unless the epoch has
a negative number in the era. -/
theorem inSpan_era_iff (hsessions : 0 < sessionsPerEra)
    (hfits : sessionsPerEra * duration < 2 ^ 63)
    (hepoch : InSpan (genesisSlot + duration * epochIndex) duration currentSlot) :
    InSpan (genesisSlot + sessionsPerEra * duration * epochIndex.tdiv sessionsPerEra)
        (wrap64 (sessionsPerEra * duration)) currentSlot ↔
      0 ≤ epochIndex ∨ sessionsPerEra ∣ epochIndex := by
  rw [← tmod_nonneg_iff]
  have hsplit := Int.mul_tdiv_add_tmod epochIndex sessionsPerEra
  have hlow := Int.lt_tmod_of_pos epochIndex hsessions
  have hhigh := Int.tmod_lt_of_pos epochIndex hsessions
  generalize epochIndex.tmod sessionsPerEra = r at hsplit hlow hhigh ⊢
  generalize epochIndex.tdiv sessionsPerEra = q at hsplit ⊢
  unfold InSpan at hepoch ⊢
  have hpos : 0 ≤ (currentSlot - (genesisSlot + duration * epochIndex)) % 2 ^ 64 :=
    Int.emod_nonneg _ (by norm_num)
  have hduration : 0 < duration := by omega
  have hera : (currentSlot - (genesisSlot + sessionsPerEra * duration * q)) % 2 ^ 64 =
      ((currentSlot - (genesisSlot + duration * epochIndex)) % 2 ^ 64 + r * duration) % 2 ^ 64 := by
    rw [Int.emod_add_emod]
    congr 1
    rw [← hsplit]
    ring
  have hproduct : 0 < sessionsPerEra * duration := Int.mul_pos hsessions hduration
  rw [hera, wrap64_of_long (by omega) hfits]
  generalize (currentSlot - (genesisSlot + duration * epochIndex)) % 2 ^ 64 = p at hepoch hpos ⊢
  rcases lt_or_ge r 0 with hneg | hnonneg
  · have hupper : r * duration ≤ -1 * duration := Int.mul_le_mul_of_nonneg_right (by omega) hduration.le
    have hlower : -sessionsPerEra * duration ≤ r * duration :=
      Int.mul_le_mul_of_nonneg_right (by omega) hduration.le
    have hneg_mul : -sessionsPerEra * duration = -(sessionsPerEra * duration) := by ring
    apply iff_of_false
    · omega
    · omega
  · have hlower : 0 ≤ r * duration := Int.mul_nonneg hnonneg hduration.le
    have hupper : r * duration ≤ (sessionsPerEra - 1) * duration :=
      Int.mul_le_mul_of_nonneg_right (by omega) hduration.le
    have hsub : (sessionsPerEra - 1) * duration = sessionsPerEra * duration - duration := by ring
    apply iff_of_true
    · omega
    · exact hnonneg

theorem epochUpdate_eq {message : Json} (hindex : changeValue message 0 = .ok epochIndex)
    (hgenesis : changeValue message 1 = .ok genesisSlot)
    (hslot : changeValue message 2 = .ok currentSlot) (hsessions : sessionsPerEra ≠ 0)
    (hoverflow : ¬ (epochIndex = -2 ^ 63 ∧ sessionsPerEra = -1)) :
    epochUpdate duration sessionsPerEra message = .ok (.eraAndSession
      ⟨wrap64 (currentSlot -
          (genesisSlot + sessionsPerEra * duration * epochIndex.tdiv sessionsPerEra)),
        wrap64 (sessionsPerEra * duration)⟩
      (.epoch (wrap64 (currentSlot - (genesisSlot + duration * epochIndex))) duration)) := by
  have hsplit := Int.mul_tdiv_add_tmod epochIndex sessionsPerEra
  have hprogress : wrap64 (currentSlot - wrap64 (wrap64 (duration * epochIndex) + genesisSlot)) =
      wrap64 (currentSlot - (genesisSlot + duration * epochIndex)) := by
    rw [wrap64_wrap64_add, wrap64_sub_wrap64, Int.add_comm (duration * epochIndex)]
  have hera : wrap64 (wrap64 (epochIndex.tmod sessionsPerEra * duration) +
        wrap64 (currentSlot - (genesisSlot + duration * epochIndex))) =
      wrap64 (currentSlot -
        (genesisSlot + sessionsPerEra * duration * epochIndex.tdiv sessionsPerEra)) := by
    rw [wrap64_wrap64_add, wrap64_add_wrap64]
    apply congrArg wrap64
    generalize epochIndex.tmod sessionsPerEra = r at hsplit ⊢
    generalize epochIndex.tdiv sessionsPerEra = q at hsplit ⊢
    rw [← hsplit]
    ring
  rw [epochUpdate, hindex, except_ok_bind, hgenesis, except_ok_bind, hslot, except_ok_bind]
  dsimp only
  rw [remainder_eq_ok hsessions hoverflow, except_ok_bind, hprogress, hera]
  rfl

theorem ranges_iff (hduration : duration ≤ 2 ^ 63) (hsessions : sessionsPerEra ≠ 0)
    (hoverflow : ¬ (epochIndex = -2 ^ 63 ∧ sessionsPerEra = -1)) :
    ((0 ≤ wrap64 (currentSlot - (genesisSlot + duration * epochIndex)) ∧
        wrap64 (currentSlot - (genesisSlot + duration * epochIndex)) < duration) ∧
      0 ≤ wrap64 (currentSlot -
          (genesisSlot + sessionsPerEra * duration * epochIndex.tdiv sessionsPerEra)) ∧
        wrap64 (currentSlot -
          (genesisSlot + sessionsPerEra * duration * epochIndex.tdiv sessionsPerEra)) <
            wrap64 (sessionsPerEra * duration)) ↔
      SlotInEra sessionsPerEra duration epochIndex genesisSlot currentSlot := by
  rw [wrap64_range_iff hduration, wrap64_range_iff (wrap64_le _)]
  change InSpan _ _ _ ∧ InSpan _ _ _ ↔ _
  rw [SlotInEra, and_iff_right hsessions, or_iff_right hoverflow]
  apply and_congr_right
  intro hepoch
  split_ifs with hfits
  · exact inSpan_era_iff hfits.1 hfits.2 hepoch
  · rfl

theorem remainder_defined {a b r : ℤ} (h : remainder a b = .ok r) :
    b ≠ 0 ∧ ¬ (a = -2 ^ 63 ∧ b = -1) := by
  unfold remainder at h
  split_ifs at h with hcase
  push Not at hcase
  exact ⟨hcase.1, fun hoverflow => hcase.2 hoverflow.1 hoverflow.2⟩

theorem epochUpdate_defined {message : Json} {p : Payload}
    (h : epochUpdate duration sessionsPerEra message = .ok p) :
    ∃ epochIndex genesisSlot currentSlot, changeValue message 0 = .ok epochIndex ∧
      changeValue message 1 = .ok genesisSlot ∧ changeValue message 2 = .ok currentSlot ∧
      sessionsPerEra ≠ 0 ∧ ¬ (epochIndex = -2 ^ 63 ∧ sessionsPerEra = -1) := by
  obtain ⟨epochIndex, hindex, h⟩ := except_bind_eq_ok h
  obtain ⟨genesisSlot, hgenesis, h⟩ := except_bind_eq_ok h
  obtain ⟨currentSlot, hslot, h⟩ := except_bind_eq_ok h
  obtain ⟨r, hr, -⟩ := except_bind_eq_ok h
  exact ⟨epochIndex, genesisSlot, currentSlot, hindex, hgenesis, hslot, remainder_defined hr⟩

end Epochs

/-- No remainder by zero is taken once the three values are read, and what is reported
lies inside the epoch and the era. -/
structure EpochReported (w : World) (id : ℤ) (message : Json) : Prop where
  divisor : (∀ i < 3, ∃ value, changeValue message i = .ok value) → w.api.sessionsPerEra ≠ 0
  ranges (w' : World) (callback : Callback) (era : Era) (epochProgress epochLength : ℤ) :
    handleWsMessage w id message = .ok w' →
    w'.log = w.log ++ [.handled id message,
      .invoked id callback (.eraAndSession era (.epoch epochProgress epochLength))] →
    (0 ≤ epochProgress ∧ epochProgress < epochLength) ∧
      0 ≤ era.eraProgress ∧ era.eraProgress < era.eraLength

/-- In epoch mode the report is right exactly if the notification names a slot of the
epoch whose index it names. -/
theorem epoch_progress_iff {w : World} {id : ℤ} {message : Json} {tag : ℕ}
    (hmode : w.api.isEpoch = true) (hroute : route w.api id = some eraAndSession)
    (hsubscriber : w.api.subscriber eraAndSession = some (.client tag))
    (hduration : w.api.babeEpochDuration < 2 ^ 63) :
    EpochReported w id message ↔ ∀ epochIndex genesisSlot currentSlot,
      changeValue message 0 = .ok epochIndex → changeValue message 1 = .ok genesisSlot →
      changeValue message 2 = .ok currentSlot →
      SlotInEra w.api.sessionsPerEra w.api.babeEpochDuration epochIndex genesisSlot currentSlot := by
  have hpayload := payload_epochs hmode message
  constructor
  · intro h epochIndex genesisSlot currentSlot hindex hgenesis hslot
    have hvalues : ∀ i < 3, ∃ value, changeValue message i = .ok value := by
      intro i hi
      interval_cases i
      · exact ⟨_, hindex⟩
      · exact ⟨_, hgenesis⟩
      · exact ⟨_, hslot⟩
    have hsessions := h.divisor hvalues
    by_cases hoverflow : epochIndex = -2 ^ 63 ∧ w.api.sessionsPerEra = -1
    · exact ⟨hsessions, Or.inl hoverflow⟩
    · rw [epochUpdate_eq hindex hgenesis hslot hsessions hoverflow] at hpayload
      obtain ⟨w', hhandle, hlog⟩ := handle_era hroute hsubscriber hpayload
      have hranges := h.ranges w' _ _ _ _ hhandle hlog
      dsimp only at hranges
      rw [← ranges_iff hduration.le hsessions hoverflow]
      exact hranges
  · intro h
    refine ⟨?_, ?_⟩
    · intro hvalues
      obtain ⟨epochIndex, hindex⟩ := hvalues 0 (by decide)
      obtain ⟨genesisSlot, hgenesis⟩ := hvalues 1 (by decide)
      obtain ⟨currentSlot, hslot⟩ := hvalues 2 (by decide)
      exact (h epochIndex genesisSlot currentSlot hindex hgenesis hslot).1
    · intro w' callback era epochProgress epochLength hhandle hlog
      have hreports : payload w.api eraAndSession message ≠ .ok none := by
        rw [hpayload]
        cases epochUpdate w.api.babeEpochDuration w.api.sessionsPerEra message <;> simp [Except.map]
      obtain ⟨callback', p, hp, hlog'⟩ := handleWsMessage_reports hroute hreports hhandle
      have hsame : p = .eraAndSession era (.epoch epochProgress epochLength) := by
        rw [hlog'] at hlog
        have hentries := List.append_cancel_left hlog
        simp only [List.cons.injEq, Entry.invoked.injEq, true_and, and_true] at hentries
        exact hentries.2
      rw [hpayload] at hp
      obtain ⟨p', hupdate, hsome⟩ := except_map_eq_ok hp
      cases hsome
      obtain ⟨epochIndex, genesisSlot, currentSlot, hindex, hgenesis, hslot, hsessions, hoverflow⟩ :=
        epochUpdate_defined hupdate
      rw [epochUpdate_eq hindex hgenesis hslot hsessions hoverflow, hsame] at hupdate
      have hin := h epochIndex genesisSlot currentSlot hindex hgenesis hslot
      have hranges := (ranges_iff hduration.le hsessions hoverflow).2 hin
      obtain ⟨hera, hsession⟩ := Payload.eraAndSession.inj (Except.ok.inj hupdate)
      obtain ⟨hprogress, hlength⟩ := SessionOrEpoch.epoch.inj hsession
      rw [← hera, ← hprogress, ← hlength]
      dsimp only
      exact hranges

theorem epoch_progress_iff_babeChain :
    EpochReported (watching babeChain) 2 (changesOf ["0x01", "0x64", "0x2c01"]) := by
  obtain ⟨hmode, hroute, hsubscriber, hsessions, hduration⟩ :
      (watching babeChain).api.isEpoch = true ∧
      route (watching babeChain).api 2 = some eraAndSession ∧
      (watching babeChain).api.subscriber eraAndSession = some (.client 0) ∧
      (watching babeChain).api.sessionsPerEra = 6 ∧
      (watching babeChain).api.babeEpochDuration = 150 := by decide +kernel
  obtain ⟨hindex, hgenesis, hslot⟩ :
      changeValue (changesOf ["0x01", "0x64", "0x2c01"]) 0 = .ok 1 ∧
      changeValue (changesOf ["0x01", "0x64", "0x2c01"]) 1 = .ok 100 ∧
      changeValue (changesOf ["0x01", "0x64", "0x2c01"]) 2 = .ok 300 := by decide +kernel
  apply (epoch_progress_iff hmode hroute hsubscriber (by rw [hduration]; norm_num)).2
  intro epochIndex genesisSlot currentSlot hindex' hgenesis' hslot'
  cases hindex.symm.trans hindex'
  cases hgenesis.symm.trans hgenesis'
  cases hslot.symm.trans hslot'
  rw [hsessions, hduration]
  refine ⟨by decide, Or.inr ⟨by norm_num [InSpan], ?_⟩⟩
  rw [if_pos (by norm_num)]
  exact Or.inl (by decide)

def zeroChain : Str :=
  (["0x6d657461", "07", "0c"] ++ balancesModule ++ stakingModule.dropLast ++ ["040000"] ++
    babeModule).flatMap lit

/-- The number of sessions is recorded as it comes, and used as a divisor. -/
theorem epoch_progress_fails :
    ¬ ∀ lib memory es w, run (step lib) (start (construct memory)) es = some w →
      w.api.isEpoch = true → ∀ id, route w.api id = some eraAndSession → ∀ message,
        EpochReported w id message := by
  intro hall
  obtain ⟨hrun, hmode, hroute, hsessions⟩ :
      (run (step sampleLibraries) (start (construct blankMemory)) (watchEra zeroChain)).isSome ∧
      (watching zeroChain).api.isEpoch = true ∧
      route (watching zeroChain).api 2 = some eraAndSession ∧
      (watching zeroChain).api.sessionsPerEra = 0 := by decide +kernel
  have hreached : run (step sampleLibraries) (start (construct blankMemory)) (watchEra zeroChain) =
      some (watching zeroChain) := run_after _ _ hrun
  have hreport := hall sampleLibraries blankMemory _ _ hreached hmode 2 hroute
    (changesOf ["0x01", "0x64", "0x2c01"])
  apply hreport.divisor _ hsessions
  intro i hi
  have hvalues : ∀ i < 3,
      ((changeValue (changesOf ["0x01", "0x64", "0x2c01"]) i).toOption).isSome := by decide +kernel
  cases hvalue : changeValue (changesOf ["0x01", "0x64", "0x2c01"]) i with
  | ok value => exact ⟨value, rfl⟩
  | error fault =>
    have hsome := hvalues i hi
    rw [hvalue] at hsome
    cases hsome

end PolkadotApi.EraProgress

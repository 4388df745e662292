import PolkadotApi.ObjectRuns

set_option autoImplicit false

namespace PolkadotApi.EpochMode
open StatefulActions StreamReader MachineModel JsonValues MetadataFactory MetadataLookup
open ExtrinsicSubmission StorageKeys Subscriptions SubscriptionFrames CallSpecifications Connection
open ObjectRuns StepRuns

section Metadata

def storageEntry (md : Metadata) (i j : ℕ) : Option Str :=
  (firstVersion md i (fun _ m => (m.storage.function j).map fun f => f.name)
    (fun _ m => (m.storage j).bind fun item => item.name)
    (fun _ m => (m.storage j).bind fun item => item.name)
    (fun _ m => (m.storage j).bind fun item => item.name)
    (fun _ m => m.storage.bind fun s => (s.items j).bind fun item => item.name)).join

/-- The metadata has a module of that name with a storage entry of that name. -/
def HasVariable (md : Metadata) (module variableName : Str) : Prop :=
  ∃ i < COLLECTION_SIZE, lower (nameAt md i) = lower module ∧
    ∃ j < COLLECTION_SIZE, (storageEntry md i j).map lower = some (lower variableName)

instance (md : Metadata) (module variableName : Str) :
    Decidable (HasVariable md module variableName) :=
  inferInstanceAs (Decidable (∃ i < COLLECTION_SIZE, lower (nameAt md i) = lower module ∧
    ∃ j < COLLECTION_SIZE, (storageEntry md i j).map lower = some (lower variableName)))

def HasBabe (md : Metadata) : Prop :=
  HasVariable md (lit "Babe") (lit "GenesisSlot") ∧ HasVariable md (lit "Babe") (lit "CurrentSlot") ∧
    HasVariable md (lit "Babe") (lit "EpochIndex")

end Metadata

structure BabeMembers where
  genesisSlot : Str
  currentSlot : Str
  epochIndex : Str
  sessionsPerEra : ℤ
  babeEpochDuration : ℤ

def babeMembers (api : Api) : BabeMembers :=
  ⟨api.storageKeyBabeGenesisSlot, api.storageKeyBabeCurrentSlot, api.storageKeyBabeEpochIndex,
    api.sessionsPerEra, api.babeEpochDuration⟩

section Fetching

variable (lib : Libraries)

def replyOf (answers : List Answer) : Result Json :=
  match (answers.headD ⟨.ok .null, []⟩).reply with
  | .ok json => .ok json
  | .error e => .error (.thrown e)

def fetchedHash (answers : List Answer) : Result Str := do
  let json ← replyOf answers
  deserialize lib (createBlockHash json)

def fetchedMetadata (answers : List Answer) : Result Metadata := do
  let json ← replyOf answers.tail
  deserialize lib (createMetadata json.stringValue)

def fetched (answers : List Answer) : Result (Metadata × Hasher) := do
  let hash ← fetchedHash lib answers
  let md ← fetchedMetadata lib answers
  let hasher ← getFuncHasher md (lit "Balances") (lit "FreeBalance")
  let _ ← connectParameters md (genesisBlockHash hash)
  return (md, hasher)

structure Computed (md : Metadata) (hasher : Hasher) (b : BabeMembers) : Prop where
  genesisSlot : babeKey lib md hasher "GenesisSlot" = .ok b.genesisSlot
  currentSlot : babeKey lib md hasher "CurrentSlot" = .ok b.currentSlot
  epochIndex : babeKey lib md hasher "EpochIndex" = .ok b.epochIndex
  sessionsPerEra : getMetadataConst md (lit "Staking") (lit "SessionsPerEra") = .ok b.sessionsPerEra
  babeEpochDuration :
    getMetadataConst md (lit "Babe") (lit "EpochDuration") = .ok b.babeEpochDuration

/-- The key that a `connect` with these answers stores, if it comes to that. -/
def genesisSlotKey (answers : List Answer) : Option Str :=
  (fetched lib answers).toOption.bind fun p => (babeKey lib p.1 p.2 "GenesisSlot").toOption

/-- The mode is the one of the metadata, and the members are those of the metadata. -/
def DecidedBy (md : Metadata) (hasher : Hasher) (api : Api) : Prop :=
  (api.isEpoch = true ↔ HasBabe md) ∧ (api.isEpoch = true → Computed lib md hasher (babeMembers api))

end Fetching

section Reading

variable {lib : Libraries} {F : World → Prop} {answers : List Answer} {b : BabeMembers}

theorem babeMembers_quiet : Quiet fun w => babeMembers w.api = b := by
  refine ⟨fun _ h => h, ?_⟩
  intro w w' id message h hhandle
  rw [(handleWsMessage_handled hhandle).api]
  exact h

theorem fetch_triple {α : Type} {q : Json} {f : Json → Result α} (hF : Quiet F)
    (hrequested : ∀ w q, F w → F (w.record (.requested q))) :
    Triple (fun w => w.answers = answers ∧ F w)
      (do
        let json ← request fun _ => .requested q
        liftResult (f json))
      (fun a w => (replyOf answers >>= f) = .ok a ∧ w.answers = answers.tail ∧ F w)
      fun halt w => F w ∧ ∀ e, halt = .thrown e → ∀ a, (replyOf answers >>= f) ≠ .ok a := by
  have hsteady : Steady fun w => w.answers = answers.tail ∧ F w := by
    intro w w' id message h hhandle
    exact ⟨(handleWsMessage_handled hhandle).answers.trans h.1, hF.handle w w' id message h.2 hhandle⟩
  have hpopped : ∀ w, (w.answers = answers ∧ F w) → w.popped.answers = answers.tail ∧ F w.popped :=
    fun w h => ⟨by rw [World.popped, h.1], hF.popped w h.2⟩
  have hreply : ∀ {w : World}, w.answers = answers →
      replyOf answers = match w.answer.reply with | .ok json => .ok json | .error e => .error (.thrown e) := by
    intro w hw
    rw [replyOf, World.answer, hw]
  apply Triple.bind
      (Q := fun json w => replyOf answers = .ok json ∧ w.answers = answers.tail ∧ F w)
  · apply (request_triple hpopped hsteady _).post
    · intro json w h
      obtain ⟨⟨w₀, hw₀, hjson⟩, w₁, hw₁, rfl⟩ := h
      refine ⟨?_, hw₁.1, hrequested w₁ q hw₁.2⟩
      rw [hreply hw₀.1, hjson]
    · intro halt w h
      refine ⟨h.1.2, ?_⟩
      intro e he a
      obtain ⟨w₀, hw₀, herror⟩ := h.2 e he
      rw [hreply hw₀.1, herror]
      exact fun h => by cases h
  · intro json
    apply triple_assume
    intro hjson
    rw [hjson, except_ok_bind]
    apply triple_liftResult
    · intro a w ha h
      exact ⟨ha, h⟩
    · intro halt w ha h
      exact ⟨h.2, fun e _ => ha⟩

theorem readParameters_triple :
    Triple (fun w => w.answers = answers ∧ babeMembers w.api = b) (readParameters lib)
      (fun p w => fetched lib answers = .ok p ∧ babeMembers w.api = b)
      fun halt w => babeMembers w.api = b ∧ ∀ e, halt = .thrown e → ∀ p, fetched lib answers ≠ .ok p := by
  apply Triple.bind (Q := fun hash w => fetchedHash lib answers = .ok hash ∧
    w.answers = answers.tail ∧ babeMembers w.api = b)
  · apply (fetch_triple babeMembers_quiet fun _ _ h => h).post
    · intro hash w h
      exact h
    · intro halt w h
      refine ⟨h.1, ?_⟩
      intro e he p hp
      obtain ⟨hash, hhash, -⟩ := except_bind_eq_ok hp
      exact h.2 e he hash hhash
  intro hash
  apply triple_assume
  intro hhash
  apply Triple.bind (Q := fun _ w => w.answers = answers.tail ∧ babeMembers w.api = b)
  · exact triple_modify fun w h => h
  intro _
  apply Triple.bind (Q := fun md w => fetchedMetadata lib answers = .ok md ∧
    w.answers = answers.tail.tail ∧ babeMembers w.api = b)
  · apply (fetch_triple babeMembers_quiet fun _ _ h => h).post
    · intro md w h
      exact h
    · intro halt w h
      refine ⟨h.1, ?_⟩
      intro e he p hp
      rw [fetched, hhash, except_ok_bind] at hp
      obtain ⟨md, hmd, -⟩ := except_bind_eq_ok hp
      exact h.2 e he md hmd
  intro md
  apply triple_assume
  intro hmd
  have hfetched : fetched lib answers = (do
      let hasher ← getFuncHasher md (lit "Balances") (lit "FreeBalance")
      let _ ← connectParameters md (genesisBlockHash hash)
      return (md, hasher)) := by
    rw [fetched, hhash, except_ok_bind, hmd, except_ok_bind]
  rw [hfetched]
  apply Triple.bind (Q := fun hasher w =>
    getFuncHasher md (lit "Balances") (lit "FreeBalance") = .ok hasher ∧ babeMembers w.api = b)
  · apply triple_liftResult
    · intro hasher w hhasher h
      exact ⟨hhasher, h.2⟩
    · intro halt w hnone h
      refine ⟨h.2, ?_⟩
      intro e _ p hp
      obtain ⟨hasher, hhasher, -⟩ := except_bind_eq_ok hp
      exact hnone hasher hhasher
  intro hasher
  apply triple_assume
  intro hhasher
  rw [hhasher, except_ok_bind]
  apply Triple.bind (Q := fun prm w =>
    connectParameters md (genesisBlockHash hash) = .ok prm ∧ babeMembers w.api = b)
  · apply triple_liftResult
    · intro prm w hprm h
      exact ⟨hprm, h⟩
    · intro halt w hnone h
      refine ⟨h, ?_⟩
      intro e _ p hp
      obtain ⟨prm, hprm, -⟩ := except_bind_eq_ok hp
      exact hnone prm hprm
  intro prm
  apply triple_assume
  intro hprm
  rw [hprm, except_ok_bind]
  apply Triple.bind (Q := fun _ w => babeMembers w.api = b)
  · exact triple_modify fun w h => h
  · intro _
    exact triple_pure fun _ h => ⟨rfl, h⟩

variable {md : Metadata} {hasher : Hasher}

theorem toOption_of_ne {α : Type} {r : Result α} (h : ∀ a, r ≠ .ok a) : r.toOption = none := by
  cases r with
  | ok a => exact absurd rfl (h a)
  | error fault => rfl

theorem member_triple {α β : Type} {r : Result α} {store : α → Api → Api} {rest : Action β}
    {Q : β → World → Prop} {R : Halt → World → Prop} {N : α → BabeMembers}
    (hstore : ∀ a api, babeMembers api = b → babeMembers (store a api) = N a)
    (hfail : (∀ a, r ≠ .ok a) → ∀ halt w, babeMembers w.api = b → R halt w)
    (hrest : ∀ a, r = .ok a → Triple (fun w => babeMembers w.api = N a) rest Q R) :
    Triple (fun w => babeMembers w.api = b)
      (do
        let a ← liftResult r
        update (store a)
        rest) Q R := by
  apply Triple.bind (Q := fun a w => r = .ok a ∧ babeMembers w.api = b)
  · apply triple_liftResult
    · intro a w ha h
      exact ⟨ha, h⟩
    · intro halt w hnone h
      exact hfail hnone halt w h
  intro a
  apply triple_assume
  intro ha
  apply Triple.bind (Q := fun _ w => babeMembers w.api = N a)
  · exact triple_modify fun w h => hstore a w.api h
  · intro _
    exact hrest a ha

/-- The `try` has stored all the members, or the metadata lacks one of them and the
key of GenesisSlot is stored if it could be computed. -/
theorem readBabe_triple :
    Triple (fun w => babeMembers w.api = b) (readBabe lib md hasher)
      (fun _ w => Computed lib md hasher (babeMembers w.api))
      fun _ w => (babeMembers w.api).genesisSlot =
          (babeKey lib md hasher "GenesisSlot").toOption.getD b.genesisSlot ∧
        ∀ b', ¬ Computed lib md hasher b' := by
  apply member_triple (N := fun genesisSlot => { b with genesisSlot })
  · rintro a api rfl
    rfl
  · intro hnone halt w h
    rw [toOption_of_ne hnone, h]
    exact ⟨rfl, fun b' hb => hnone _ hb.genesisSlot⟩
  intro genesisSlot hgenesis
  rw [hgenesis]
  apply member_triple (N := fun currentSlot => { b with genesisSlot, currentSlot })
  · intro a api h
    change { babeMembers api with currentSlot := a } = _
    rw [h]
  · intro hnone halt w h
    rw [h]
    exact ⟨rfl, fun b' hb => hnone _ hb.currentSlot⟩
  intro currentSlot hcurrent
  apply member_triple (N := fun epochIndex => { b with genesisSlot, currentSlot, epochIndex })
  · intro a api h
    change { babeMembers api with epochIndex := a } = _
    rw [h]
  · intro hnone halt w h
    rw [h]
    exact ⟨rfl, fun b' hb => hnone _ hb.epochIndex⟩
  intro epochIndex hepoch
  apply member_triple
    (N := fun sessionsPerEra => { b with genesisSlot, currentSlot, epochIndex, sessionsPerEra })
  · intro a api h
    change { babeMembers api with sessionsPerEra := a } = _
    rw [h]
  · intro hnone halt w h
    rw [h]
    exact ⟨rfl, fun b' hb => hnone _ hb.sessionsPerEra⟩
  intro sessionsPerEra hsessions
  apply Triple.bind (Q := fun n w =>
    getMetadataConst md (lit "Babe") (lit "EpochDuration") = .ok n ∧
      babeMembers w.api = { b with genesisSlot, currentSlot, epochIndex, sessionsPerEra })
  · apply triple_liftResult
    · intro n w hn h
      exact ⟨hn, h⟩
    · intro halt w hnone h
      rw [h]
      exact ⟨rfl, fun b' hb => hnone _ hb.babeEpochDuration⟩
  intro babeEpochDuration
  apply triple_assume
  intro hduration
  apply triple_modify
  intro w h
  change Computed lib md hasher { babeMembers w.api with babeEpochDuration }
  rw [h]
  exact ⟨hgenesis, hcurrent, hepoch, hsessions, hduration⟩

theorem genesisSlotKey_of_fetched (h : fetched lib answers = .ok (md, hasher)) :
    genesisSlotKey lib answers = (babeKey lib md hasher "GenesisSlot").toOption := by
  rw [genesisSlotKey, h]
  rfl

theorem genesisSlotKey_of_failed (h : ∀ p, fetched lib answers ≠ .ok p) :
    genesisSlotKey lib answers = none := by
  rw [genesisSlotKey, toOption_of_ne h]
  rfl

theorem connect_triple (code : ℤ) :
    Triple (fun w => w.answers = answers ∧ babeMembers w.api = b) (connect lib code)
      (fun _ w => (babeMembers w.api).genesisSlot = (genesisSlotKey lib answers).getD b.genesisSlot ∧
        w.api.isEpoch = decide ((babeMembers w.api).genesisSlot ≠ []) ∧
        ∃ md hasher, fetched lib answers = .ok (md, hasher) ∧
          (Computed lib md hasher (babeMembers w.api) ∨ ∀ b', ¬ Computed lib md hasher b'))
      fun halt w => (∃ e, halt = .thrown e) →
        (babeMembers w.api).genesisSlot = (genesisSlotKey lib answers).getD b.genesisSlot := by
  apply Triple.bind (Q := fun p w => fetched lib answers = .ok p ∧ babeMembers w.api = b)
  · apply readParameters_triple.post
    · intro p w h
      exact h
    · intro halt w h hthrown
      obtain ⟨e, he⟩ := hthrown
      rw [genesisSlotKey_of_failed (h.2 e he), h.1]
      rfl
  intro p
  apply triple_assume
  intro hfetched
  rw [genesisSlotKey_of_fetched hfetched]
  apply Triple.bind (Q := fun _ w => (babeMembers w.api).genesisSlot =
      (babeKey lib p.1 p.2 "GenesisSlot").toOption.getD b.genesisSlot ∧
    (Computed lib p.1 p.2 (babeMembers w.api) ∨ ∀ b', ¬ Computed lib p.1 p.2 b'))
  · apply triple_tryCatch (M := fun _ w => (babeMembers w.api).genesisSlot =
      (babeKey lib p.1 p.2 "GenesisSlot").toOption.getD b.genesisSlot ∧
        ∀ b', ¬ Computed lib p.1 p.2 b')
    · apply readBabe_triple.post
      · intro _ w h
        exact ⟨by rw [h.genesisSlot]; rfl, Or.inl h⟩
      · intro halt w h
        exact h
    · intro halt
      unfold expected
      split
      · exact triple_pure fun w h => ⟨h.1, Or.inr h.2⟩
      · exact triple_throw fun w h _ => h.1
  intro _
  apply Triple.bind (Q := fun _ w => (babeMembers w.api).genesisSlot =
      (babeKey lib p.1 p.2 "GenesisSlot").toOption.getD b.genesisSlot ∧
    w.api.isEpoch = decide ((babeMembers w.api).genesisSlot ≠ []) ∧
    (Computed lib p.1 p.2 (babeMembers w.api) ∨ ∀ b', ¬ Computed lib p.1 p.2 b'))
  · exact triple_modify fun w h => ⟨h.1, rfl, h.2⟩
  · intro _
    exact triple_pure fun w h => ⟨h.1, h.2.1, p.1, p.2, hfetched, h.2.2⟩

end Reading

section Runs

variable {lib : Libraries} {w w' : World}

theorem babeKey_ne_nil {md : Metadata} {hasher : Hasher} {variableName : String} {key : Str}
    (h : babeKey lib md hasher variableName = .ok key) : key ≠ [] := getKeys_ne_nil lib h

theorem genesisSlotKey_ne_nil {answers : List Answer} {key : Str}
    (h : genesisSlotKey lib answers = some key) : key ≠ [] := by
  obtain ⟨p, -, hkey⟩ := Option.bind_eq_some_iff.1 h
  cases hbabe : babeKey lib p.1 p.2 "GenesisSlot" with
  | ok key' =>
    rw [hbabe] at hkey
    cases hkey
    exact babeKey_ne_nil hbabe
  | error fault =>
    rw [hbabe] at hkey
    cases hkey

theorem step_genesisSlot {e : Event} {code : ℤ} (he : e.op = .connect code)
    (hstep : step lib w e = some w') : w'.api.storageKeyBabeGenesisSlot =
      (genesisSlotKey lib e.answers).getD w.api.storageKeyBabeGenesisSlot := by
  have htriple : Triple
      (fun u => u.answers = e.answers ∧ babeMembers u.api = babeMembers w.api) (perform lib e.op)
      (fun _ u => (babeMembers u.api).genesisSlot =
        (genesisSlotKey lib e.answers).getD (babeMembers w.api).genesisSlot)
      fun halt u => (∃ e, halt = .thrown e) → (babeMembers u.api).genesisSlot =
        (genesisSlotKey lib e.answers).getD (babeMembers w.api).genesisSlot := by
    rw [he]
    exact triple_discard ((connect_triple code).post (fun _ _ h => h.1) fun _ _ h => h)
  exact step_of_triple htriple (fun e w h => h ⟨e, rfl⟩) ⟨rfl, rfl⟩ hstep

theorem genesisSlot_eq_nil_iff {es : List Event} (hes : ∀ e ∈ es, ∃ code, e.op = .connect code)
    (hrun : run (step lib) w es = some w') : w'.api.storageKeyBabeGenesisSlot = [] ↔
      w.api.storageKeyBabeGenesisSlot = [] ∧ ∀ e ∈ es, genesisSlotKey lib e.answers = none := by
  induction es generalizing w with
  | nil =>
    cases hrun
    simp
  | cons e es ih =>
    obtain ⟨t, ht, hrest⟩ := run_cons.1 hrun
    obtain ⟨code, hcode⟩ := hes e List.mem_cons_self
    rw [ih (fun e' he' => hes e' (List.mem_cons_of_mem e he')) hrest, step_genesisSlot hcode ht,
      List.forall_mem_cons]
    cases hkey : genesisSlotKey lib e.answers with
    | none => simp
    | some key =>
      have hne := genesisSlotKey_ne_nil hkey
      simp [hne]

end Runs

/-- After a successful `connect` the mode is the one of the metadata just fetched
exactly when that metadata gives all the members, or has not the variables and no
`connect` of the run has computed a key of GenesisSlot. -/
theorem epoch_mode_iff (lib : Libraries) (memory : Api) (es : List Event)
    (hes : ∀ e ∈ es, ∃ code, e.op = .connect code) (w w' : World)
    (hrun : run (step lib) (start (construct memory)) es = some w) (answers : List Answer)
    (incoming : List (ℤ × Json))
    (hconnect : (connect lib PAPI_OK).run (meets w ⟨.connect PAPI_OK, answers, incoming⟩) =
      .ok PAPI_OK w') :
    ∃ md hasher, fetched lib answers = .ok (md, hasher) ∧
      (DecidedBy lib md hasher w'.api ↔
        HasBabe md ∧ (∃ b, Computed lib md hasher b) ∨
        ¬ HasBabe md ∧ (∀ key, babeKey lib md hasher "GenesisSlot" ≠ .ok key) ∧
          ∀ e ∈ es, genesisSlotKey lib e.answers = none) := by
  have hbefore := genesisSlot_eq_nil_iff hes hrun
  have hstart : (meets w ⟨.connect PAPI_OK, answers, incoming⟩).answers = answers ∧
      babeMembers (meets w ⟨.connect PAPI_OK, answers, incoming⟩).api = babeMembers w.api := ⟨rfl, rfl⟩
  obtain ⟨hkey, hepoch, md, hasher, hfetched, hcomputed⟩ :=
    (connect_triple PAPI_OK).of_ok hstart hconnect
  rw [genesisSlotKey_of_fetched hfetched] at hkey
  refine ⟨md, hasher, hfetched, ?_⟩
  have hmode : w'.api.isEpoch = true ↔ (babeMembers w'.api).genesisSlot ≠ [] := by
    rw [hepoch, decide_eq_true_iff]
  rw [DecidedBy, hmode]
  cases hgenesis : babeKey lib md hasher "GenesisSlot" with
  | ok key =>
    have hne : (babeMembers w'.api).genesisSlot ≠ [] := by
      rw [hkey, hgenesis]
      exact babeKey_ne_nil hgenesis
    have hmembers : Computed lib md hasher (babeMembers w'.api) ↔ ∃ b, Computed lib md hasher b := by
      refine ⟨fun h => ⟨_, h⟩, ?_⟩
      rintro ⟨b, hb⟩
      exact hcomputed.resolve_right fun hnone => hnone b hb
    simp [hne, hmembers]
  | error fault =>
    have hnone : ∀ b, ¬ Computed lib md hasher b := by
      intro b hb
      have h := hb.genesisSlot
      rw [hgenesis] at h
      cases h
    have hold : (babeMembers w'.api).genesisSlot = w.api.storageKeyBabeGenesisSlot := by
      rw [hkey, hgenesis]
      rfl
    have hempty : w.api.storageKeyBabeGenesisSlot = [] ↔
        ∀ e ∈ es, genesisSlotKey lib e.answers = none := by
      rw [hbefore]
      simp [start, construct]
    rw [hold, ← hempty]
    constructor
    · rintro ⟨hiff, hmembers⟩
      have hnil : w.api.storageKeyBabeGenesisSlot = [] := by
        by_contra hne
        exact hnone _ (hmembers hne)
      exact Or.inr ⟨fun hbabe => hiff.2 hbabe hnil, by simp, hnil⟩
    · rintro (⟨-, b, hb⟩ | ⟨hbabe, -, hnil⟩)
      · exact absurd hb (hnone b)
      · exact ⟨⟨fun hne => absurd hnil hne, fun h => absurd h hbabe⟩, fun hne => absurd hnil hne⟩

theorem plainChain_lacks_babe {md : Metadata} {hasher : Hasher}
    (h : fetched sampleLibraries (connectTo plainChain).answers = .ok (md, hasher)) :
    ¬ HasBabe md ∧ ∀ key, babeKey sampleLibraries md hasher "GenesisSlot" ≠ .ok key := by
  have hmd : (fetched sampleLibraries (connectTo plainChain).answers).map (fun p =>
      (decide (HasVariable p.1 (lit "Babe") (lit "GenesisSlot")),
        (babeKey sampleLibraries p.1 p.2 "GenesisSlot").toOption)) = .ok (false, none) := by
    decide +kernel
  rw [h] at hmd
  have hpair := Except.ok.inj hmd
  have hvariable := of_decide_eq_false (Prod.mk.inj hpair).1
  have hkey := (Prod.mk.inj hpair).2
  refine ⟨fun hbabe => hvariable hbabe.1, ?_⟩
  intro key hok
  dsimp only at hkey
  rw [hok] at hkey
  cases hkey

theorem connects_connectTo (chain : Str) :
    ∀ e ∈ [connectTo chain], ∃ code, e.op = .connect code := by
  intro e he
  rw [List.mem_singleton.1 he]
  exact ⟨PAPI_OK, rfl⟩

def firstPlain : World := after (start (construct blankMemory)) [connectTo plainChain]

theorem epoch_mode_iff_plain : ∃ md hasher,
    fetched sampleLibraries (connectTo plainChain).answers = .ok (md, hasher) ∧
      DecidedBy sampleLibraries md hasher
        (final (connect sampleLibraries PAPI_OK) (meets firstPlain (connectTo plainChain))).api := by
  obtain ⟨hsome, hresult, hnone⟩ :
      (run (step sampleLibraries) (start (construct blankMemory)) [connectTo plainChain]).isSome ∧
      result (connect sampleLibraries PAPI_OK) (meets firstPlain (connectTo plainChain)) =
        some PAPI_OK ∧
      genesisSlotKey sampleLibraries (connectTo plainChain).answers = none := by
    decide +kernel
  have hrun : run (step sampleLibraries) (start (construct blankMemory)) [connectTo plainChain] =
      some firstPlain := run_after _ _ hsome
  obtain ⟨md, hasher, hfetched, hiff⟩ := epoch_mode_iff sampleLibraries blankMemory
    [connectTo plainChain] (connects_connectTo _) _ _ hrun (connectTo plainChain).answers [] (run_of_result hresult)
  have hlacks := plainChain_lacks_babe hfetched
  refine ⟨md, hasher, hfetched, hiff.2 (Or.inr ⟨hlacks.1, hlacks.2, ?_⟩)⟩
  intro e he
  rw [List.mem_singleton.1 he, hnone]

def firstBabe : World := after (start (construct blankMemory)) [connectTo babeChain]

/-- A chain with Babe, then one without it. -/
theorem epoch_mode_fails :
    ¬ ∀ lib memory es, (∀ e ∈ es, ∃ code, e.op = .connect code) → ∀ w w',
      run (step lib) (start (construct memory)) es = some w → ∀ answers incoming,
      (connect lib PAPI_OK).run (meets w ⟨.connect PAPI_OK, answers, incoming⟩) = .ok PAPI_OK w' →
      ∃ md hasher, fetched lib answers = .ok (md, hasher) ∧ DecidedBy lib md hasher w'.api := by
  intro hall
  obtain ⟨hsome, hresult, hepoch⟩ :
      (run (step sampleLibraries) (start (construct blankMemory)) [connectTo babeChain]).isSome ∧
      result (connect sampleLibraries PAPI_OK)
        (meets firstBabe (connectTo plainChain)) = some PAPI_OK ∧
      (final (connect sampleLibraries PAPI_OK)
        (meets firstBabe (connectTo plainChain))).api.isEpoch = true := by
    decide +kernel
  have hrun : run (step sampleLibraries) (start (construct blankMemory)) [connectTo babeChain] =
      some firstBabe := run_after _ _ hsome
  obtain ⟨md, hasher, hfetched, hdecided⟩ := hall sampleLibraries blankMemory
    [connectTo babeChain] (connects_connectTo _) firstBabe
    (final (connect sampleLibraries PAPI_OK) (meets firstBabe (connectTo plainChain))) hrun
    (connectTo plainChain).answers [] (run_of_result hresult)
  exact (plainChain_lacks_babe hfetched).1 (hdecided.1.1 hepoch)

end PolkadotApi.EpochMode

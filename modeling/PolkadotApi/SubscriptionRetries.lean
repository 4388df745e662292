import PolkadotApi.SubscriptionRetriesRequests

set_option autoImplicit false

namespace PolkadotApi.SubscriptionRetries
open StatefulActions MachineModel JsonValues StorageKeys Subscriptions SubscriptionFrames
open CallSpecifications ObjectRuns StepRuns Reconnection FailedSubscriptions SubscriptionLedger

section Steps

variable {lib : Libraries} {w w' : World} {e : Event}

/-- A subscribe call that returns does not record the id 0. -/
def NeverZero (lib : Libraries) (w : World) (e : Event) : Prop :=
  ∀ topic w', target e.op = some topic → (perform lib e.op).run (meets w e) = .ok () w' →
    0 ∉ subscribedIds (w'.log.drop w.log.length)

theorem requests_of_target_none {api : Api} {op : Operation} (h : target op = none) :
    requests lib api op = [] := by
  cases op <;> first | rfl | cases h

/-- For a call that comes back, what it records is what its requests were given. -/
theorem neverZero_iff_nonzeroIds (hstep : step lib w e = some w') :
    NeverZero lib w e ↔ NonzeroIds lib w e := by
  cases htarget : target e.op with
  | none =>
    have hgranted : NonzeroIds lib w e := by
      intro ids hids
      rw [requests_of_target_none htarget] at hids
      cases hids
      exact List.not_mem_nil
    refine iff_of_true ?_ hgranted
    intro topic w₁ htopic
    rw [htarget] at htopic
    cases htopic
  | some topic =>
    have hasks : Asks _ (perform lib e.op) := asks_perform htarget
    unfold step at hstep
    cases hrun : (perform lib e.op).run (meets w e) with
    | ok done w₁ =>
      obtain ⟨ids, hasked⟩ := hasks.returned _ _ _ hrun
      obtain ⟨l, hl, hids⟩ := hasked.log
      have hnew : subscribedIds (w₁.log.drop w.log.length) = ids := by
        rw [hl, ← hids]
        exact congrArg subscribedIds List.drop_left
      constructor
      · intro hnever ids' hids'
        cases hasked.given.symm.trans hids'
        rw [← hnew]
        exact hnever topic w₁ htarget hrun
      · intro hgranted topic' w₂ _ hrun'
        cases hrun.symm.trans hrun'
        rw [hnew]
        exact hgranted ids hasked.given
    | error halt w₁ =>
      rw [hrun] at hstep
      cases halt with
      | thrown exception =>
        refine iff_of_true ?_ ?_
        · intro topic' w₂ _ hrun'
          cases hrun.symm.trans hrun'
        · intro ids hids
          rw [hasks.thrown _ _ _ hrun ids hids]
          exact List.not_mem_nil
      | undefined => cases hstep
      | terminated => cases hstep
      | waits => cases hstep

end Steps

section Retries

variable {lib : Libraries} {w w' : World} {e : Event} {kind : KeyedKind} {key : Str}

def opens : Operation → List Topic
  | .unsubscribeBlockNumber => []
  | .unsubscribeFinalizedBlock => []
  | .unsubscribeRuntimeVersion => []
  | .unsubscribeEraAndSession => []
  | .unsubscribeBalance _ => []
  | .unsubscribeAccountNonce _ => []
  | .unsubscribeStorage _ => []
  | op => op.touched

/-- The call threw, or the answer of the node was taken for the id 0. -/
def Failed (lib : Libraries) (topic : Topic) (w : World) (e : Event) : Prop :=
  (∃ exception w', (perform lib e.op).run (meets w e) = .error (.thrown exception) w') ∨
    ∃ w' q, (perform lib e.op).run (meets w e) = .ok () w' ∧
      .subscribed topic q 0 ∈ w'.log.drop w.log.length

/-- After a subscribe call for a key has failed, the next one for the key that returns
has sent a request, however the run goes on. -/
def Retries (lib : Libraries) (w : World) (es : List Event) : Prop :=
  ∀ before e rest kind key w₁ w₂, es = before ++ e :: rest →
    target e.op = some (.keyed kind key) → run (step lib) w before = some w₁ →
    Failed lib (.keyed kind key) w₁ e → step lib w₁ e = some w₂ →
    ∀ between e' w₃ w₄, (∀ f ∈ between, .keyed kind key ∉ opens f.op) →
      target e'.op = some (.keyed kind key) → run (step lib) w₂ between = some w₃ →
      (perform lib e'.op).run (meets w₃ e') = .ok () w₄ → Sends (.keyed kind key) w₃ w₄

theorem unsubscribeKeyed_closed :
    Preserves (fun w => subscription w.api (.keyed kind key) = none) (unsubscribeKeyed kind key) := by
  apply (unsubscribeKeyed_triple (quiet_closed (.keyed kind key)) kind key).post
  · rintro _ u (⟨hu, -⟩ | ⟨v, id, method, hclosed, -, hopen, -⟩ | ⟨v, hclosed, hopen, -⟩)
    · exact hu
    · rw [hclosed] at hopen
      cases hopen
    · rw [hclosed] at hopen
      cases hopen
  · rintro _ u ⟨hu, -⟩
    exact hu

theorem step_closed (hopens : .keyed kind key ∉ opens e.op) (hstep : step lib w e = some w')
    (hclosed : subscription w.api (.keyed kind key) = none) :
    subscription w'.api (.keyed kind key) = none := by
  by_cases htouched : .keyed kind key ∈ e.op.touched
  · have hpreserves : Preserves (fun w => subscription w.api (.keyed kind key) = none)
        (perform lib e.op) := by
      generalize e.op = op at htouched hopens
      cases op with
      | unsubscribeBalance address =>
        cases List.mem_singleton.1 htouched
        exact triple_discard unsubscribeKeyed_closed
      | unsubscribeAccountNonce address =>
        cases List.mem_singleton.1 htouched
        exact triple_discard unsubscribeKeyed_closed
      | unsubscribeStorage key' =>
        cases List.mem_singleton.1 htouched
        exact triple_discard unsubscribeKeyed_closed
      | _ => first | exact absurd htouched hopens | simp [Operation.touched] at htouched
    exact step_of_triple hpreserves (fun _ _ h => h) hclosed hstep
  · rw [step_untouched (by simp) htouched hstep]
    exact hclosed

theorem run_closed {es : List Event} (hopens : ∀ e ∈ es, .keyed kind key ∉ opens e.op)
    (hrun : run (step lib) w es = some w')
    (hclosed : subscription w.api (.keyed kind key) = none) :
    subscription w'.api (.keyed kind key) = none := by
  induction es generalizing w with
  | nil =>
    cases hrun
    exact hclosed
  | cons e es ih =>
    obtain ⟨t, ht, hrest⟩ := run_cons.1 hrun
    have hhead := step_closed (hopens e List.mem_cons_self) ht hclosed
    exact ih (fun e' he' => hopens e' (List.mem_cons_of_mem e he')) hrest hhead

/-- What a call for a key leaves when it throws: no entry if the storage key could not be
computed, else the entry with the id 0. -/
theorem subscribeKeyed_thrown {storageKey : Api → Result Str} {callback : Callback}
    {exception : Exception}
    (hkey : ∀ api, storageKey (setCallback (.keyed kind key) callback api) = storageKey api)
    (h : (subscribeKeyed kind storageKey key callback).run w = .error (.thrown exception) w') :
    (subscription w'.api (.keyed kind key) = none ∧
        unopenedKey w.api (.keyed kind key) storageKey = []) ∨
      (subscription w'.api (.keyed kind key) = some 0 ∧
        unopenedKey w.api (.keyed kind key) storageKey = [.keyed kind key]) := by
  obtain ⟨hclosed, hleft⟩ := subscribeKeyed_left hkey h
  have hids : ∀ api : Api, Left api w w' →
      subscription w'.api (.keyed kind key) = subscription api (.keyed kind key) := by
    intro api hleft
    rw [subscription, subscription, hleft.keyed]
  rw [unopenedKey_of_closed hclosed]
  rcases hleft with ⟨hok, hleft⟩ | ⟨hok, hleft⟩
  · left
    rw [hok, hids _ hleft, subscription_setCallback]
    exact ⟨hclosed, rfl⟩
  · right
    rw [hok, hids _ hleft]
    exact ⟨subscription_entry, rfl⟩

theorem thrown_entry {exception : Exception} (htarget : target e.op = some (.keyed kind key))
    (h : (perform lib e.op).run (meets w e) = .error (.thrown exception) w') :
    (subscription w'.api (.keyed kind key) = none ∧ requests lib w.api e.op = []) ∨
      (subscription w'.api (.keyed kind key) = some 0 ∧
        requests lib w.api e.op = [.keyed kind key]) := by
  have hw : (meets w e).api = w.api := rfl
  rw [← hw]
  generalize e.op = op at htarget h
  cases op with
  | subscribeBalance address tag =>
    cases htarget
    exact subscribeKeyed_thrown (fun _ => rfl) (discard_eq_error h)
  | subscribeAccountNonce address tag =>
    cases htarget
    exact subscribeKeyed_thrown (fun _ => rfl) (discard_eq_error h)
  | subscribeStorage key' tag =>
    cases htarget
    exact subscribeKeyed_thrown (fun _ => rfl) (discard_eq_error h)
  | _ => cases htarget

theorem resubscribe_silent (htarget : target e.op = some (.keyed kind key))
    (hopen : subscription w.api (.keyed kind key) ≠ none) :
    ∃ w', (perform lib e.op).run (meets w e) = .ok () w' ∧ ¬ Sends (.keyed kind key) w w' := by
  have hreturns : Triple (fun u => True ∧ subscription u.api (.keyed kind key) ≠ none)
      (perform lib e.op) (fun _ _ => True) fun _ _ => False := by
    have hopened : ∀ storageKey callback,
        Triple (fun u => True ∧ subscription u.api (.keyed kind key) ≠ none)
          (ObjectRuns.discard (subscribeKeyed kind storageKey key callback)) (fun _ _ => True)
          fun _ _ => False := by
      intro storageKey callback
      apply triple_discard
      exact (subscribeKeyed_open_triple (I := fun _ => True) fun _ h => h).post
        (fun _ _ _ => trivial) fun _ _ h => h
    generalize e.op = op at htarget
    cases op with
    | subscribeBalance address tag =>
      cases htarget
      exact hopened _ _
    | subscribeAccountNonce address tag =>
      cases htarget
      exact hopened _ _
    | subscribeStorage key' tag =>
      cases htarget
      exact hopened _ _
    | _ => cases htarget
  have hresult := hreturns (meets w e) ⟨trivial, hopen⟩
  cases hrun : (perform lib e.op).run (meets w e) with
  | ok done w' =>
    refine ⟨w', rfl, ?_⟩
    have hbefore := before_meets (e := e) (Option.isSome_iff_ne_none.2 hopen)
    rw [((perform_asked htarget).of_ok hbefore hrun).sends_iff]
    simp
  | error halt w' =>
    rw [hrun] at hresult
    exact hresult.elim

theorem requests_key {topic : Topic} (htarget : target e.op = some topic)
    (hkey : (requests lib w.api e.op).any isKey) : ∃ kind key, topic = .keyed kind key := by
  cases topic with
  | keyed kind key => exact ⟨kind, key, rfl⟩
  | slot kind =>
    exfalso
    generalize e.op = op at htarget hkey
    cases op with
    | subscribeBlockNumber | subscribeFinalizedBlock | subscribeRuntimeVersion
    | subscribeEraAndSession =>
      simp only [requests, unopened] at hkey
      split_ifs at hkey <;> simp [isKey] at hkey
    | _ => cases htarget

/-- Where failed calls can be repeated, no request for a key is refused. -/
theorem granted_of_retries {before rest : List Event} {w₀ : World}
    (hretries : Retries lib w₀ (before ++ e :: rest))
    (hbefore : run (step lib) w₀ before = some w) (hstep : step lib w e = some w')
    (hkey : (requests lib w.api e.op).any isKey) :
    (grantedIds (requests lib w.api e.op).length e.answers).isSome := by
  cases htarget : target e.op with
  | none =>
    rw [requests_of_target_none htarget] at hkey
    cases hkey
  | some topic =>
    obtain ⟨kind, key, rfl⟩ := requests_key htarget hkey
    have hasks : Asks _ (perform lib e.op) := asks_perform htarget
    have hcopy := hstep
    unfold step at hstep
    cases hrun : (perform lib e.op).run (meets w e) with
    | ok done w₁ =>
      obtain ⟨ids, hasked⟩ := hasks.returned _ _ _ hrun
      exact Option.isSome_iff_exists.2 ⟨ids, hasked.given⟩
    | error halt w₁ =>
      rw [hrun] at hstep
      cases halt with
      | thrown exception =>
        cases hstep
        rcases thrown_entry htarget hrun with ⟨-, hnone⟩ | ⟨hentry, -⟩
        · rw [hnone] at hkey
          cases hkey
        · have hopen : subscription w'.api (.keyed kind key) ≠ none := by simp [hentry]
          have hsilent : ∃ w₂, (perform lib e.op).run (meets w' e) = .ok () w₂ ∧
              ¬ Sends (.keyed kind key) w' w₂ := resubscribe_silent htarget hopen
          obtain ⟨w₂, hagain, hnothing⟩ := hsilent
          exact absurd (hretries before e rest kind key w w' rfl htarget hbefore
            (Or.inl ⟨exception, w', hrun⟩) hcopy [] e w' w₂ (by simp) htarget rfl hagain) hnothing
      | undefined => cases hstep
      | terminated => cases hstep
      | waits => cases hstep

theorem retries_of_granted {es : List Event} (h : Along (step lib) (Granted lib) w es)
    (hnever : Along (step lib) (NeverZero lib) w es) : Retries lib w es := by
  rintro before e rest kind key w₁ w₂ rfl htarget hbefore hfailed hstep between e' w₃ w₄ hopens
    htarget' hbetween hcall
  have hgranted : Granted lib w₁ e := (h.of_append hbefore).1
  have hnonzero : NeverZero lib w₁ e := (hnever.of_append hbefore).1
  have hclosed : subscription w₂.api (.keyed kind key) = none := by
    rcases hfailed with ⟨exception, w', hrun⟩ | ⟨w', q, hrun, hmem⟩
    · unfold step at hstep
      rw [hrun] at hstep
      cases hstep
      rcases thrown_entry htarget hrun with ⟨hnone, -⟩ | ⟨-, hrequests⟩
      · exact hnone
      · have hasks : Asks (fun w => (requests lib w.api e.op).length) (perform lib e.op) :=
          asks_perform htarget
        have hsome := hgranted.2 (by rw [hrequests]; rfl)
        obtain ⟨ids, hids⟩ := Option.isSome_iff_exists.1 hsome
        cases hasks.thrown _ _ _ hrun ids hids
        rw [hrequests] at hids
        change grantedIds 1 (meets w₁ e).answers = some [] at hids
        rw [grantedIds_one] at hids
        cases hreply : (meets w₁ e).answer.reply with
        | ok json =>
          rw [hreply] at hids
          cases hids
        | error exception =>
          rw [hreply] at hids
          cases hids
    · exact absurd (mem_subscribedIds.2 ⟨_, q, hmem⟩) (hnonzero _ w' htarget hrun)
  have hlater := run_closed hopens hbetween hclosed
  have hbefore' := before_meets (e := e') (show (subscription w₃.api (.keyed kind key)).isSome =
    false by rw [hlater]; rfl)
  exact ((perform_asked htarget').of_ok hbefore' hcall).sends_iff.2 rfl

end Retries

/-- In a run that goes through, failed subscribe calls can be repeated and no id 0 is
recorded exactly when no subscribe call is answered with an id 0 and no request for a key
is refused. -/
theorem subscribe_retried_iff (lib : Libraries) (w w' : World) (es : List Event)
    (hrun : run (step lib) w es = some w') :
    Retries lib w es ∧ Along (step lib) (NeverZero lib) w es ↔
      Along (step lib) (Granted lib) w es := by
  have hsteps := along_congr (P := NeverZero lib) (Q := NonzeroIds lib)
    (fun _ _ _ hstep => neverZero_iff_nonzeroIds hstep) hrun
  constructor
  · rintro ⟨hretries, hnever⟩
    apply along_of_splits hrun
    rintro before e rest u v rfl hbefore hstep
    refine ⟨((hsteps.1 hnever).of_append hbefore).1, ?_⟩
    exact granted_of_retries hretries hbefore hstep
  · intro hgranted
    have hnever : Along (step lib) (NeverZero lib) w es := by
      apply hsteps.2
      apply along_of_splits hrun
      rintro before e rest u v rfl hbefore -
      exact (hgranted.of_append hbefore).1.1
    exact ⟨retries_of_granted hgranted hnever, hnever⟩

section Samples

def storageEvent (answers : List Answer) : Event where
  op := .subscribeStorage (lit "0x12") 1
  answers

def refusedThenGranted : List Event :=
  [⟨.subscribeFinalizedBlock 1, [notConnected], []⟩, ⟨.subscribeFinalizedBlock 1, [answered 6], []⟩,
    storageEvent [answered 7]]

def refusedKey : List Event := [storageEvent [notConnected], storageEvent [answered 7]]

def timedOutThenGranted : List Event := [storageEvent [], storageEvent [answered 7]]

end Samples

theorem subscribe_retried_iff_refused :
    run (step sampleLibraries) (start connectedApi) refusedThenGranted =
        some (after (start connectedApi) refusedThenGranted) ∧
      Retries sampleLibraries (start connectedApi) refusedThenGranted ∧
      Along (step sampleLibraries) (NeverZero sampleLibraries) (start connectedApi)
        refusedThenGranted := by
  have hrun := run_after (start connectedApi) refusedThenGranted (by decide +kernel)
  exact ⟨hrun, (subscribe_retried_iff _ _ _ _ hrun).2 (by decide +kernel)⟩

theorem retry_silent {es : List Event} {e : Event} {w₁ : World}
    (hop : e.op = .subscribeStorage (lit "0x12") 1)
    (hfailed : Failed sampleLibraries (.keyed .storage (lit "0x12")) (start connectedApi) e)
    (hstep : step sampleLibraries (start connectedApi) e = some w₁)
    (hentry : subscription w₁.api (.keyed .storage (lit "0x12")) ≠ none) :
    ¬ Retries sampleLibraries (start connectedApi) (e :: es) := by
  intro hretries
  have htarget : target e.op = some (.keyed .storage (lit "0x12")) := by rw [hop]; rfl
  obtain ⟨w₂, hagain, hnothing⟩ := resubscribe_silent htarget hentry
  exact hnothing (hretries [] e es .storage (lit "0x12") _ w₁ rfl htarget rfl hfailed hstep [] e w₁
    w₂ (by simp) htarget rfl hagain)

/-- After a timeout the call returns with the id 0 recorded, and the next call for the
key sends nothing; neither does it after an exception. -/
theorem subscribe_retried_fails :
    (¬ ∀ lib w w' es, run (step lib) w es = some w' → Retries lib w es) ∧
      (¬ ∀ lib w w' es, run (step lib) w es = some w' →
        Along (step lib) (NeverZero lib) w es) ∧
      ¬ Retries sampleLibraries (start connectedApi) refusedKey := by
  have hrun := run_after (start connectedApi) timedOutThenGranted (by decide +kernel)
  have hfirst : result (perform sampleLibraries (storageEvent []).op)
      (meets (start connectedApi) (storageEvent [])) = some () := by decide +kernel
  have hzero : .subscribed (.keyed .storage (lit "0x12"))
      (query "state_subscribeStorage" (storageParams [lit "0x12"])) 0 ∈
        (final (perform sampleLibraries (storageEvent []).op)
          (meets (start connectedApi) (storageEvent []))).log.drop (start connectedApi).log.length := by
    decide +kernel
  have hstep : ∀ e : Event, (run (step sampleLibraries) (start connectedApi) [e]).isSome →
      step sampleLibraries (start connectedApi) e = some (after (start connectedApi) [e]) := by
    intro e hsome
    obtain ⟨w₁, hw₁, hnil⟩ := run_cons.1 (run_after _ _ hsome)
    cases hnil
    exact hw₁
  refine ⟨?_, ?_, ?_⟩
  · intro hall
    apply retry_silent rfl (Or.inr ⟨_, _, run_of_result hfirst, hzero⟩)
      (hstep (storageEvent []) (by decide +kernel)) (by decide +kernel)
    exact hall _ _ _ _ hrun
  · intro hall
    have hnever := (hall _ _ _ _ hrun).1 (.keyed .storage (lit "0x12")) _ rfl (run_of_result hfirst)
    exact hnever (mem_subscribedIds.2 ⟨_, _, hzero⟩)
  · have hthrow := run_of_failure (x := perform sampleLibraries (storageEvent [notConnected]).op)
      (s := meets (start connectedApi) (storageEvent [notConnected]))
      (e := .thrown (.jsonRpc (lit "Not connected"))) (by decide +kernel)
    exact retry_silent rfl (Or.inl ⟨_, _, hthrow⟩)
      (hstep (storageEvent [notConnected]) (by decide +kernel)) (by decide +kernel)

end PolkadotApi.SubscriptionRetries

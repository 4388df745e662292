import PolkadotApi.CallbackDeliveryLate

set_option autoImplicit false

namespace PolkadotApi.CallbackDelivery
open StatefulActions MachineModel JsonValues ExtrinsicSubmission StorageKeys Notifications
open Subscriptions SubscriptionFrames CallSpecifications Connection ObjectRuns StepRuns
open SubscriptionLedger AddressRoundTrip

section Known

variable {lib : Libraries} {w w' : World} {e : Event} {id : ℤ}

/-- The object holds, and has reacted to, no id that the node has not given. -/
structure Known (w : World) : Prop where
  held : ∀ topic id, subscription w.api topic = some id → id = 0 ∨ id ∈ subscribedIds w.log
  invoked : ∀ id callback p, .invoked id callback p ∈ w.log → id = 0 ∨ id ∈ subscribedIds w.log

theorem Known.of_append {l : List Entry} (h : Known w) (hlog : w'.log = w.log ++ l)
    (hl : ∀ id callback p, .invoked id callback p ∉ l)
    (hheld : ∀ topic id, subscription w'.api topic = some id →
      subscription w.api topic = some id ∨ id ∈ subscribedIds l) : Known w' := by
  constructor
  · intro topic id hid
    rw [hlog, subscribedIds_append, List.mem_append]
    rcases hheld topic id hid with hid | hid
    · rcases h.held topic id hid with hzero | hmem
      · exact Or.inl hzero
      · exact Or.inr (Or.inl hmem)
    · exact Or.inr (Or.inr hid)
  · intro id callback p hmem
    rw [hlog] at hmem
    rw [hlog, subscribedIds_append, List.mem_append]
    rcases List.mem_append.1 hmem with hmem | hmem
    · rcases h.invoked id callback p hmem with hzero | hmem
      · exact Or.inl hzero
      · exact Or.inr (Or.inl hmem)
    · exact absurd hmem (hl id callback p)

theorem known_quiet : Quiet Known := by
  refine ⟨fun w h => ⟨h.held, h.invoked⟩, ?_⟩
  intro w w' id message h hhandle
  have hmono : ∀ id', id' ∈ subscribedIds w.log → id' ∈ subscribedIds w'.log := by
    intro id' hid'
    obtain ⟨l, hlog, -⟩ := handleWsMessage_appends hhandle
    rw [hlog, subscribedIds_append]
    exact List.mem_append_left _ hid'
  constructor
  · intro topic id' hid'
    exact (h.held topic id' ((handleWsMessage_handled hhandle).subscription_of_some hid')).imp_right (hmono id')
  · intro id' callback p hmem
    rcases handleWsMessage_log hhandle with hlog | ⟨topic, f, q, hroute, -, -, hlog⟩
    · rw [hlog] at hmem
      rcases List.mem_append.1 hmem with hmem | hmem
      · exact (h.invoked id' callback p hmem).imp_right (hmono id')
      · cases List.mem_singleton.1 hmem
    · rw [hlog] at hmem
      rcases List.mem_append.1 hmem with hmem | hmem
      · exact (h.invoked id' callback p hmem).imp_right (hmono id')
      · have hid' : id' = id := by
          rcases List.mem_cons.1 hmem with hmem | hmem
          · cases hmem
          · cases List.mem_singleton.1 hmem
            rfl
        subst hid'
        by_cases hzero : id' = 0
        · exact Or.inl hzero
        · exact (h.held topic id' ((route_holds hroute).subscription hzero)).imp_right (hmono id')

theorem known_ignores (topic : Topic) : Ignores Known topic := by
  have hrelease : ∀ (api : Api) (t : Topic) (id : ℤ), subscription (release topic api) t = some id →
      subscription api t = some id := by
    intro api t id hid
    by_cases ht : t = topic
    · subst ht
      rw [subscription_release_self] at hid
      cases hid
    · exact (release_view_of_ne ht).1.symm.trans hid
  refine ⟨⟨?_, ?_, ?_, ?_⟩, ?_⟩
  · intro w h _
    refine ⟨?_, h.invoked⟩
    intro t id hid
    by_cases ht : t = topic
    · subst ht
      left
      cases t with
      | slot kind => simp [setSubscription, subscription, Api.setId] at hid
      | keyed kind key => exact (Option.some.inj (subscription_entry.symm.trans hid)).symm
    · exact h.held t id ((setSubscription_view_of_ne ht).1.symm.trans hid)
  · intro w q id h
    apply h.of_append rfl (by simp)
    intro t id' hid'
    rw [update_api] at hid'
    by_cases ht : t = topic
    · subst ht
      right
      have hself := (holds_of_subscription hid')
      cases t with
      | slot kind =>
        have heq : id = id' := by simpa [Holds, setSubscription, Api.setId] using hself
        simp [subscribedIds, heq]
      | keyed kind key =>
        have heq : id = id' := by simpa [Holds, setSubscription, Api.setKeyId] using hself
        simp [subscribedIds, heq]
    · exact Or.inl ((setSubscription_view_of_ne ht).1.symm.trans hid')
  · intro w id method h _ _
    exact h.of_append rfl (by simp) fun t id' hid' => Or.inl (hrelease _ t id' hid')
  · intro w h _
    exact h.of_append (List.append_nil _).symm (by simp) fun t id' hid' => Or.inl (hrelease _ t id' hid')
  · intro w callback h
    refine ⟨?_, h.invoked⟩
    intro t id hid
    rw [update_api, subscription_setCallback] at hid
    exact h.held t id hid

theorem step_known (h : Known w) (hstep : step lib w e = some w') : Known w' := by
  have hparameters : IgnoresParameters Known := by
    intro w api _ hslot hkeyed h
    refine ⟨?_, h.invoked⟩
    intro topic id hid
    exact h.held topic id ((subscription_congr hslot hkeyed).symm.trans hid)
  have hrequested : ∀ w q, Known w → Known (w.record (.requested q)) :=
    fun w q h => h.of_append rfl (by simp) fun _ _ hid => Or.inl hid
  have hpreserves := perform_preserves lib e.op known_quiet
    (fun _ _ _ _ _ h => ⟨h.held, h.invoked⟩) hparameters hrequested fun topic _ => known_ignores topic
  exact step_of_triple hpreserves (fun _ _ h => h) ⟨h.held, h.invoked⟩ hstep

theorem known_start {api : Api} (h : ∀ topic, subscription api topic = none) :
    Known (start api) := by
  constructor
  · intro topic id hid
    cases (h topic).symm.trans hid
  · intro id callback p hmem
    cases hmem

theorem known_of_run {api : Api} {es : List Event} (hclosed : ∀ topic, subscription api topic = none)
    (hrun : run (step lib) (start api) es = some w) : Known w := by
  apply run_invariant ?_ (known_start hclosed) (along_of_forall fun _ _ => trivial) hrun
  intro s e t h _ hs
  exact step_known h hs

end Known

section Opening

inductive SubscribeCall where
  | blockNumber
  | finalizedBlock
  | runtimeVersion
  | balance (address : Str)
  | accountNonce (address : Str)
  | storage (key : Str)
  | transfer (t : TransferRequest)

namespace SubscribeCall

def topic : SubscribeCall → Topic
  | blockNumber => .slot .blockNumber
  | finalizedBlock => .slot .finalizedBlock
  | runtimeVersion => .slot .runtimeVersion
  | balance address => .keyed .balance address
  | accountNonce address => .keyed .accountNonce address
  | storage key => .keyed .storage key
  | transfer _ => .slot .transactionCompletion

def perform (lib : Libraries) (callback : Callback) : SubscribeCall → Action Unit
  | blockNumber => ObjectRuns.discard (subscribeBlockNumber callback)
  | finalizedBlock => ObjectRuns.discard (subscribeFinalizedBlock callback)
  | runtimeVersion => ObjectRuns.discard (subscribeRuntimeVersion callback)
  | balance address => ObjectRuns.discard (subscribeBalance lib address callback)
  | accountNonce address => ObjectRuns.discard (subscribeAccountNonce lib address callback)
  | storage key => ObjectRuns.discard (subscribeStorage key callback)
  | transfer t => signAndSendTransfer lib t callback

end SubscribeCall

variable {lib : Libraries} {log : List Entry} {w w' : World} {topic : Topic} {callback : Callback}

structure Base (log : List Entry) (w : World) : Prop where
  accounted : Accounted (fun _ => True) w
  known : Known w
  grown : log <+: w.log

theorem base_quiet : Quiet (Base log) := by
  constructor
  · intro w h
    exact ⟨accounted_quiet.popped w h.accounted, known_quiet.popped w h.known, h.grown⟩
  · intro w w' id message h hhandle
    obtain ⟨l, hlog, -⟩ := handleWsMessage_appends hhandle
    refine ⟨accounted_quiet.handle w w' id message h.accounted hhandle,
      known_quiet.handle w w' id message h.known hhandle, ?_⟩
    rw [hlog]
    exact h.grown.trans (List.prefix_append _ _)

theorem base_ignores (topic : Topic) : Ignores (Base log) topic := by
  have haccounted : Ignores (Accounted fun _ => True) topic := accounted_ignores trivial
  have hknown := known_ignores topic
  have hgrown : ∀ (w : World) (e : Entry), log <+: w.log → log <+: w.log ++ [e] :=
    fun w e h => h.trans (List.prefix_append _ _)
  refine ⟨⟨?_, ?_, ?_, ?_⟩, ?_⟩
  · intro w h hid
    exact ⟨haccounted.entry w h.accounted hid, hknown.entry w h.known hid, h.grown⟩
  · intro w q id h
    exact ⟨haccounted.opened w q id h.accounted, hknown.opened w q id h.known, hgrown w _ h.grown⟩
  · intro w id method h hne hid
    exact ⟨haccounted.released w id method h.accounted hne hid,
      hknown.released w id method h.known hne hid, hgrown w _ h.grown⟩
  · intro w h hid
    exact ⟨haccounted.dropped w h.accounted hid, hknown.dropped w h.known hid, h.grown⟩
  · intro w callback h
    exact ⟨haccounted.callback w callback h.accounted, hknown.callback w callback h.known, h.grown⟩

theorem base_locals : IgnoresLocals (Base log) := by
  intro w frames running nonce incoming h
  exact ⟨accounted_locals w frames running nonce incoming h.accounted,
    ⟨h.known.held, h.known.invoked⟩, h.grown⟩

/-- The id comes back into a state in which the function was waiting for it. -/
def Answers (log : List Entry) (topic : Topic) (callback : Callback) (w' : World) : Prop :=
  ∃ w q id, Base log w ∧ Awaiting topic callback w ∧
    w' = (w.record (.subscribed topic q id)).update (setSubscription topic id)

theorem answers_of_answered
    (h : Answered (fun w => Base log w ∧ Awaiting topic callback w) topic w) :
    Answers log topic callback w := by
  obtain ⟨w₀, q, json, h, -, -, rfl⟩ := h
  exact ⟨w₀, q, json.intValue, h.1, h.2, rfl⟩

theorem subscribeSlot_answers {kind : SlotKind} {q : Api → Json} :
    Triple (fun w => Base log w ∧ subscription w.api (.slot kind) = none)
      (subscribeSlot kind q callback) (fun _ => Answers log (.slot kind) callback)
      fun _ _ => True := by
  have hquiet : Quiet fun w => Base log w ∧ Awaiting (.slot kind) callback w :=
    base_quiet.and (awaiting_quiet _ callback)
  apply (subscribeSlot_triple hquiet ?_).post
  · intro _ w h
    rcases h with ⟨⟨-, h⟩, hopen⟩ | h
    · exact absurd (slot_closed_iff.1 h.unanswered) hopen
    · exact answers_of_answered h
  · intro _ w _
    trivial
  · intro w h
    exact ⟨(base_ignores _).callback w callback h.1, awaiting_setCallback h.2⟩

theorem subscribeKeyed_answers {kind : KeyedKind} {key : Str} {storageKey : Api → Result Str} :
    Triple (fun w => Base log w ∧ subscription w.api (.keyed kind key) = none)
      (subscribeKeyed kind storageKey key callback) (fun _ => Answers log (.keyed kind key) callback)
      fun _ _ => True := by
  have hentry : IgnoresEntry (fun w => Base log w ∧ Awaiting (.keyed kind key) callback w)
      (.keyed kind key) :=
    fun w h hnone => ⟨(base_ignores _).entry w h.1 hnone, awaiting_entry kind key w h.2 hnone⟩
  have hquiet : Quiet fun w => Base log w ∧ Awaiting (.keyed kind key) callback w :=
    base_quiet.and (awaiting_quiet _ callback)
  apply ((subscribeKeyed_new_triple hquiet hentry
    (P := fun w => Base log w ∧ subscription w.api (.keyed kind key) = none) ?_).post ?_ ?_).pre
  · intro w h
    exact ⟨h, h.2⟩
  · intro w h
    exact ⟨(base_ignores _).callback w callback h.1, awaiting_setCallback h.2⟩
  · intro _ w h
    exact answers_of_answered h
  · intro _ w _
    trivial

theorem signAndSendTransfer_answers {t : TransferRequest} :
    Triple (fun w => Base log w ∧ subscription w.api transfer = none)
      (signAndSendTransfer lib t callback) (fun _ => Answers log transfer callback)
      fun _ _ => True := by
  have hclosed : Ignores (fun w => subscription w.api transfer = none)
      (.keyed .accountNonce t.sender) :=
    ignores_of_ne (F := fun id _ => id = none) (by simp)
  have hbase : Ignores (Base log) (.keyed .accountNonce t.sender) := base_ignores _
  have hignores : Ignores (fun w => Base log w ∧ subscription w.api transfer = none)
      (.keyed .accountNonce t.sender) :=
    ⟨hbase.toKeeps.and hclosed.toKeeps,
      fun w f h => ⟨hbase.callback w f h.1, hclosed.callback w f h.2⟩⟩
  have hlocals : IgnoresLocals fun w => Base log w ∧ subscription w.api transfer = none :=
    fun w frames running nonce incoming h => ⟨base_locals w frames running nonce incoming h.1, h.2⟩
  apply Triple.bind (Q := fun _ w => Base log w ∧ subscription w.api transfer = none)
  · apply (preserves_makeSubmission (base_quiet.and (quiet_closed transfer)) hlocals hignores).post
    · intro _ w h
      exact h
    · intro _ w _
      trivial
  intro submission
  apply (watchExtrinsic_triple (base_quiet.and (awaiting_quiet transfer callback)) ?_).post
  · intro _ w' h
    obtain ⟨w, q, json, h, -, rfl⟩ := h
    exact ⟨w, q, json.intValue, h.1, h.2, rfl⟩
  · intro _ w _
    trivial
  · intro w h
    exact ⟨(base_ignores _).callback w callback h.1, awaiting_setCallback h.2⟩

theorem perform_answers (s : SubscribeCall) :
    Triple (fun w => Base log w ∧ subscription w.api s.topic = none) (s.perform lib callback)
      (fun _ => Answers log s.topic callback) fun _ _ => True := by
  cases s with
  | blockNumber | finalizedBlock | runtimeVersion => exact triple_discard subscribeSlot_answers
  | balance | accountNonce | storage => exact triple_discard subscribeKeyed_answers
  | transfer t => exact signAndSendTransfer_answers

theorem topic_ne_era (s : SubscribeCall) : s.topic ≠ .slot .eraAndSession := by
  cases s <;> simp [SubscribeCall.topic]

end Opening

/-- In a run without uninitialised members, every notification of a new subscription
reaches its function exactly when none is handled before the call has stored the id
and, for a transfer, when they are statuses to report. -/
theorem notifications_delivered_iff (lib : Libraries) (api : Api)
    (hclosed : ∀ topic, subscription api topic = none) (es : List Event) (w : World)
    (hrun : run (step lib) (start api) es = some w) (s : SubscribeCall) (callback : Callback)
    (answers : List Answer) (incoming : List (ℤ × Json)) (w₁ : World)
    (hnew : subscription w.api s.topic = none)
    (hcall : (s.perform lib callback).run { w with answers := answers, incoming := incoming } =
      .ok () w₁)
    (hfresh : Fresh w₁.log) (haddressed : ∀ e ∈ w₁.log, Addressed e) (id : ℤ)
    (hid : subscription w₁.api s.topic = some id) (late : List (ℤ × Json)) (w₂ : World)
    (hlate : handleAll w₁ late = .ok w₂) :
    Delivered id callback (w₂.log.drop w.log.length) ↔
      notices id (w₁.log.drop w.log.length) = [] ∧
        (s.topic = transfer → Reported (messages id late)) := by
  have haccounted : Accounted (fun _ => True) w :=
    accounted_of_run (fun topic _ => hclosed topic) (fun _ _ _ _ => trivial) hrun
  have hknown : Known w := known_of_run hclosed hrun
  have hbase : Base w.log { w with answers := answers, incoming := incoming } :=
    ⟨fun hf => (haccounted hf).of_log_eq rfl fun _ => rfl, ⟨hknown.held, hknown.invoked⟩,
      List.prefix_rfl⟩
  obtain ⟨u, q, id', hu, hawaiting, rfl⟩ := (perform_answers s).of_ok ⟨hbase, hnew⟩ hcall
  have hfresh : Fresh (u.log ++ [Entry.subscribed s.topic q id']) := hfresh
  have hsame : id' = id := by
    rw [update_api, subscription_setSubscription_self hfresh.ne_zero] at hid
    exact Option.some.inj hid
  subst hsame
  have hignores : Ignores (Accounted fun _ => True) s.topic := accounted_ignores trivial
  have hwatching : Watching s.topic id' callback
      ((u.record (.subscribed s.topic q id')).update (setSubscription s.topic id')) := by
    refine ⟨hignores.opened u q id' hu.accounted hfresh, hfresh, hfresh.ne_zero, hid, ?_⟩
    rw [update_api, subscriber_setSubscription]
    exact hawaiting.subscriber fun e he => haddressed e (List.mem_append_left _ he)
  obtain ⟨l, hlog, hheard, hiff⟩ := hwatching.late (topic_ne_era s) hlate
  obtain ⟨l₀, hl₀⟩ := hu.grown
  have hcalls₀ : calls id' l₀ = [] := by
    apply calls_eq_nil
    intro f p hmem
    have hinvoked : .invoked id' f p ∈ u.log := by
      rw [← hl₀]
      exact List.mem_append_right _ hmem
    rcases hu.known.invoked id' f p hinvoked with hzero | hgiven
    · exact hfresh.ne_zero hzero
    · exact hfresh.notMem hgiven
  have hearly : ((u.record (.subscribed s.topic q id')).update
      (setSubscription s.topic id')).log.drop w.log.length = l₀ ++ [.subscribed s.topic q id'] := by
    rw [update_log, record_log, ← hl₀, List.append_assoc, List.drop_left]
  have hall : w₂.log.drop w.log.length = l₀ ++ (.subscribed s.topic q id' :: l) := by
    rw [hlog, update_log, record_log, ← hl₀, List.append_assoc, List.append_assoc, List.drop_left]
    rfl
  have hnotices : notices id' (l₀ ++ [Entry.subscribed s.topic q id']) = notices id' l₀ := by
    rw [notices_append]
    exact List.append_nil _
  have hcalls : calls id' (l₀ ++ (.subscribed s.topic q id' :: l)) = calls id' l := by
    rw [calls_append, hcalls₀]
    rfl
  rw [hall, hearly, hnotices, delivered_iff (by rw [hcalls]; exact hheard.callback_eq), hcalls,
    notices_append, List.length_append, ← hiff]
  change (notices id' l₀).length + (notices id' l).length = _ ↔ _
  rw [hheard.notices_eq, ← List.length_eq_zero_iff]
  have hle := hheard.length_le
  omega

def hearing (w : World) (late : List (ℤ × Json)) : World :=
  match handleAll w late with
  | .ok w' => w'
  | .error _ => w

theorem handleAll_hearing (w : World) (late : List (ℤ × Json)) (h : (handleAll w late).isOk) :
    handleAll w late = .ok (hearing w late) := by
  unfold hearing
  cases hw : handleAll w late with
  | ok w' => rfl
  | error halt =>
    rw [hw] at h
    cases h

theorem connectedApi_closed (topic : Topic) : subscription connectedApi topic = none := by
  cases topic with
  | slot kind => cases kind <;> rfl
  | keyed kind key => exact Std.ExtTreeMap.getElem?_empty

def watchKey : SubscribeCall := .storage (lit "0x01")

/-- The node answers with the id 7 after it has handled `early` notifications. -/
def askedFor (early : List (ℤ × Json)) : World :=
  final (watchKey.perform sampleLibraries (.client 1))
    { start connectedApi with answers := [⟨.ok (.number 7), early⟩], incoming := [] }

theorem run_askedFor (early : List (ℤ × Json))
    (h : result (watchKey.perform sampleLibraries (.client 1))
      { start connectedApi with answers := [⟨.ok (.number 7), early⟩], incoming := [] } = some ()) :
    (watchKey.perform sampleLibraries (.client 1)).run
      { start connectedApi with answers := [⟨.ok (.number 7), early⟩], incoming := [] } =
        .ok () (askedFor early) :=
  run_of_result h

theorem notifications_delivered_iff_late : Delivered 7 (.client 1)
    ((hearing (askedFor []) [(7, changed "0x02")]).log.drop (start connectedApi).log.length) := by
  have hcall := run_askedFor [] (by decide +kernel)
  have hlate := handleAll_hearing (askedFor []) [(7, changed "0x02")] (by decide +kernel)
  exact (notifications_delivered_iff sampleLibraries connectedApi connectedApi_closed [] _ rfl
    watchKey (.client 1) _ _ _ (by decide +kernel) hcall (by decide +kernel) (by decide +kernel) 7
    (by decide +kernel) _ _ hlate).2 ⟨by decide +kernel, fun htopic => by cases htopic⟩

/-- A notification that is handled before the id is stored is lost; when it is the
first nonce, `getAccountNonce` waits for ever. -/
theorem notifications_delivered_fails :
    (¬ ∀ lib api, (∀ topic, subscription api topic = none) → ∀ es w,
      run (step lib) (start api) es = some w → ∀ (s : SubscribeCall) callback answers incoming w₁,
      subscription w.api s.topic = none →
      (s.perform lib callback).run { w with answers := answers, incoming := incoming } = .ok () w₁ →
      Fresh w₁.log → (∀ e ∈ w₁.log, Addressed e) → ∀ id, subscription w₁.api s.topic = some id →
      ∀ late w₂, handleAll w₁ late = .ok w₂ →
      Delivered id callback (w₂.log.drop w.log.length)) ∧
    failure (getAccountNonce sampleLibraries knownAddress) { start connectedApi with
      answers := [⟨.ok (.number 8), [(8, changed "0x05")]⟩] } = some .waits := by
  refine ⟨?_, by decide +kernel⟩
  intro hall
  have hcall := run_askedFor [(7, changed "0x02")] (by decide +kernel)
  have hdelivered := hall sampleLibraries connectedApi connectedApi_closed [] _ rfl watchKey
    (.client 1) _ _ _ (by decide +kernel) hcall (by decide +kernel) (by decide +kernel) 7
    (by decide +kernel) [] _ rfl
  have hlength := hdelivered.length_eq
  have hlost : (notices 7 ((askedFor [(7, changed "0x02")]).log.drop
      (start connectedApi).log.length)).length ≠
      (calls 7 ((askedFor [(7, changed "0x02")]).log.drop (start connectedApi).log.length)).length := by
    decide +kernel
  exact hlost hlength

end PolkadotApi.CallbackDelivery

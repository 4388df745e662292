import PolkadotApi.CallSpecificationsQuiet

set_option autoImplicit false

namespace PolkadotApi.CallSpecifications
open StatefulActions MachineModel JsonValues ExtrinsicSubmission StorageKeys Subscriptions
open SubscriptionFrames

section Keeps

structure Keeps (I : World → Prop) (topic : Topic) : Prop where
  entry : IgnoresEntry I topic
  opened : ∀ w q id, I w →
    I ((w.record (.subscribed topic q id)).update (setSubscription topic id))
  released : ∀ w id method, I w → id ≠ 0 → subscription w.api topic = some id →
    I ((w.record (.unsubscribed id method)).update (release topic))
  dropped : ∀ w, I w → subscription w.api topic = some 0 → I (w.update (release topic))

def IgnoresLocals (I : World → Prop) : Prop :=
  ∀ w frames running nonce incoming, I w →
    I { w with frames := frames, running := running, nonce := nonce, incoming := incoming }

variable {lib : Libraries} {I P : World → Prop} {topic : Topic} {w : World} {address : Str}

theorem Keeps.and {J : World → Prop} (hI : Keeps I topic) (hJ : Keeps J topic) :
    Keeps (fun w => I w ∧ J w) topic :=
  ⟨fun w h hw => ⟨hI.entry w h.1 hw, hJ.entry w h.2 hw⟩,
    fun w q id h => ⟨hI.opened w q id h.1, hJ.opened w q id h.2⟩,
    fun w id method h hid hw =>
      ⟨hI.released w id method h.1 hid hw, hJ.released w id method h.2 hid hw⟩,
    fun w h hw => ⟨hI.dropped w h.1 hw, hJ.dropped w h.2 hw⟩⟩

theorem Keeps.of_opened (hk : Keeps I topic) (h : Opened I topic w) : I w := by
  rcases h with h | ⟨w₀, q, json, hw, -, -, rfl⟩
  · exact h.1
  · exact hk.opened w₀ q _ hw

theorem Keeps.of_released (hk : Keeps I topic) (h : Released I topic w) :
    I w ∧ subscription w.api topic = none := by
  rcases h with h | ⟨w₀, id, method, hw, hid, hopen, rfl⟩ | ⟨w₀, hw, hopen, rfl⟩
  · exact h
  · exact ⟨hk.released w₀ id method hw hid hopen, subscription_release_self⟩
  · exact ⟨hk.dropped w₀ hw hopen, subscription_release_self⟩

theorem awaitNonce_triple (hI : Quiet I) (hlocals : IgnoresLocals I) :
    Triple I awaitNonce (fun _ => I) fun halt w => I w ∧ ∀ e, halt ≠ .thrown e := by
  apply triple_get_bind
  intro w hw
  apply Triple.bind (Q := fun _ => I)
  · apply triple_modify
    rintro w' rfl
    exact hlocals w' w'.frames w'.running w'.nonce [] hw
  intro _
  apply (meanwhile_triple hI.handle w.incoming).bind
  intro _
  apply triple_get_bind
  intro w' hw'
  cases w'.nonce with
  | some nonce =>
    apply triple_pure
    rintro _ rfl
    exact hw'
  | none =>
    apply triple_throw
    rintro _ rfl
    exact ⟨hw', nofun⟩

abbrev nonceKey (lib : Libraries) (address : Str) : Api → Result Str :=
  addressKey lib "System AccountNonce" address

/-- However `getAccountNonce` ends, it has done no more than to set the subscriber
of its address and to open and close that subscription. -/
theorem getAccountNonce_triple (hI : Quiet I) (hlocals : IgnoresLocals I)
    (hk : Keeps I (.keyed .accountNonce address)) (hP : IgnoresLocals P)
    (hset : ∀ w frame, P w →
      I (w.update (setCallback (.keyed .accountNonce address) (.recordNonce frame)))) :
    Triple P (getAccountNonce lib address)
      (fun _ w => I w ∧ subscription w.api (.keyed .accountNonce address) = none)
      fun halt w => I w ∧
        KeyRefused I (.keyed .accountNonce address) (nonceKey lib address) halt := by
  apply Triple.bind (Q := fun _ => P)
  · intro w hw
    exact hP w (w.frames + 1) (some w.frames) none w.incoming hw
  intro frame
  have hleave : ∀ w, I w → I { w with running := none } :=
    fun w hw => hlocals w w.frames none w.nonce w.incoming hw
  apply Triple.bind
      (Q := fun _ w => I w ∧ subscription w.api (.keyed .accountNonce address) = none)
  · apply triple_tryCatch (M := fun halt w => I w ∧
      KeyRefused I (.keyed .accountNonce address) (nonceKey lib address) halt)
    · apply Triple.bind (Q := fun _ => I)
      · apply (subscribeKeyed_triple hI hk.entry (fun w => hset w frame)).post
        · intro _ w h
          exact hk.of_opened h
        · intro halt w h
          exact h
      intro _
      apply Triple.bind (Q := fun _ => I)
      · apply (awaitNonce_triple hI hlocals).post
        · intro _ w h
          exact h
        · intro halt w h
          exact ⟨h.1, fun e he => absurd he (h.2 e)⟩
      intro nonce
      apply Triple.bind
      · apply (unsubscribeKeyed_triple hI .accountNonce address).post
        · intro _ w h
          exact hk.of_released h
        · intro halt w h
          exact ⟨h.1, fun e he => Or.inl (h.2 e he)⟩
      · intro _
        exact triple_pure fun _ h => h
    · intro halt
      apply Triple.bind (Q := fun _ w => I w ∧
        KeyRefused I (.keyed .accountNonce address) (nonceKey lib address) halt)
      · exact triple_modify fun w hw => ⟨hleave w hw.1, hw.2⟩
      · intro _
        exact triple_throw fun _ h => h
  intro nonce
  apply Triple.bind (Q := fun _ w => I w ∧ subscription w.api (.keyed .accountNonce address) = none)
  · apply triple_modify
    rintro w ⟨hw, hclosed⟩
    exact ⟨hleave w hw, hclosed⟩
  · intro _
    exact triple_pure fun _ h => h

theorem protocolParameters_triple : Preserves I protocolParameters := by
  apply triple_get_bind
  intro w hw
  apply triple_liftResult
  · rintro prm w' - rfl
    exact hw
  · rintro halt w' - rfl
    exact hw

theorem makeSubmission_triple {build : ProtocolParameters → ℕ → Result Submission} (hI : Quiet I)
    (hlocals : IgnoresLocals I) (hk : Keeps I (.keyed .accountNonce address)) (hP : IgnoresLocals P)
    (hset : ∀ w frame, P w →
      I (w.update (setCallback (.keyed .accountNonce address) (.recordNonce frame)))) :
    Triple P (makeSubmission lib address build)
      (fun _ w => I w ∧ subscription w.api (.keyed .accountNonce address) = none) fun _ => I := by
  apply ((getAccountNonce_triple hI hlocals hk hP hset).post (fun _ _ h => h)
    fun _ _ h => h.1).bind
  intro nonce
  apply Triple.bind
      (Q := fun _ w => I w ∧ subscription w.api (.keyed .accountNonce address) = none)
  · apply protocolParameters_triple.post
    · intro prm w h
      exact h
    · intro halt w h
      exact h.1
  intro prm
  apply triple_liftResult
  · intro submission w _ h
    exact h
  · intro halt w _ h
    exact h.1

structure Ignores (I : World → Prop) (topic : Topic) : Prop extends Keeps I topic where
  callback : ∀ w callback, I w → I (w.update (setCallback topic callback))

theorem true_ignores (topic : Topic) : Ignores (fun _ => True) topic :=
  ⟨⟨fun _ _ _ => trivial, fun _ _ _ _ => trivial, fun _ _ _ _ _ _ => trivial,
    fun _ _ _ => trivial⟩, fun _ _ _ => trivial⟩

theorem ignores_of_ne {F : Option ℤ → Option Callback → Prop} {t : Topic} (h : t ≠ topic) :
    Ignores (fun w => F (subscription w.api t) (w.api.subscriber t)) topic := by
  have hview : ∀ api api' : Api,
      subscription api' t = subscription api t ∧ api'.subscriber t = api.subscriber t →
      F (subscription api t) (api.subscriber t) → F (subscription api' t) (api'.subscriber t) := by
    intro api api' hsame hF
    rw [hsame.1, hsame.2]
    exact hF
  refine ⟨⟨?_, ?_, ?_, ?_⟩, ?_⟩
  · intro w hw _
    exact hview w.api _ (setSubscription_view_of_ne h) hw
  · intro w q id
    exact hview w.api _ (setSubscription_view_of_ne h)
  · intro w id method hw _ _
    exact hview w.api _ (release_view_of_ne h) hw
  · intro w hw _
    exact hview w.api _ (release_view_of_ne h) hw
  · intro w callback
    exact hview w.api _ (setCallback_view_of_ne h)

variable {kind : SlotKind} {keyedKind : KeyedKind} {key : Str} {callback : Callback}

theorem preserves_openSlot {q : Api → Json} (hI : Quiet I) (h : Keeps I (.slot kind)) :
    Preserves I (openSlot kind q) :=
  (openSlot_triple hI kind q).post (fun _ _ => h.of_opened) fun _ _ hw => hw.1

theorem preserves_subscribeSlot {q : Api → Json} (hI : Quiet I) (h : Ignores I (.slot kind)) :
    Preserves I (subscribeSlot kind q callback) :=
  (subscribeSlot_triple hI fun w => h.callback w callback).post (fun _ _ => h.toKeeps.of_opened)
    fun _ _ hw => hw.1

theorem preserves_closeSlot {method : String} (hI : Quiet I) (hk : kind ≠ .transactionCompletion)
    (h : Keeps I (.slot kind)) : Preserves I (closeSlot kind method) :=
  (closeSlot_triple hI hk method).post (fun _ _ hw => (h.of_released hw).1) fun _ _ hw => hw.1

theorem preserves_unsubscribeSlot {method : String} (hI : Quiet I)
    (hk : kind ≠ .transactionCompletion) (h : Keeps I (.slot kind)) :
    Preserves I (unsubscribeSlot kind method) :=
  (unsubscribeSlot_triple hI hk method).post (fun _ _ hw => (h.of_released hw).1) fun _ _ hw => hw.1

theorem preserves_subscribeEraAndSession (hI : Quiet I) (hera : Ignores I (.slot .eraAndSession))
    (hblock : Ignores I (.slot .blockNumber)) : Preserves I (subscribeEraAndSession callback) := by
  apply Triple.bind (Q := fun _ => I)
  · exact triple_modify fun w => hera.callback w callback
  intro _
  apply (preserves_subscribeSlot hI hblock).bind
  intro _
  apply (preserves_openSlot hI hera.toKeeps).bind
  intro _
  exact triple_pure fun _ h => h

theorem preserves_unsubscribeEraAndSession (hI : Quiet I) (hera : Keeps I (.slot .eraAndSession))
    (hblock : Keeps I (.slot .blockNumber)) : Preserves I unsubscribeEraAndSession := by
  apply (preserves_closeSlot hI (by decide) hera).bind
  intro _
  apply (preserves_unsubscribeSlot hI (by decide) hblock).bind
  intro _
  exact triple_pure fun _ h => h

theorem preserves_subscribeKeyed {storageKey : Api → Result Str} (hI : Quiet I)
    (h : Ignores I (.keyed keyedKind key)) :
    Preserves I (subscribeKeyed keyedKind storageKey key callback) :=
  (subscribeKeyed_triple hI h.entry fun w => h.callback w callback).post
    (fun _ _ => h.toKeeps.of_opened) fun _ _ hw => hw.1

theorem preserves_unsubscribeKeyed (hI : Quiet I) (h : Keeps I (.keyed keyedKind key)) :
    Preserves I (unsubscribeKeyed keyedKind key) :=
  (unsubscribeKeyed_triple hI keyedKind key).post (fun _ _ hw => (h.of_released hw).1)
    fun _ _ hw => hw.1

theorem preserves_getAccountNonce (hI : Quiet I) (hlocals : IgnoresLocals I)
    (h : Ignores I (.keyed .accountNonce address)) : Preserves I (getAccountNonce lib address) :=
  (getAccountNonce_triple hI hlocals h.toKeeps hlocals fun w _ => h.callback w _).post
    (fun _ _ hw => hw.1) fun _ _ hw => hw.1

theorem preserves_makeSubmission {build : ProtocolParameters → ℕ → Result Submission} (hI : Quiet I)
    (hlocals : IgnoresLocals I) (h : Ignores I (.keyed .accountNonce address)) :
    Preserves I (makeSubmission lib address build) :=
  (makeSubmission_triple hI hlocals h.toKeeps hlocals fun w _ => h.callback w _).post
    (fun _ _ hw => hw.1) fun _ _ hw => hw

theorem preserves_watchExtrinsic {submission : Submission} (hI : Quiet I)
    (h : Ignores I (.slot kind)) : Preserves I (watchExtrinsic kind submission callback) := by
  apply (watchExtrinsic_triple hI fun w => h.callback w callback).post
  · intro _ w' hw
    obtain ⟨w, q, json, hw, -, rfl⟩ := hw
    exact h.opened w q _ hw
  · intro _ w' hw
    exact hw.1

theorem preserves_requested {q : Json} (hI : Quiet I)
    (hrequested : ∀ w q, I w → I (w.record (.requested q))) :
    Preserves I (request fun _ => .requested q) := by
  apply (hI.request _).post
  · intro json w' hw
    obtain ⟨-, w, hw, rfl⟩ := hw
    exact hrequested w q hw
  · intro halt w' hw
    exact hw.1

theorem preserves_submitExtrinsic {request : CallRequest} (hI : Quiet I)
    (hlocals : IgnoresLocals I) (hrequested : ∀ w q, I w → I (w.record (.requested q)))
    (h : Ignores I (.keyed .accountNonce request.sender)) :
    Preserves I (submitExtrinsic lib request) := by
  apply (preserves_makeSubmission hI hlocals h).bind
  intro submission
  apply (preserves_requested hI hrequested).bind
  intro _
  exact triple_pure fun _ h => h

end Keeps

section Since

variable {p : Entry → Prop} {log l : List Entry} {w w' : World} {topic : Topic}

def NoneSince (p : Entry → Prop) (log : List Entry) (w : World) : Prop :=
  ∃ l, w.log = log ++ l ∧ ∀ e ∈ l, ¬ p e

theorem noneSince_self (h : w.log = log) : NoneSince p log w :=
  ⟨[], by rw [h, List.append_nil], nofun⟩

theorem NoneSince.append (h : NoneSince p log w) (hlog : w'.log = w.log ++ l)
    (hl : ∀ e ∈ l, ¬ p e) : NoneSince p log w' := by
  obtain ⟨l₀, hl₀, hnone⟩ := h
  refine ⟨l₀ ++ l, by rw [hlog, hl₀, List.append_assoc], ?_⟩
  intro e he
  rcases List.mem_append.1 he with he | he
  · exact hnone e he
  · exact hl e he

theorem NoneSince.record {e : Entry} (h : NoneSince p log w) (he : ¬ p e) :
    NoneSince p log (w.record e) :=
  h.append rfl (by simpa using he)

theorem noneSince_quiet (hp : ∀ e, p e → e.isRequest) : Quiet (NoneSince p log) := by
  refine ⟨fun w h => h, ?_⟩
  intro w w' id message h hhandle
  obtain ⟨l, hl, hreq⟩ := (handleWsMessage_handled hhandle).log
  apply h.append hl
  intro e he hpe
  cases (hreq e he).symm.trans (hp e hpe)

theorem noneSince_ignores (hopened : ∀ q id, ¬ p (.subscribed topic q id))
    (hreleased : ∀ id method, ¬ p (.unsubscribed id method)) :
    Ignores (NoneSince p log) topic :=
  ⟨⟨fun _ h _ => h, fun _ q id h => h.record (hopened q id),
    fun _ id method h _ _ => h.record (hreleased id method), fun _ h _ => h⟩, fun _ _ h => h⟩

end Since

end PolkadotApi.CallSpecifications

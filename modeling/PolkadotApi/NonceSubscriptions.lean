import PolkadotApi.ObjectRuns

set_option autoImplicit false

namespace PolkadotApi.NonceSubscriptions
open StatefulActions MachineModel JsonValues ExtrinsicSubmission StorageKeys Subscriptions
open SubscriptionFrames CallSpecifications ObjectRuns AddressRoundTrip

def nonceOf (address : Str) : Topic := .keyed .accountNonce address

def userNonce (api : Api) (address : Str) : Option (ℤ × ℕ) :=
  match subscription api (nonceOf address), api.subscriber (nonceOf address) with
  | some id, some (.client tag) => some (id, tag)
  | _, _ => none

def account : Operation → Option Str
  | .getAccountNonce address => some address
  | .submitExtrinsic request => some request.sender
  | .submitAndSubcribeExtrinsic request _ => some request.sender
  | .signAndSendTransfer t _ => some t.sender
  | _ => none

/-- The entry of `address` is not the client's, and every other one is as in `before`. -/
structure TakenOver (before : Api) (address : Str) (api : Api) : Prop where
  own : ∀ tag, api.subscriber (nonceOf address) ≠ some (.client tag)
  others : ∀ a, a ≠ address → userNonce api a = userNonce before a

section Takeover

variable {lib : Libraries} {before api api' : Api} {address : Str} {topic : Topic}

theorem TakenOver.userNonce_own (h : TakenOver before address api) : userNonce api address = none := by
  unfold userNonce
  split
  · next hsubscriber => exact absurd hsubscriber (h.own _)
  · rfl

theorem TakenOver.of_view (h : TakenOver before address api)
    (hown : ∀ tag, api'.subscriber (nonceOf address) ≠ some (.client tag))
    (hview : ∀ a, a ≠ address → subscription api' (nonceOf a) = subscription api (nonceOf a) ∧
      api'.subscriber (nonceOf a) = api.subscriber (nonceOf a)) :
    TakenOver before address api' := by
  refine ⟨hown, ?_⟩
  intro a ha
  rw [← h.others a ha]
  unfold userNonce
  rw [(hview a ha).1, (hview a ha).2]

theorem nonceOf_ne {a : Str} (h : a ≠ address) : nonceOf a ≠ nonceOf address :=
  fun ht => h (Topic.keyed.inj ht).2

theorem takenOver_setCallback (frame : ℕ) :
    TakenOver api address (setCallback (nonceOf address) (.recordNonce frame) api) := by
  constructor
  · intro tag
    rw [subscriber_setCallback_self]
    simp
  · intro a ha
    unfold userNonce
    rw [(setCallback_view_of_ne (nonceOf_ne ha)).1, (setCallback_view_of_ne (nonceOf_ne ha)).2]

theorem takenOver_quiet : Quiet fun w => TakenOver before address w.api := by
  refine ⟨fun w h => h, ?_⟩
  intro w w' id message h hhandle
  have hkeyed := (handleWsMessage_handled hhandle).keyed
  apply h.of_view
  · simpa only [Api.subscriber, nonceOf, hkeyed] using h.own
  · intro a _
    simp only [subscription, Api.subscriber, nonceOf, hkeyed, and_self]

theorem takenOver_keeps : Keeps (fun w => TakenOver before address w.api) (nonceOf address) := by
  have hrelease : ∀ w : World, TakenOver before address w.api →
      TakenOver before address (release (nonceOf address) w.api) := by
    intro w h
    apply h.of_view
    · intro tag
      rw [subscriber_release_self]
      simp
    · intro a ha
      exact release_view_of_ne (nonceOf_ne ha)
  have hopen : ∀ (w : World) (id : ℤ), TakenOver before address w.api →
      TakenOver before address (setSubscription (nonceOf address) id w.api) := by
    intro w id h
    apply h.of_view
    · intro tag hsubscriber
      rw [subscriber_setSubscription] at hsubscriber
      exact h.own tag hsubscriber
    · intro a ha
      exact setSubscription_view_of_ne (nonceOf_ne ha)
  exact ⟨fun w h _ => hopen w 0 h, fun w _ id h => hopen w id h, fun w _ _ h _ _ => hrelease w h,
    fun w h _ => hrelease w h⟩

theorem takenOver_ignores (kind : SlotKind) :
    Ignores (fun w => TakenOver before address w.api) (.slot kind) := by
  have hslot : ∀ (w : World) (slot : Slot), TakenOver before address w.api →
      TakenOver before address (w.api.setSlot kind slot) := by
    intro w slot h
    apply h.of_view
    · exact h.own
    · intro a _
      exact ⟨rfl, rfl⟩
  exact ⟨⟨fun w h _ => hslot w _ h, fun w _ _ h => hslot w _ h, fun w _ _ h _ _ => hslot w _ h,
    fun w h _ => hslot w _ h⟩, fun w _ h => hslot w _ h⟩

theorem makeSubmission_takes_over {build : ProtocolParameters → ℕ → Result Submission} :
    Triple (fun w => w.api = before) (makeSubmission lib address build)
      (fun _ w => TakenOver before address w.api) fun _ w => TakenOver before address w.api := by
  apply (makeSubmission_triple takenOver_quiet (fun _ _ _ _ _ h => h) takenOver_keeps
    (fun _ _ _ _ _ h => h) ?_).post (fun _ _ h => h.1) fun _ _ h => h
  intro w frame hw
  subst hw
  exact takenOver_setCallback frame

theorem perform_takes_over (lib : Libraries) {op : Operation} (h : account op = some address) :
    Triple (fun w => w.api = before) (perform lib op)
      (fun _ w => TakenOver before address w.api) fun _ w => TakenOver before address w.api := by
  cases op with
  | getAccountNonce a =>
    cases h
    apply triple_discard
    apply (getAccountNonce_triple takenOver_quiet (fun _ _ _ _ _ h => h) takenOver_keeps
      (fun _ _ _ _ _ h => h) ?_).post (fun _ _ h => h.1) fun _ _ h => h.1
    intro w frame hw
    subst hw
    exact takenOver_setCallback frame
  | submitExtrinsic request =>
    cases h
    apply triple_discard
    apply makeSubmission_takes_over.bind
    intro submission
    apply (preserves_requested takenOver_quiet fun _ _ h => h).bind
    intro response
    exact triple_pure fun _ h => h
  | submitAndSubcribeExtrinsic request tag =>
    cases h
    apply makeSubmission_takes_over.bind
    intro submission
    exact preserves_watchExtrinsic takenOver_quiet (takenOver_ignores _)
  | signAndSendTransfer t tag =>
    cases h
    apply makeSubmission_takes_over.bind
    intro submission
    exact preserves_watchExtrinsic takenOver_quiet (takenOver_ignores _)
  | _ => cases h

end Takeover

/-- The calls leave the client's nonce subscriptions as they were exactly when the
client has none for the account. -/
theorem userNonce_kept_iff (lib : Libraries) (w : World) (op : Operation) (address : Str)
    (h : account op = some address) :
    (∀ a, userNonce (final (perform lib op) w).api a = userNonce w.api a) ↔
      userNonce w.api address = none := by
  have hafter := (perform_takes_over lib h).final (s := w) rfl
  constructor
  · intro hsame
    rw [← hsame address]
    exact hafter.userNonce_own
  · intro hnone a
    by_cases ha : a = address
    · subst a
      rw [hnone]
      exact hafter.userNonce_own
    · exact hafter.others a ha

def askNonce : Event where
  op := .getAccountNonce knownAddress
  answers := [answered 8, confirmed]
  incoming := [(7, changed "0x05"), (8, changed "0x05")]

theorem userNonce_kept_iff_unsubscribed : account askNonce.op = some knownAddress ∧
    ∀ a, userNonce (final (perform sampleLibraries askNonce.op)
      (meets (start connectedApi) askNonce)).api a = userNonce connectedApi a :=
  ⟨rfl, (userNonce_kept_iff sampleLibraries (meets (start connectedApi) askNonce) askNonce.op
    knownAddress rfl).2 (by decide +kernel)⟩

/-- The client is subscribed to the nonce of the address with the id 7, and the
node will confirm the end of the subscription. -/
def watching : World :=
  { final (perform sampleLibraries (.subscribeAccountNonce knownAddress 1))
      { start connectedApi with answers := [answered 7] } with
    answers := [confirmed], incoming := [(7, changed "0x05")] }

theorem userNonce_kept_fails : ¬ ∀ lib w op address, account op = some address →
    ∀ a, userNonce (final (perform lib op) w).api a = userNonce w.api a := by
  intro hall
  have hsame := hall sampleLibraries watching (.getAccountNonce knownAddress) knownAddress rfl
    knownAddress
  have hbefore : userNonce watching.api knownAddress = some (7, 1) := by decide +kernel
  have hafter : userNonce (final (perform sampleLibraries (.getAccountNonce knownAddress))
      watching).api knownAddress = none := by decide +kernel
  rw [hafter, hbefore] at hsame
  cases hsame

end PolkadotApi.NonceSubscriptions

import PolkadotApi.SlotSubscriptionsInvariant

set_option autoImplicit false

namespace PolkadotApi.SlotSubscriptions
open StatefulActions MachineModel JsonValues ExtrinsicSubmission StorageKeys Notifications
open Subscriptions SubscriptionFrames CallSpecifications Connection ObjectRuns StepRuns
open SubscriptionLedger Reconnection

section Calls

variable {lib : Libraries} {F : World → Prop} {w w' : World} {e : Event} {kind : SlotKind}
  {q : Api → Json} {callback : Callback}

theorem inv_of_opened (hopened : Opened (fun w => (Inv w ∧ F w) ∧
    w.api.subscriber (.slot kind) ≠ none) (.slot kind) w) (hF : Keeps F (.slot kind)) :
    Inv w ∧ F w := by
  rcases hopened with h | ⟨w₀, q, json, ⟨⟨h, hw⟩, hsubscriber⟩, hclosed, -, rfl⟩
  · exact h.1.1
  · refine ⟨inv_opened h (fun _ => hsubscriber) ?_, hF.opened w₀ q _ hw⟩
    intro _
    simpa [subscription] using slot_closed_iff.1 hclosed

theorem filled_quiet (hk : kind ≠ .transactionCompletion) :
    Quiet fun w => w.api.subscriber (.slot kind) ≠ none :=
  quiet_view (F := fun _ subscriber => subscriber ≠ none) fun h => hk (Topic.slot.inj h)

theorem openSlot_inv (hk : kind ≠ .transactionCompletion) (hF : Quiet F) (hi : Keeps F (.slot kind)) :
    Triple (fun w => (Inv w ∧ F w) ∧ w.api.subscriber (.slot kind) ≠ none) (openSlot kind q)
      (fun _ w => Inv w ∧ F w) fun _ w => Inv w ∧ F w := by
  apply (openSlot_triple ((inv_quiet.and hF).and (filled_quiet hk)) kind q).post
  · intro _ w h
    exact inv_of_opened h hi
  · intro _ w h
    exact h.1.1

theorem subscribeSlot_inv (hk : kind ≠ .transactionCompletion) (hF : Quiet F)
    (hi : Ignores F (.slot kind)) :
    Preserves (fun w => Inv w ∧ F w) (subscribeSlot kind q callback) := by
  apply (subscribeSlot_triple ((inv_quiet.and hF).and (filled_quiet hk)) ?_).post
  · intro _ w h
    exact inv_of_opened h hi.toKeeps
  · intro _ w h
    exact h.1.1
  · intro w h
    refine ⟨⟨inv_callback kind callback h.1, hi.callback w callback h.2⟩, ?_⟩
    rw [update_api, subscriber_setCallback_self]
    simp

theorem inv_of_released (hext : kind ≠ .subcribeExtrinsic) (h : Released Inv (.slot kind) w) :
    Inv w := by
  rcases h with h | ⟨w₀, id, method, h, hne, hid, rfl⟩ | ⟨w₀, h, hid, rfl⟩
  · exact h.1
  · exact inv_released hext h hne hid
  · simp only [subscription] at hid
    split_ifs at hid with hzero
    exact absurd (Option.some.inj hid) hzero

theorem closeSlot_inv {method : String} (hk : kind ≠ .transactionCompletion)
    (hext : kind ≠ .subcribeExtrinsic) : Preserves Inv (closeSlot kind method) :=
  (closeSlot_triple inv_quiet hk method).post (fun _ _ h => inv_of_released hext h)
    fun _ _ h => h.1

theorem unsubscribeSlot_inv {method : String} (hk : kind ≠ .transactionCompletion)
    (hext : kind ≠ .subcribeExtrinsic) : Preserves Inv (unsubscribeSlot kind method) := by
  apply (closeSlot_inv hk hext).bind
  intro _
  exact triple_pure fun _ h => h

theorem subscribe_inv (hk : kind ≠ .transactionCompletion) :
    Preserves Inv (subscribeSlot kind q callback) := by
  apply ((subscribeSlot_inv hk true_quiet (true_ignores _)).pre fun _ h => ⟨h, trivial⟩).post
  · intro _ w h
    exact h.1
  · intro _ w h
    exact h.1

theorem subscribeEraAndSession_inv : Preserves Inv (subscribeEraAndSession callback) := by
  have hquiet : Quiet fun w => w.api.subscriber (.slot .eraAndSession) ≠ none :=
    filled_quiet (by decide)
  apply Triple.bind (Q := fun _ w => Inv w ∧ w.api.subscriber (.slot .eraAndSession) ≠ none)
  · apply triple_modify
    intro w h
    refine ⟨inv_callback .eraAndSession callback h, ?_⟩
    change (setCallback (.slot .eraAndSession) callback w.api).subscriber _ ≠ none
    rw [subscriber_setCallback_self]
    simp
  intro _
  apply Triple.bind (Q := fun _ w => Inv w ∧ w.api.subscriber (.slot .eraAndSession) ≠ none)
  · apply (subscribeSlot_inv (by decide) hquiet ?_).post
    · intro _ w h
      exact h
    · intro _ w h
      exact h.1
    · exact ignores_of_ne (F := fun _ subscriber => subscriber ≠ none) (by decide)
  intro _
  apply Triple.bind (Q := fun _ => Inv)
  · have hkeeps : Keeps (fun _ => True) (.slot .eraAndSession) := (true_ignores _).toKeeps
    apply ((openSlot_inv (by decide) true_quiet hkeeps).pre fun w h => ⟨⟨h.1, trivial⟩, h.2⟩).post
    · intro _ w h
      exact h.1
    · intro _ w h
      exact h.1
  · intro _
    exact triple_pure fun _ h => h

theorem unsubscribeEraAndSession_inv : Preserves Inv unsubscribeEraAndSession := by
  apply (closeSlot_inv (by decide) (by decide)).bind
  intro _
  apply (unsubscribeSlot_inv (by decide) (by decide)).bind
  intro _
  exact triple_pure fun _ h => h

theorem signAndSendTransfer_inv {t : TransferRequest} :
    Triple (fun w => Inv w ∧ subscription w.api transfer = none)
      (signAndSendTransfer lib t callback) (fun _ => Inv) fun _ => Inv := by
  have hignores : Ignores (fun w => Inv w ∧ subscription w.api transfer = none)
      (.keyed .accountNonce t.sender) := by
    have hclosed : Ignores (fun w => subscription w.api transfer = none)
        (.keyed .accountNonce t.sender) :=
      ignores_of_ne (F := fun id _ => id = none) (by simp)
    have hinv := inv_ignores_keyed .accountNonce t.sender
    exact ⟨hinv.toKeeps.and hclosed.toKeeps,
      fun w f h => ⟨hinv.callback w f h.1, hclosed.callback w f h.2⟩⟩
  have hlocals : IgnoresLocals fun w => Inv w ∧ subscription w.api transfer = none :=
    fun w frames running nonce incoming h => ⟨inv_locals w frames running nonce incoming h.1, h.2⟩
  apply Triple.bind (Q := fun _ w => Inv w ∧ subscription w.api transfer = none)
  · apply (preserves_makeSubmission (inv_quiet.and (quiet_closed transfer)) hlocals hignores).post
    · intro _ w h
      exact h
    · intro _ w h
      exact h.1
  intro submission
  apply (watchExtrinsic_triple (inv_quiet.and (awaiting_quiet transfer callback)) ?_).post
  · intro _ w' h
    obtain ⟨w, q, json, ⟨h, hawaiting⟩, -, rfl⟩ := h
    apply inv_opened h
    · intro hsound hnone
      cases hnone.symm.trans (hawaiting.subscriber hsound.addressed)
    · intro _
      simpa [subscription] using slot_closed_iff.1 hawaiting.unanswered
  · intro _ w h
    exact h.1.1
  · intro w h
    exact ⟨inv_callback _ callback h.1, awaiting_setCallback h.2⟩

theorem submitAndSubcribeExtrinsic_inv {request : CallRequest} :
    Preserves Inv (submitAndSubcribeExtrinsic lib request callback) := by
  have hignores := inv_ignores_keyed .accountNonce request.sender
  apply (preserves_makeSubmission inv_quiet inv_locals hignores).bind
  intro submission
  have hfilled : Quiet fun w => w.api.subscriber (.slot .subcribeExtrinsic) ≠ none :=
    filled_quiet (by decide)
  apply (watchExtrinsic_triple (inv_quiet.and hfilled) ?_).post
  · intro _ w' h
    obtain ⟨w, q, json, ⟨h, hsubscriber⟩, -, rfl⟩ := h
    exact inv_opened h (fun _ => hsubscriber) fun hne => absurd rfl hne
  · intro _ w h
    exact h.1.1
  · intro w h
    refine ⟨inv_callback _ callback h, ?_⟩
    rw [update_api, subscriber_setCallback_self]
    simp

/-- No transfer is sent while another one is watched; the websocket stays open. -/
def OneTransfer (w : World) (e : Event) : Prop :=
  match e.op with
  | .signAndSendTransfer _ _ => subscription w.api transfer = none
  | .disconnect => False
  | _ => True

instance (w : World) (e : Event) : Decidable (OneTransfer w e) := by
  refine Event.casesOn e fun op answers incoming => ?_
  apply Operation.casesOn (motive := fun op => Decidable (OneTransfer w ⟨op, answers, incoming⟩)) op <;>
    (intros; unfold OneTransfer; infer_instance)

theorem perform_inv (hone : OneTransfer w e) :
    Triple (fun u => Inv u ∧ subscription u.api transfer = subscription w.api transfer)
      (perform lib e.op) (fun _ => Inv) fun _ => Inv := by
  have hkeyed : (∀ topic ∈ e.op.touched, ∃ kind key, topic = .keyed kind key) →
      Preserves Inv (perform lib e.op) := by
    intro htouched
    apply perform_preserves lib e.op inv_quiet inv_locals inv_parameters inv_requested
    intro topic htopic
    obtain ⟨kind, key, rfl⟩ := htouched topic htopic
    exact inv_ignores_keyed kind key
  obtain ⟨op, answers, incoming⟩ := e
  cases op with
  | disconnect => exact hone.elim
  | subscribeBlockNumber tag =>
    exact (triple_discard (subscribe_inv (by decide))).pre fun _ h => h.1
  | unsubscribeBlockNumber =>
    exact (triple_discard (unsubscribeSlot_inv (by decide) (by decide))).pre fun _ h => h.1
  | subscribeFinalizedBlock tag =>
    exact (triple_discard (subscribe_inv (by decide))).pre fun _ h => h.1
  | unsubscribeFinalizedBlock =>
    exact (triple_discard (unsubscribeSlot_inv (by decide) (by decide))).pre fun _ h => h.1
  | subscribeRuntimeVersion tag =>
    exact (triple_discard (subscribe_inv (by decide))).pre fun _ h => h.1
  | unsubscribeRuntimeVersion =>
    exact (triple_discard (unsubscribeSlot_inv (by decide) (by decide))).pre fun _ h => h.1
  | subscribeEraAndSession tag =>
    exact (triple_discard subscribeEraAndSession_inv).pre fun _ h => h.1
  | unsubscribeEraAndSession =>
    exact (triple_discard unsubscribeEraAndSession_inv).pre fun _ h => h.1
  | signAndSendTransfer t tag =>
    apply signAndSendTransfer_inv.pre
    intro u h
    exact ⟨h.1, h.2.trans hone⟩
  | submitAndSubcribeExtrinsic request tag =>
    exact submitAndSubcribeExtrinsic_inv.pre fun _ h => h.1
  | connect code | notify id message =>
    apply (hkeyed ?_).pre fun _ h => h.1
    intro topic htopic
    cases htopic
  | _ =>
    apply (hkeyed ?_).pre fun _ h => h.1
    intro topic htopic
    exact ⟨_, _, List.mem_singleton.1 htopic⟩

theorem step_inv (hone : OneTransfer w e) (h : Inv w) (hstep : step lib w e = some w') : Inv w' := by
  apply step_of_triple (perform_inv hone) (fun _ _ hr => hr) ?_ hstep
  have haccounted : Accounted (fun _ => True) (meets w e) := accounted_meets h.1
  exact ⟨h.of_append haccounted (List.append_nil _).symm (by simp) (fun _ => rfl) fun _ hk => hk, rfl⟩

end Calls

section Agreement

variable {lib : Libraries} {w : World}

/-- The ids are non-zero for the open subscriptions, which have functions; the
first subscribe call of a kind sends a request; an id of a kind was given to it. -/
structure Agrees (lib : Libraries) (w : World) : Prop where
  open_iff : ∀ kind, (w.api.slot kind).id ≠ 0 ↔ IsOpen w.log kind
  filled : ∀ kind, (w.api.slot kind).id ≠ 0 → (w.api.slot kind).subscriber ≠ none
  sends : ∀ e kind w', target e.op = some (.slot kind) →
    (∀ q id, .subscribed (.slot kind) q id ∉ w.log) →
    (perform lib e.op).run (meets w e) = .ok () w' → Sends (.slot kind) w w'
  routed : ∀ id kind, id ≠ 0 → route w.api id = some (.slot kind) →
    ∃ q, .subscribed (.slot kind) q id ∈ w.log

theorem Inv.open_iff (h : Inv w) (hsound : Sound w.log) (kind : SlotKind) :
    (w.api.slot kind).id ≠ 0 ↔ IsOpen w.log kind := by
  have hledger := h.1 hsound.toFresh
  have htidy := h.2 hsound
  constructor
  · intro hne
    have hid : subscription w.api (.slot kind) = some (w.api.slot kind).id := by
      simp [subscription, hne]
    obtain ⟨q, hmem⟩ := hledger.held _ _ trivial hne hid
    refine ⟨q, _, hmem, ?_⟩
    intro hclosed
    rcases hclosed with hgone | ⟨rfl, message, hmessage, hfinal⟩
    · exact hledger.live _ _ trivial hid hgone
    · exact htidy.unfinished hne message hmessage hfinal
  · intro hopen
    obtain ⟨q, id, hmem, hnot⟩ := hopen
    rcases htidy.kept kind q id hmem with hclosed | hid | ⟨-, hne⟩
    · exact absurd hclosed hnot
    · rw [hid]
      exact hsound.nonzero id (mem_subscribedIds.2 ⟨_, q, hmem⟩)
    · exact hne

theorem Inv.agrees (h : Inv w) (hsound : Sound w.log) : Agrees lib w := by
  refine ⟨h.open_iff hsound, (h.2 hsound).filled, ?_, ?_⟩
  · intro e kind w' htarget hnever hcall
    have hclosed : subscription w.api (.slot kind) = none := by
      by_contra hsome
      have hne : (w.api.slot kind).id ≠ 0 := by simpa [subscription] using hsome
      obtain ⟨q, id, hmem, -⟩ := (h.open_iff hsound kind).1 hne
      exact hnever q id hmem
    have hbefore : Before (.slot kind) false w.log (meets w e) :=
      before_meets (by rw [hclosed]; rfl)
    exact ((perform_asked htarget).of_ok hbefore hcall).sends_iff.2 rfl
  · intro id kind hid hroute
    exact (h.1 hsound.toFresh).held _ _ trivial hid ((route_holds hroute).subscription hid)

end Agreement

/-- The single subscriptions agree with the log in every state of a run in which
the memory of the object was 0 and transfers do not overlap. -/
theorem slots_agree (lib : Libraries) (memory : Api) (hmemory : ∀ kind, initialId memory kind = 0)
    (es : List Event) (w : World) (hone : Along (step lib) OneTransfer (start (construct memory)) es)
    (hrun : run (step lib) (start (construct memory)) es = some w) (hsound : Sound w.log) :
    Agrees lib w := by
  have hclosed : ∀ topic, subscription (construct memory) topic = none := by
    intro topic
    cases topic with
    | slot kind => simp [subscription, construct, hmemory]
    | keyed kind key => simp [subscription, construct]
  have hstart : Inv (start (construct memory)) := by
    refine ⟨accounted_start fun topic _ => hclosed topic, ?_⟩
    intro _
    constructor
    · intro hne
      exact absurd (hmemory .transactionCompletion) hne
    · intro kind hne
      exact absurd (hmemory kind) hne
    · intro kind q id hmem
      cases hmem
  have hinv : Inv w := by
    apply run_invariant ?_ hstart hone hrun
    intro s e t h hp hs
    exact step_inv hp h hs
  exact hinv.agrees hsound

def oneTransfer : List Event :=
  [connectTo plainChain, ⟨.subscribeBlockNumber 1, [answered 5], []⟩, transferOf 2 6 7,
    statusOf 7 "finalized"]

theorem slots_agree_one_transfer :
    Agrees sampleLibraries (after (start (construct blankMemory)) oneTransfer) := by
  have hmemory : ∀ kind, initialId blankMemory kind = 0 := by
    intro kind
    cases kind <;> rfl
  obtain ⟨hone, hrun, hsound⟩ :
      Along (step sampleLibraries) OneTransfer (start (construct blankMemory)) oneTransfer ∧
      (run (step sampleLibraries) (start (construct blankMemory)) oneTransfer).isSome ∧
      Sound (after (start (construct blankMemory)) oneTransfer).log := by
    decide +kernel
  exact slots_agree sampleLibraries blankMemory hmemory oneTransfer _ hone (run_after _ _ hrun)
    hsound

/-- The member for finalized blocks happens to hold 77. -/
def dirtyMemory : Api := { blankMemory with slot := fun _ => ⟨none, 77⟩ }

theorem slots_agree_fails :
    ¬ ∀ lib memory es w, (∀ e ∈ es, e.op ≠ .disconnect) →
      run (step lib) (start (construct memory)) es = some w → Sound w.log → Agrees lib w := by
  intro hall
  have hagrees := hall sampleLibraries dirtyMemory [] _ (by simp) rfl (by decide)
  have hopen := (hagrees.open_iff .finalizedBlock).1 (by decide)
  obtain ⟨q, id, hmem, -⟩ := hopen
  cases hmem

end PolkadotApi.SlotSubscriptions

import PolkadotApi.CallbackDelivery
import PolkadotApi.Reconnection
import PolkadotApi.SlotSubscriptions

set_option autoImplicit false

namespace PolkadotApi.TransferStatus
open StatefulActions MachineModel JsonValues StorageKeys Notifications Subscriptions
open SubscriptionFrames CallSpecifications Connection ObjectRuns StepRuns SubscriptionLedger
open CallbackDelivery Reconnection SlotSubscriptions

section Statuses

variable {id : ℤ} {log log' : List Entry} {tag : ℕ}

/-- The calls that the statuses of a transfer should lead to. -/
def reports (tag : ℕ) (arrived : List Json) : List (Callback × Payload) :=
  arrived.filterMap fun message => (transactionStatus message).map fun p => (.client tag, p)

theorem reports_append {a b : List Json} : reports tag (a ++ b) = reports tag a ++ reports tag b :=
  List.filterMap_append

/-- A status that is handled before the id has come back, or after the final one. -/
def Untimely (id : ℤ) : Entry → Entry → Prop
  | .handled i message, .subscribed _ _ i' => i = id ∧ i' = id ∧ transactionStatus message ≠ none
  | .handled i message, .handled i' message' =>
    i = id ∧ i' = id ∧ Final message ∧ transactionStatus message' ≠ none
  | _, _ => False

instance (id : ℤ) : (e e' : Entry) → Decidable (Untimely id e e')
  | .handled i message, .subscribed _ _ i' =>
    inferInstanceAs (Decidable (i = id ∧ i' = id ∧ transactionStatus message ≠ none))
  | .handled i message, .handled i' message' =>
    inferInstanceAs (Decidable (i = id ∧ i' = id ∧ Final message ∧ transactionStatus message' ≠ none))
  | .handled _ _, .unsubscribed _ _ | .handled _ _, .requested _ | .handled _ _, .invoked _ _ _
  | .subscribed _ _ _, _ | .unsubscribed _ _, _ | .requested _, _ | .invoked _ _ _, _ =>
    inferInstanceAs (Decidable False)

def InTime (log : List Entry) : Entry → Prop
  | .subscribed (.slot .transactionCompletion) _ id => log.Pairwise fun e e' => ¬ Untimely id e e'
  | _ => True

instance (log : List Entry) (e : Entry) : Decidable (InTime log e) := by
  unfold InTime
  split <;> infer_instance

structure Orderly (log : List Entry) : Prop extends Fresh log where
  addressed : ∀ e ∈ log, Addressed e
  inTime : ∀ e ∈ log, InTime log e

instance (log : List Entry) : Decidable (Orderly log) :=
  decidable_of_iff (Fresh log ∧ (∀ e ∈ log, Addressed e) ∧ ∀ e ∈ log, InTime log e)
    ⟨fun h => ⟨h.1, h.2.1, h.2.2⟩, fun h => ⟨h.toFresh, h.addressed, h.inTime⟩⟩

theorem Orderly.timely {q : Json} (h : Orderly log) (hmem : .subscribed transfer q id ∈ log) :
    log.Pairwise fun e e' => ¬ Untimely id e e' := h.inTime _ hmem

theorem Orderly.of_append (h : Orderly (log ++ log')) : Orderly log := by
  refine ⟨h.toFresh.of_append, fun e he => h.addressed e (List.mem_append_left log' he), ?_⟩
  intro e he
  have hall := h.inTime e (List.mem_append_left log' he)
  unfold InTime at hall ⊢
  split at hall
  · exact (List.pairwise_append.1 hall).1
  · trivial

theorem Orderly.reports_early {q : Json} (h : Orderly (log ++ [.subscribed transfer q id])) :
    reports tag (notices id log) = [] := by
  have hpairs := h.timely (List.mem_append_right log List.mem_cons_self)
  unfold reports notices
  rw [List.filterMap_eq_nil_iff]
  intro message hmessage
  obtain ⟨e, he, hsome⟩ := List.mem_filterMap.1 hmessage
  cases e with
  | handled i m =>
    dsimp only at hsome
    split_ifs at hsome with hi
    cases hsome
    have hnot := (List.pairwise_append.1 hpairs).2.2 _ he _ List.mem_cons_self
    cases hstatus : transactionStatus message with
    | none => rfl
    | some p => exact absurd ⟨hi, rfl, by rw [hstatus]; simp⟩ hnot
  | _ => cases hsome

theorem Orderly.status_late {q message m : Json} {l : List Entry}
    (h : Orderly (log ++ .handled id m :: l)) (hmem : .subscribed transfer q id ∈ log)
    (hhandled : .handled id message ∈ log) (hfinal : Final message) : transactionStatus m = none := by
  have hpairs := h.timely (List.mem_append_left _ hmem)
  have hnot := (List.pairwise_append.1 hpairs).2.2 _ hhandled _ List.mem_cons_self
  by_contra hstatus
  exact hnot ⟨rfl, rfl, hfinal, hstatus⟩

end Statuses

section Following

variable {lib : Libraries} {id : ℤ} {tag : ℕ} {w w' : World} {e : Event} {topic : Topic}

/-- A transfer has been sent, and its statuses so far have been reported. -/
structure Tale (id : ℤ) (tag : ℕ) (w : World) : Prop where
  ledger : Ledger (fun _ => True) w
  sent : ∃ q, .subscribed transfer q id ∈ w.log
  reported : calls id w.log = reports tag (notices id w.log)

structure Open (id : ℤ) (tag : ℕ) (w : World) : Prop extends Tale id tag w where
  opened : subscription w.api transfer = some id
  subscriber : w.api.subscriber transfer = some (.client tag)

structure Ended (id : ℤ) (tag : ℕ) (w : World) : Prop extends Tale id tag w where
  closed : subscription w.api transfer ≠ some id
  final : ∃ message, .handled id message ∈ w.log ∧ Final message

def EndedIf (id : ℤ) (tag : ℕ) (w : World) : Prop := Orderly w.log → Ended id tag w

def Followed (id : ℤ) (tag : ℕ) (w : World) : Prop :=
  Orderly w.log → Open id tag w ∨ Ended id tag w

theorem Tale.ne_zero (h : Tale id tag w) (hfresh : Fresh w.log) : id ≠ 0 := by
  obtain ⟨q, hsent⟩ := h.sent
  exact hfresh.nonzero id (mem_subscribedIds.2 ⟨_, q, hsent⟩)

theorem Open.watching (h : Open id tag w) (hfresh : Fresh w.log) :
    Watching transfer id (.client tag) w :=
  ⟨h.ledger, hfresh, h.ne_zero hfresh, h.opened, h.subscriber⟩

theorem Ended.gone (h : Ended id tag w) (hfresh : Fresh w.log) : Gone id w := by
  obtain ⟨q, hsent⟩ := h.sent
  refine ⟨h.ne_zero hfresh, ?_⟩
  intro topic htopic
  obtain ⟨q', hmem⟩ := h.ledger.held topic id trivial (h.ne_zero hfresh) htopic
  have heq := hfresh.topic_eq hmem hsent
  rw [heq] at htopic
  exact h.closed htopic

theorem Tale.of_append {l : List Entry} (h : Tale id tag w) (hledger : Ledger (fun _ => True) w')
    (hlog : w'.log = w.log ++ l) (hnotices : notices id l = []) (hcalls : calls id l = []) :
    Tale id tag w' := by
  obtain ⟨q, hsent⟩ := h.sent
  refine ⟨hledger, ⟨q, by rw [hlog]; exact List.mem_append_left l hsent⟩, ?_⟩
  rw [hlog, notices_append, calls_append, hnotices, hcalls, List.append_nil, List.append_nil]
  exact h.reported

theorem Ended.of_append {l : List Entry} (h : Ended id tag w) (hledger : Ledger (fun _ => True) w')
    (hlog : w'.log = w.log ++ l) (hnotices : notices id l = []) (hcalls : calls id l = [])
    (hclosed : subscription w'.api transfer ≠ some id) : Ended id tag w' := by
  obtain ⟨message, hmem, hfinal⟩ := h.final
  exact ⟨h.toTale.of_append hledger hlog hnotices hcalls, hclosed, message,
    by rw [hlog]; exact List.mem_append_left l hmem, hfinal⟩

theorem Ended.handle {i : ℤ} {message : Json} (h : Ended id tag w) (horderly : Orderly w'.log)
    (hhandle : handleWsMessage w i message = .ok w') : Ended id tag w' := by
  obtain ⟨l₀, hlog₀, -⟩ := handleWsMessage_appends hhandle
  have hbefore : Orderly w.log := by
    rw [hlog₀] at horderly
    exact horderly.of_append
  have hledger := ledger_of_handle hhandle h.ledger hbefore.toFresh
  have hclosed : subscription w'.api transfer ≠ some id := fun hopen =>
    h.closed ((handleWsMessage_handled hhandle).subscription_of_some hopen)
  by_cases hi : i = id
  · subst hi
    have hlog := (h.gone hbefore.toFresh).handle_self hhandle
    obtain ⟨q, hsent⟩ := h.sent
    obtain ⟨m, hmem, hfinal⟩ := h.final
    have hstatus : transactionStatus message = none := by
      rw [hlog] at horderly
      exact horderly.status_late hsent hmem hfinal
    refine ⟨⟨hledger, ⟨q, by rw [hlog]; exact List.mem_append_left _ hsent⟩, ?_⟩, hclosed, m,
      by rw [hlog]; exact List.mem_append_left _ hmem, hfinal⟩
    have hnone : reports tag [message] = [] := by simp [reports, hstatus]
    rw [hlog, notices_append, calls_append, reports_append, h.reported]
    have hone : notices i [.handled i message] = [message] := by simp [notices]
    rw [hone, hnone]
    rfl
  · obtain ⟨l, hlog, hnotices, hcalls⟩ := handled_ne hi hhandle
    exact h.of_append hledger hlog hnotices hcalls hclosed

theorem Open.handle {i : ℤ} {message : Json} (h : Open id tag w) (hfresh : Fresh w.log)
    (hhandle : handleWsMessage w i message = .ok w') : Open id tag w' ∨ Ended id tag w' := by
  have hledger := ledger_of_handle hhandle h.ledger hfresh
  obtain ⟨q, hsent⟩ := h.sent
  by_cases hi : i = id
  · subst hi
    have hnotices : notices i [.handled i message] = [message] := by simp [notices]
    rcases (h.watching hfresh).handle_self (by decide) hhandle with
      ⟨p, hlog, hstatus, hmode⟩ | ⟨hlog, -, hstatus, hwatching⟩
    · have hsent' : .subscribed transfer q i ∈ w'.log := by
        rw [hlog]
        exact List.mem_append_left _ hsent
      have hreported : calls i w'.log = reports tag (notices i w'.log) := by
        have hone : reports tag [message] = [(.client tag, p)] := by simp [reports, hstatus rfl]
        have hn : notices i [.handled i message, .invoked i (.client tag) p] = [message] := by
          simp [notices]
        have hc : calls i [.handled i message, .invoked i (.client tag) p] = [(.client tag, p)] := by
          simp [calls]
        rw [hlog, notices_append, calls_append, reports_append, h.reported, hn, hc, hone]
      rcases hmode with ⟨-, hwatching⟩ | ⟨-, hfinal, hgone⟩
      · exact Or.inl ⟨⟨hledger, ⟨q, hsent'⟩, hreported⟩, hwatching.opened, hwatching.subscriber⟩
      · refine Or.inr ⟨⟨hledger, ⟨q, hsent'⟩, hreported⟩, hgone.unheld transfer, message, ?_, hfinal⟩
        rw [hlog]
        exact List.mem_append_right _ List.mem_cons_self
    · left
      refine ⟨⟨hledger, ⟨q, by rw [hlog]; exact List.mem_append_left _ hsent⟩, ?_⟩,
        hwatching.opened, hwatching.subscriber⟩
      have hnone : reports tag [message] = [] := by simp [reports, hstatus]
      rw [hlog, notices_append, calls_append, reports_append, h.reported, hnotices, hnone]
      rfl
  · obtain ⟨l, hlog, hnotices, hcalls⟩ := handled_ne hi hhandle
    have hwatching := (h.watching hfresh).handle_ne hi hhandle
    exact Or.inl ⟨h.toTale.of_append hledger hlog hnotices hcalls, hwatching.opened,
      hwatching.subscriber⟩

theorem EndedIf.of_frame {l : List Entry} (h : EndedIf id tag w)
    (hledger : Accounted (fun _ => True) w → Accounted (fun _ => True) w')
    (hlog : w'.log = w.log ++ l) (hnotices : notices id l = []) (hcalls : calls id l = [])
    (hclosed : subscription w'.api transfer = some id → Orderly w'.log →
      subscription w.api transfer = some id ∨ id ∉ subscribedIds w.log) : EndedIf id tag w' := by
  intro horderly
  have hbefore : Orderly w.log := by
    rw [hlog] at horderly
    exact horderly.of_append
  have hended := h hbefore
  apply hended.of_append (hledger (fun _ => hended.ledger) horderly.toFresh) hlog hnotices hcalls
  intro hopen
  obtain ⟨q, hsent⟩ := hended.sent
  rcases hclosed hopen horderly with hold | hnot
  · exact hended.closed hold
  · exact hnot (mem_subscribedIds.2 ⟨_, q, hsent⟩)

theorem Followed.of_frame {l : List Entry} (h : Followed id tag w)
    (hledger : Accounted (fun _ => True) w → Accounted (fun _ => True) w')
    (hlog : w'.log = w.log ++ l) (hnotices : notices id l = []) (hcalls : calls id l = [])
    (hview : subscription w'.api transfer = subscription w.api transfer ∧
      w'.api.subscriber transfer = w.api.subscriber transfer) : Followed id tag w' := by
  intro horderly
  have hbefore : Orderly w.log := by
    rw [hlog] at horderly
    exact horderly.of_append
  rcases h hbefore with hopen | hended
  · have hafter := hledger (fun _ => hopen.ledger) horderly.toFresh
    exact Or.inl ⟨hopen.toTale.of_append hafter hlog hnotices hcalls, hview.1.trans hopen.opened,
      hview.2.trans hopen.subscriber⟩
  · have hafter := hledger (fun _ => hended.ledger) horderly.toFresh
    refine Or.inr (hended.of_append hafter hlog hnotices hcalls ?_)
    rw [hview.1]
    exact hended.closed

theorem ended_quiet : Quiet (EndedIf id tag) := by
  constructor
  · intro w h
    exact h.of_frame (accounted_quiet.popped w) (List.append_nil _).symm rfl rfl
      fun hopen _ => Or.inl hopen
  · intro w w' i message h hhandle horderly
    obtain ⟨l, hlog, -⟩ := handleWsMessage_appends hhandle
    have hbefore : Orderly w.log := by
      rw [hlog] at horderly
      exact horderly.of_append
    exact (h hbefore).handle horderly hhandle

theorem followed_quiet : Quiet (Followed id tag) := by
  constructor
  · intro w h
    exact h.of_frame (accounted_quiet.popped w) (List.append_nil _).symm rfl rfl ⟨rfl, rfl⟩
  · intro w w' i message h hhandle horderly
    obtain ⟨l, hlog, -⟩ := handleWsMessage_appends hhandle
    have hbefore : Orderly w.log := by
      rw [hlog] at horderly
      exact horderly.of_append
    rcases h hbefore with hopen | hended
    · exact hopen.handle hbefore.toFresh hhandle
    · exact Or.inr (hended.handle horderly hhandle)

theorem ended_ignores (topic : Topic) : Ignores (EndedIf id tag) topic := by
  have hledger : Ignores (Accounted fun _ => True) topic := accounted_ignores trivial
  have hrelease : ∀ api : Api, subscription (release topic api) transfer = some id →
      subscription api transfer = some id := by
    intro api hopen
    by_cases htopic : transfer = topic
    · rw [← htopic, subscription_release_self] at hopen
      cases hopen
    · exact (release_view_of_ne htopic).1.symm.trans hopen
  refine ⟨⟨?_, ?_, ?_, ?_⟩, ?_⟩
  · intro w h hid
    apply h.of_frame (fun hw => hledger.entry w hw hid) (List.append_nil _).symm rfl rfl
    intro hopen _
    by_cases htopic : transfer = topic
    · rw [update_api, ← htopic] at hopen
      simp [setSubscription, subscription, Api.setId] at hopen
    · exact Or.inl ((setSubscription_view_of_ne htopic).1.symm.trans hopen)
  · intro w q i h
    apply h.of_frame (hledger.opened w q i) rfl rfl rfl
    intro hopen horderly
    have hfresh : Fresh (w.log ++ [Entry.subscribed topic q i]) := horderly.toFresh
    by_cases htopic : transfer = topic
    · rw [update_api, ← htopic, subscription_setSubscription_self hfresh.ne_zero] at hopen
      rw [← Option.some.inj hopen]
      exact Or.inr hfresh.notMem
    · exact Or.inl ((setSubscription_view_of_ne htopic).1.symm.trans hopen)
  · intro w i method h hne hid
    exact h.of_frame (fun hw => hledger.released w i method hw hne hid) rfl rfl rfl
      fun hopen _ => Or.inl (hrelease w.api hopen)
  · intro w h hid
    exact h.of_frame (fun hw => hledger.dropped w hw hid) (List.append_nil _).symm rfl rfl
      fun hopen _ => Or.inl (hrelease w.api hopen)
  · intro w callback h
    exact h.of_frame (hledger.callback w callback) (List.append_nil _).symm rfl rfl
      fun hopen _ => Or.inl (subscription_setCallback.symm.trans hopen)

theorem followed_ignores (htopic : transfer ≠ topic) : Ignores (Followed id tag) topic := by
  have hledger : Ignores (Accounted fun _ => True) topic := accounted_ignores trivial
  refine ⟨⟨?_, ?_, ?_, ?_⟩, ?_⟩
  · intro w h hid
    exact h.of_frame (fun hw => hledger.entry w hw hid) (List.append_nil _).symm rfl rfl
      (setSubscription_view_of_ne htopic)
  · intro w q i h
    exact h.of_frame (hledger.opened w q i) rfl rfl rfl (setSubscription_view_of_ne htopic)
  · intro w i method h hne hid
    exact h.of_frame (fun hw => hledger.released w i method hw hne hid) rfl rfl rfl
      (release_view_of_ne htopic)
  · intro w h hid
    exact h.of_frame (fun hw => hledger.dropped w hw hid) (List.append_nil _).symm rfl rfl
      (release_view_of_ne htopic)
  · intro w callback h
    exact h.of_frame (hledger.callback w callback) (List.append_nil _).symm rfl rfl
      (setCallback_view_of_ne htopic)

theorem ended_preserved (lib : Libraries) (op : Operation) : Preserves (EndedIf id tag) (perform lib op) := by
  apply perform_preserves lib op ended_quiet
  · intro w frames running nonce incoming h
    exact h.of_frame (accounted_locals w frames running nonce incoming) (List.append_nil _).symm
      rfl rfl fun hopen _ => Or.inl hopen
  · intro w api hbest hslot hkeyed h
    exact h.of_frame (accounted_parameters w api hbest hslot hkeyed) (List.append_nil _).symm rfl rfl
      fun hopen _ => Or.inl ((subscription_congr hslot hkeyed).symm.trans hopen)
  · intro w q h
    exact h.of_frame (accounted_requested w q) rfl rfl rfl fun hopen _ => Or.inl hopen
  · intro topic _
    exact ended_ignores topic

theorem followed_preserved (lib : Libraries) (op : Operation) (htouched : transfer ∉ op.touched) :
    Preserves (Followed id tag) (perform lib op) := by
  apply perform_preserves lib op followed_quiet
  · intro w frames running nonce incoming h
    exact h.of_frame (accounted_locals w frames running nonce incoming) (List.append_nil _).symm
      rfl rfl ⟨rfl, rfl⟩
  · intro w api hbest hslot hkeyed h
    apply h.of_frame (accounted_parameters w api hbest hslot hkeyed) (List.append_nil _).symm rfl rfl
    refine ⟨subscription_congr hslot hkeyed, ?_⟩
    simp only [Api.subscriber, hslot]
  · intro w q h
    exact h.of_frame (accounted_requested w q) rfl rfl rfl ⟨rfl, rfl⟩
  · intro topic htopic
    exact followed_ignores fun heq => htouched (heq ▸ htopic)

theorem step_followed (hone : OneTransfer w e) (h : Followed id tag w)
    (hstep : step lib w e = some w') : Followed id tag w' := by
  have hmeets : Followed id tag (meets w e) :=
    h.of_frame accounted_meets (List.append_nil _).symm rfl rfl ⟨rfl, rfl⟩
  by_cases htouched : transfer ∈ e.op.touched
  · have hclosed : subscription w.api transfer = none := by
      obtain ⟨op, answers, incoming⟩ := e
      cases op with
      | signAndSendTransfer t tag => exact hone
      | _ => simp [Operation.touched] at htouched
    have hended : EndedIf id tag (meets w e) := by
      intro horderly
      rcases hmeets horderly with hopen | hended
      · cases hclosed.symm.trans hopen.opened
      · exact hended
    have hafter := step_of_triple (ended_preserved lib e.op) (fun _ _ hr => hr) hended hstep
    intro horderly
    exact Or.inr (hafter horderly)
  · exact step_of_triple (followed_preserved lib e.op htouched) (fun _ _ hr => hr) hmeets hstep

end Following

section Sending

variable {lib : Libraries} {log : List Entry} {w w' : World} {callback : Callback} {id : ℤ} {tag : ℕ}

abbrev Unsent (log : List Entry) (w : World) : Prop :=
  Unasked transfer log w

theorem signAndSendTransfer_sends {t : TransferRequest} :
    Triple (Unsent log) (signAndSendTransfer lib t callback)
      (fun _ => Watched (Unsent log) .transactionCompletion) fun _ => Unsent log := by
  have hignores : Ignores (Unsent log) (.keyed .accountNonce t.sender) :=
    unasked_ignores nofun
  apply (preserves_makeSubmission unasked_quiet (fun _ _ _ _ _ h => h) hignores).bind
  intro submission
  apply (watchExtrinsic_triple unasked_quiet ?_).post
  · intro _ w h
    exact h
  · intro _ w h
    exact h.1
  · intro w h
    exact h

def Sent (log : List Entry) (callback : Callback) (w : World) : Prop :=
  Answers log transfer callback w ∧ Watched (Unsent log) .transactionCompletion w ∨ Unsent log w

theorem signAndSendTransfer_sent {t : TransferRequest} :
    Triple (fun w => (Base log w ∧ subscription w.api transfer = none) ∧ Unsent log w)
      (signAndSendTransfer lib t callback) (fun _ => Sent log callback)
      fun _ => Sent log callback := by
  apply (signAndSendTransfer_answers.and signAndSendTransfer_sends).post
  · intro _ w h
    exact Or.inl h
  · intro _ w h
    exact Or.inr h.2

/-- A transfer that was sent is watched, and none of its statuses is missing. -/
theorem followed_of_sent {q : Json} (hanswers : Answers log transfer (.client tag) w')
    (hsent : Watched (Unsent log) .transactionCompletion w')
    (hmem : .subscribed transfer q id ∈ w'.log.drop log.length) : Followed id tag w' := by
  intro horderly
  obtain ⟨u, q₁, id₁, hbase, hawaiting, hu⟩ := hanswers
  obtain ⟨v, q₂, json, ⟨l, hl, hnone⟩, -, hv⟩ := hsent
  have hlog : w'.log = u.log ++ [Entry.subscribed transfer q₁ id₁] := by rw [hu]; rfl
  have hlog' : w'.log = v.log ++ [Entry.subscribed transfer q₂ json.intValue] := by rw [hv]; rfl
  have hentries := List.append_inj' (hlog.symm.trans hlog') rfl
  have hid : id = id₁ := by
    rw [hlog, hentries.1, hl, List.append_assoc, List.drop_left] at hmem
    rcases List.mem_append.1 hmem with hmem | hmem
    · exact absurd ⟨q, id, rfl⟩ (hnone _ hmem)
    · cases List.mem_singleton.1 hmem
      rfl
  subst hid
  rw [hlog] at horderly
  have hfresh : Fresh (u.log ++ [Entry.subscribed transfer q₁ id]) := horderly.toFresh
  have hignores : Ignores (Accounted fun _ => True) transfer := accounted_ignores trivial
  have hcalls : calls id u.log = [] := by
    apply calls_eq_nil
    intro f p hinvoked
    rcases hbase.known.invoked id f p hinvoked with hzero | hgiven
    · exact hfresh.ne_zero hzero
    · exact hfresh.notMem hgiven
  left
  subst hu
  refine ⟨⟨hignores.opened u q₁ id hbase.accounted hfresh,
    ⟨q₁, List.mem_append_right _ List.mem_cons_self⟩, ?_⟩, ?_, ?_⟩
  · rw [hlog, notices_append, calls_append, hcalls, reports_append, horderly.reports_early]
    rfl
  · rw [update_api, subscription_setSubscription_self hfresh.ne_zero]
  · rw [update_api, subscriber_setSubscription]
    exact hawaiting.subscriber fun e he => horderly.addressed e (List.mem_append_left _ he)

end Sending

/-- In a run in which transfers do not overlap, every transfer's function gets the
statuses of its own subscription. -/
theorem statuses_reported (lib : Libraries) (api : Api)
    (hclosed : ∀ topic, subscription api topic = none) (before rest : List Event) (e : Event)
    (t : TransferRequest) (tag : ℕ) (hop : e.op = .signAndSendTransfer t tag) (w₀ w₁ w : World)
    (hbefore : run (step lib) (start api) before = some w₀) (hstep : step lib w₀ e = some w₁)
    (hrest : run (step lib) w₁ rest = some w)
    (hone : Along (step lib) OneTransfer (start api) (before ++ e :: rest))
    (horderly : Orderly w.log) (q : Json) (id : ℤ)
    (hsent : .subscribed transfer q id ∈ w₁.log.drop w₀.log.length) :
    calls id w.log = reports tag (notices id w.log) := by
  have haccounted : Accounted (fun _ => True) w₀ :=
    accounted_of_run (fun topic _ => hclosed topic) (fun _ _ _ _ => trivial) hbefore
  have hknown : Known w₀ := known_of_run hclosed hbefore
  have halong := hone.of_append hbefore
  have hnone : subscription w₀.api transfer = none := by
    have h := halong.1
    unfold OneTransfer at h
    rw [hop] at h
    exact h
  have hbase : Base w₀.log (meets w₀ e) :=
    ⟨accounted_meets haccounted, ⟨hknown.held, hknown.invoked⟩, List.prefix_rfl⟩
  have hunsent : Unsent w₀.log (meets w₀ e) := noneSince_self rfl
  have hperform : perform lib e.op = signAndSendTransfer lib t (.client tag) := by rw [hop]; rfl
  have htriple : Triple
      (fun u => (Base w₀.log u ∧ subscription u.api transfer = none) ∧ Unsent w₀.log u)
      (perform lib e.op) (fun _ => Sent w₀.log (.client tag))
      fun _ => Sent w₀.log (.client tag) := by
    rw [hperform]
    exact signAndSendTransfer_sent
  have hsend : Sent w₀.log (.client tag) w₁ :=
    step_of_triple htriple (fun _ _ hr => hr) ⟨⟨hbase, hnone⟩, hunsent⟩ hstep
  have hfollowed : Followed id tag w₁ := by
    rcases hsend with ⟨hanswers, hwatched⟩ | ⟨l, hl, hnot⟩
    · exact followed_of_sent hanswers hwatched hsent
    · rw [hl, List.drop_left] at hsent
      exact absurd ⟨q, id, rfl⟩ (hnot _ hsent)
  have hend : Followed id tag w := by
    apply run_invariant ?_ hfollowed (halong.2 w₁ hstep) hrest
    intro s e t h hp hs
    exact step_followed hp h hs
  rcases hend horderly with hopen | hended
  · exact hopen.reported
  · exact hended.reported

def firstSent : World := after (start connectedApi) [transferOf 1 6 7]

def extrinsicQueryOf (w : World) : Json :=
  match w.log.getLast? with
  | some (.subscribed _ q _) => q
  | _ => .null

theorem firstSent_run :
    (run (step sampleLibraries) (start connectedApi) [transferOf 1 6 7]).isSome ∧
      .subscribed transfer (extrinsicQueryOf firstSent) 7 ∈
        firstSent.log.drop (start connectedApi).log.length := by
  decide +kernel

theorem step_firstSent :
    step sampleLibraries (start connectedApi) (transferOf 1 6 7) = some firstSent := by
  have hrun : run (step sampleLibraries) (start connectedApi) [transferOf 1 6 7] = some firstSent :=
    run_after _ _ firstSent_run.1
  obtain ⟨w, hw, hrest⟩ := run_cons.1 hrun
  have heq : w = firstSent := Option.some.inj hrest
  rw [heq] at hw
  exact hw

def inTurn : List Event := [statusOf 7 "ready", statusOf 7 "finalized", transferOf 2 8 9]

theorem statuses_reported_in_turn :
    calls 7 (after firstSent inTurn).log = reports 1 (notices 7 (after firstSent inTurn).log) := by
  obtain ⟨hrun, hone, horderly⟩ : (run (step sampleLibraries) firstSent inTurn).isSome ∧
      Along (step sampleLibraries) OneTransfer (start connectedApi)
        ([] ++ transferOf 1 6 7 :: inTurn) ∧
      Orderly (after firstSent inTurn).log := by
    decide +kernel
  exact statuses_reported sampleLibraries connectedApi connectedApi_closed [] inTurn
    (transferOf 1 6 7) _ 1 rfl _ _ _ rfl step_firstSent (run_after _ _ hrun) hone horderly _ 7
    firstSent_run.2

def overlapping : List Event := [transferOf 2 8 9, statusOf 7 "finalized"]

theorem statuses_reported_fails :
    ¬ ∀ lib api, (∀ topic, subscription api topic = none) → ∀ (before rest : List Event) (e : Event)
      t tag, e.op = .signAndSendTransfer t tag → ∀ w₀ w₁ w,
      run (step lib) (start api) before = some w₀ → step lib w₀ e = some w₁ →
      run (step lib) w₁ rest = some w →
      (∀ e' ∈ before ++ e :: rest, (∃ t' tag', e'.op = .signAndSendTransfer t' tag') ∨
        ∃ i message, e'.op = .notify i message) →
      Orderly w.log → ∀ q id, .subscribed transfer q id ∈ w₁.log.drop w₀.log.length →
      calls id w.log = reports tag (notices id w.log) := by
  intro hall
  have hops : ∀ e' ∈ [] ++ transferOf 1 6 7 :: overlapping,
      (∃ t' tag', e'.op = .signAndSendTransfer t' tag') ∨ ∃ i message, e'.op = .notify i message := by
    intro e' he'
    simp only [overlapping, List.nil_append, List.mem_cons, List.not_mem_nil, or_false] at he'
    rcases he' with rfl | rfl | rfl
    · exact Or.inl ⟨_, _, rfl⟩
    · exact Or.inl ⟨_, _, rfl⟩
    · exact Or.inr ⟨_, _, rfl⟩
  obtain ⟨hrun, horderly, hlost⟩ : (run (step sampleLibraries) firstSent overlapping).isSome ∧
      Orderly (after firstSent overlapping).log ∧
      calls 7 (after firstSent overlapping).log ≠
        reports 1 (notices 7 (after firstSent overlapping).log) := by
    decide +kernel
  exact hlost (hall sampleLibraries connectedApi connectedApi_closed [] overlapping
    (transferOf 1 6 7) _ 1 rfl _ _ _ rfl step_firstSent (run_after _ _ hrun) hops horderly _ 7
    firstSent_run.2)

end PolkadotApi.TransferStatus

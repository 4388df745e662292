import PolkadotApi.Reconnection
import PolkadotApi.SubscriptionLedger

set_option autoImplicit false

namespace PolkadotApi.SlotSubscriptions
open StatefulActions MachineModel JsonValues ExtrinsicSubmission StorageKeys Notifications
open Subscriptions SubscriptionFrames CallSpecifications Connection ObjectRuns StepRuns
open SubscriptionLedger Reconnection

section Logs

variable {log log' : List Entry} {id : ℤ} {kind : SlotKind} {topic : Topic} {q message : Json}

/-- A subscription is closed by an unsubscribe request, and that of a transfer by
its final status. -/
def Closed (log : List Entry) (kind : SlotKind) (id : ℤ) : Prop :=
  GivenUp log id ∨
    kind = .transactionCompletion ∧ ∃ message, .handled id message ∈ log ∧ Final message

def IsOpen (log : List Entry) (kind : SlotKind) : Prop :=
  ∃ q id, .subscribed (.slot kind) q id ∈ log ∧ ¬ Closed log kind id

/-- The final status of a transfer is handled before its id has come back. -/
def Early : Entry → Entry → Prop
  | .handled id message, .subscribed _ _ id' => id = id' ∧ Final message
  | _, _ => False

instance : (e e' : Entry) → Decidable (Early e e')
  | .handled id message, .subscribed _ _ id' => inferInstanceAs (Decidable (id = id' ∧ Final message))
  | .handled _ _, .unsubscribed _ _ | .handled _ _, .requested _ | .handled _ _, .handled _ _
  | .handled _ _, .invoked _ _ _ | .subscribed _ _ _, _ | .unsubscribed _ _, _ | .requested _, _
  | .invoked _ _ _, _ => inferInstanceAs (Decidable False)

structure Sound (log : List Entry) : Prop extends Fresh log where
  addressed : ∀ e ∈ log, Addressed e
  timely : log.Pairwise fun e e' => ¬ Early e e'

instance (log : List Entry) : Decidable (Sound log) :=
  decidable_of_iff (Fresh log ∧ (∀ e ∈ log, Addressed e) ∧ log.Pairwise fun e e' => ¬ Early e e')
    ⟨fun h => ⟨h.1, h.2.1, h.2.2⟩, fun h => ⟨h.toFresh, h.addressed, h.timely⟩⟩

theorem Sound.of_append (h : Sound (log ++ log')) : Sound log :=
  ⟨h.toFresh.of_append, fun e he => h.addressed e (List.mem_append_left log' he),
    (List.pairwise_append.1 h.timely).1⟩

theorem Sound.not_final (h : Sound (log ++ [.subscribed topic q id]))
    (hmem : .handled id message ∈ log) : ¬ Final message := by
  intro hfinal
  have hearly := (List.pairwise_append.1 h.timely).2.2 _ hmem _ List.mem_cons_self
  exact hearly ⟨rfl, hfinal⟩

theorem Closed.append (h : Closed log kind id) : Closed (log ++ log') kind id := by
  rcases h with h | ⟨hkind, message, hmem, hfinal⟩
  · exact Or.inl h.append
  · exact Or.inr ⟨hkind, message, List.mem_append_left log' hmem, hfinal⟩

end Logs

section Invariant

variable {w w' : World} {kind : SlotKind} {id : ℤ} {q message : Json}

structure Tidy (w : World) : Prop where
  unfinished : (w.api.slot .transactionCompletion).id ≠ 0 → ∀ message,
    .handled (w.api.slot .transactionCompletion).id message ∈ w.log → ¬ Final message
  filled : ∀ kind, (w.api.slot kind).id ≠ 0 → (w.api.slot kind).subscriber ≠ none
  kept : ∀ kind q id, .subscribed (.slot kind) q id ∈ w.log →
    Closed w.log kind id ∨ (w.api.slot kind).id = id ∨
      kind = .subcribeExtrinsic ∧ (w.api.slot kind).id ≠ 0

def Inv (w : World) : Prop := Accounted (fun _ => True) w ∧ (Sound w.log → Tidy w)

def Plain : Entry → Prop
  | .handled _ _ => False
  | .subscribed (.slot _) _ _ => False
  | _ => True

theorem Tidy.of_append {l : List Entry} (h : Tidy w) (hlog : w'.log = w.log ++ l)
    (hl : ∀ e ∈ l, Plain e) (hid : ∀ kind, (w'.api.slot kind).id = (w.api.slot kind).id)
    (hfilled : ∀ kind, (w.api.slot kind).subscriber ≠ none → (w'.api.slot kind).subscriber ≠ none) :
    Tidy w' := by
  have hold : ∀ e, e ∈ w'.log → ¬ Plain e → e ∈ w.log := by
    intro e he hplain
    rw [hlog] at he
    rcases List.mem_append.1 he with he | he
    · exact he
    · exact absurd (hl e he) hplain
  constructor
  · intro hne message hmem
    rw [hid] at hne hmem
    exact h.unfinished hne message (hold _ hmem fun hp => hp)
  · intro kind hne
    rw [hid] at hne
    exact hfilled kind (h.filled kind hne)
  · intro kind q id hmem
    rw [hid]
    rcases h.kept kind q id (hold _ hmem fun hp => hp) with hc | hkept
    · rw [hlog]
      exact Or.inl hc.append
    · exact Or.inr hkept

theorem Tidy.handle (h : Tidy w) (hledger : Ledger (fun _ => True) w) (hfresh : Fresh w.log)
    (hhandle : handleWsMessage w id message = .ok w') : Tidy w' := by
  obtain ⟨l, hlog, hl⟩ := handleWsMessage_appends hhandle
  have hmem : ∀ e, e ∈ w'.log → e ∈ w.log ∨ e = .handled id message ∨ ∃ f p, e = .invoked id f p := by
    intro e he
    rw [hlog] at he
    rcases List.mem_append.1 he with he | he
    · exact Or.inl he
    · rcases List.mem_cons.1 he with he | he
      · exact Or.inr (Or.inl he)
      · exact Or.inr (Or.inr (hl e he))
  have hsubscribed : ∀ topic q id, .subscribed topic q id ∈ w'.log → .subscribed topic q id ∈ w.log := by
    intro topic q id he
    rcases hmem _ he with he | he | ⟨f, p, he⟩
    · exact he
    · cases he
    · cases he
  rcases handleWsMessage_slot hhandle with ⟨hslot, hnot⟩ | ⟨hroute, hfinal, hslot⟩
  · constructor
    · intro hne m hm hfinal
      rw [hslot] at hne hm
      rcases hmem _ hm with hm | hm | ⟨f, p, hm⟩
      · exact h.unfinished hne m hm hfinal
      · cases hm
        have hid : subscription w.api transfer = some (w.api.slot .transactionCompletion).id := by
          simp [subscription, hne]
        exact hnot ⟨hledger.route_eq hfresh hne hid (by simp), hfinal⟩
      · cases hm
    · intro kind
      rw [hslot]
      exact h.filled kind
    · intro kind q id' he
      rw [hslot]
      rcases h.kept kind q id' (hsubscribed _ q id' he) with hc | hkept
      · rw [hlog]
        exact Or.inl hc.append
      · exact Or.inr hkept
  · have hid : (w.api.slot .transactionCompletion).id = id := route_holds hroute
    have hother : ∀ kind, kind ≠ .transactionCompletion → w'.api.slot kind = w.api.slot kind := by
      intro kind hk
      rw [hslot, Function.update_of_ne hk]
    have hzero : (w'.api.slot .transactionCompletion).id = 0 := by
      rw [hslot, Function.update_self]
    constructor
    · intro hne
      exact absurd hzero hne
    · intro kind hne
      by_cases hk : kind = .transactionCompletion
      · subst kind
        exact absurd hzero hne
      · rw [hother kind hk] at hne ⊢
        exact h.filled kind hne
    · intro kind q id' he
      rcases h.kept kind q id' (hsubscribed _ q id' he) with hc | hkept
      · rw [hlog]
        exact Or.inl hc.append
      · by_cases hk : kind = .transactionCompletion
        · subst kind
          left
          rcases hkept with hkept | ⟨hkind, -⟩
          · refine Or.inr ⟨rfl, message, ?_, hfinal⟩
            rw [← hkept, hid, hlog]
            exact List.mem_append_right w.log List.mem_cons_self
          · cases hkind
        · rw [hother kind hk]
          exact Or.inr hkept

theorem inv_quiet : Quiet Inv := by
  constructor
  · intro w h
    refine ⟨accounted_quiet.popped w h.1, ?_⟩
    intro hsound
    exact (h.2 hsound).of_append (List.append_nil _).symm (by simp) (fun _ => rfl) fun _ hk => hk
  · intro w w' id message h hhandle
    refine ⟨accounted_quiet.handle w w' id message h.1 hhandle, ?_⟩
    intro hsound
    obtain ⟨l, hlog, -⟩ := handleWsMessage_appends hhandle
    rw [hlog] at hsound
    have hbefore := hsound.of_append
    exact (h.2 hbefore).handle (h.1 hbefore.toFresh) hbefore.toFresh hhandle

theorem Inv.of_append {l : List Entry} (h : Inv w) (haccounted : Accounted (fun _ => True) w')
    (hlog : w'.log = w.log ++ l) (hl : ∀ e ∈ l, Plain e)
    (hid : ∀ kind, (w'.api.slot kind).id = (w.api.slot kind).id)
    (hfilled : ∀ kind, (w.api.slot kind).subscriber ≠ none → (w'.api.slot kind).subscriber ≠ none) :
    Inv w' := by
  refine ⟨haccounted, ?_⟩
  intro hsound
  rw [hlog] at hsound
  exact (h.2 hsound.of_append).of_append hlog hl hid hfilled

theorem inv_ignores_keyed (kind : KeyedKind) (key : Str) : Ignores Inv (.keyed kind key) := by
  have hledger : Ignores (Accounted fun _ => True) (.keyed kind key) := accounted_ignores trivial
  refine ⟨⟨?_, ?_, ?_, ?_⟩, ?_⟩
  · intro w h hid
    exact h.of_append (hledger.entry w h.1 hid) (List.append_nil _).symm (by simp) (fun _ => rfl)
      fun _ hk => hk
  · intro w q id h
    apply h.of_append (hledger.opened w q id h.1) rfl ?_ (fun _ => rfl) fun _ hk => hk
    intro e he
    cases List.mem_singleton.1 he
    trivial
  · intro w id method h hne hid
    apply h.of_append (hledger.released w id method h.1 hne hid) rfl ?_ (fun _ => rfl) fun _ hk => hk
    intro e he
    cases List.mem_singleton.1 he
    trivial
  · intro w h hid
    exact h.of_append (hledger.dropped w h.1 hid) (List.append_nil _).symm (by simp) (fun _ => rfl)
      fun _ hk => hk
  · intro w callback h
    exact h.of_append (hledger.callback w callback h.1) (List.append_nil _).symm (by simp)
      (fun _ => rfl) fun _ hk => hk

theorem inv_locals : IgnoresLocals Inv := by
  intro w frames running nonce incoming h
  exact h.of_append (accounted_locals w frames running nonce incoming h.1) (List.append_nil _).symm
    (by simp) (fun _ => rfl) fun _ hk => hk

theorem inv_parameters : IgnoresParameters Inv := by
  intro w api hbest hslot hkeyed h
  apply h.of_append (accounted_parameters w api hbest hslot hkeyed h.1) (List.append_nil _).symm
    (by simp)
  · intro kind
    rw [hslot]
  · intro kind hk
    rw [hslot]
    exact hk

theorem inv_requested (w : World) (q : Json) (h : Inv w) : Inv (w.record (.requested q)) := by
  apply h.of_append (accounted_requested w q h.1) rfl ?_ (fun _ => rfl) fun _ hk => hk
  intro e he
  cases List.mem_singleton.1 he
  trivial

theorem inv_callback (kind : SlotKind) (callback : Callback) (h : Inv w) :
    Inv (w.update (setCallback (.slot kind) callback)) := by
  have hledger : Ignores (Accounted fun _ => True) (.slot kind) := accounted_ignores trivial
  have hself : ((setCallback (.slot kind) callback w.api).slot kind) =
      { w.api.slot kind with subscriber := some callback } := setSlot_self
  have hother : ∀ k, k ≠ kind → (setCallback (.slot kind) callback w.api).slot k = w.api.slot k :=
    fun k hk => setSlot_of_ne hk _
  apply h.of_append (hledger.callback w callback h.1) (List.append_nil _).symm (by simp)
  · intro k
    rw [update_api]
    by_cases hk : k = kind
    · rw [hk, hself]
    · rw [hother k hk]
  · intro k hfilled
    rw [update_api]
    by_cases hk : k = kind
    · rw [hk, hself]
      simp
    · rw [hother k hk]
      exact hfilled

theorem inv_opened (h : Inv w) (hfilled : Sound w.log → (w.api.slot kind).subscriber ≠ none)
    (hclosed : kind ≠ .subcribeExtrinsic → (w.api.slot kind).id = 0) :
    Inv ((w.record (.subscribed (.slot kind) q id)).update (setSubscription (.slot kind) id)) := by
  have hledger : Ignores (Accounted fun _ => True) (.slot kind) := accounted_ignores trivial
  refine ⟨hledger.opened w q id h.1, ?_⟩
  intro hsound
  have hsound : Sound (w.log ++ [Entry.subscribed (.slot kind) q id]) := hsound
  have hbefore := hsound.of_append
  have htidy := h.2 hbefore
  have hself : (setSubscription (.slot kind) id w.api).slot kind = { w.api.slot kind with id := id } :=
    setSlot_self
  have hother : ∀ k, k ≠ kind → (setSubscription (.slot kind) id w.api).slot k = w.api.slot k :=
    fun k hk => setSlot_of_ne hk _
  constructor
  · rw [update_api, record_api, update_log, record_log]
    intro hne message hmem
    have hold : ∀ id', Entry.handled id' message ∈ w.log ++ [Entry.subscribed (.slot kind) q id] →
        Entry.handled id' message ∈ w.log := by
      intro id' hid'
      rcases List.mem_append.1 hid' with hid' | hid'
      · exact hid'
      · cases List.mem_singleton.1 hid'
    by_cases hk : SlotKind.transactionCompletion = kind
    · rw [hk, hself] at hmem
      exact hsound.not_final (hold id hmem)
    · rw [hother _ hk] at hne hmem
      exact htidy.unfinished hne message (hold _ hmem)
  · rw [update_api, record_api]
    intro k hne
    by_cases hk : k = kind
    · rw [hk, hself]
      exact hfilled hbefore
    · rw [hother k hk] at hne ⊢
      exact htidy.filled k hne
  · rw [update_api, record_api, update_log, record_log]
    intro k q' id' hmem
    rcases List.mem_append.1 hmem with hmem | hmem
    · rcases htidy.kept k q' id' hmem with hc | hkept
      · exact Or.inl hc.append
      · right
        by_cases hk : k = kind
        · subst k
          rw [hself]
          rcases hkept with hkept | hkept
          · by_cases hext : kind = .subcribeExtrinsic
            · exact Or.inr ⟨hext, Fresh.ne_zero hsound.toFresh⟩
            · have hzero : id' = 0 := hkept.symm.trans (hclosed hext)
              have hgiven := mem_subscribedIds.2 ⟨_, q', hmem⟩
              exact absurd hzero (hbefore.nonzero id' hgiven)
          · exact Or.inr ⟨hkept.1, Fresh.ne_zero hsound.toFresh⟩
        · rw [hother k hk]
          exact hkept
    · cases List.mem_singleton.1 hmem
      rw [hself]
      exact Or.inr (Or.inl rfl)

theorem inv_released {method : Str} (hkind : kind ≠ .subcribeExtrinsic) (h : Inv w) (hne : id ≠ 0)
    (hid : subscription w.api (.slot kind) = some id) :
    Inv ((w.record (.unsubscribed id method)).update (release (.slot kind))) := by
  have hledger : Ignores (Accounted fun _ => True) (.slot kind) := accounted_ignores trivial
  refine ⟨hledger.released w id method h.1 hne hid, ?_⟩
  intro hsound
  have hsound : Sound (w.log ++ [Entry.unsubscribed id method]) := hsound
  have htidy := h.2 hsound.of_append
  have hslot : (w.api.slot kind).id = id := holds_of_subscription hid
  have hself : (release (.slot kind) w.api).slot kind = ⟨none, 0⟩ := setSlot_self
  have hother : ∀ k, k ≠ kind → (release (.slot kind) w.api).slot k = w.api.slot k :=
    fun k hk => setSlot_of_ne hk _
  have hold : ∀ e : Entry, e ∈ w.log ++ [Entry.unsubscribed id method] →
      e ≠ .unsubscribed id method → e ∈ w.log := by
    intro e he hne
    rcases List.mem_append.1 he with he | he
    · exact he
    · exact absurd (List.mem_singleton.1 he) hne
  constructor
  · rw [update_api, record_api, update_log, record_log]
    intro hne message hmem
    by_cases hk : SlotKind.transactionCompletion = kind
    · rw [hk, hself] at hne
      exact absurd rfl hne
    · rw [hother _ hk] at hne hmem
      exact htidy.unfinished hne message (hold _ hmem (by simp))
  · rw [update_api, record_api]
    intro k hne
    by_cases hk : k = kind
    · rw [hk, hself] at hne
      exact absurd rfl hne
    · rw [hother k hk] at hne ⊢
      exact htidy.filled k hne
  · rw [update_api, record_api, update_log, record_log]
    intro k q' id' hmem
    rcases htidy.kept k q' id' (hold _ hmem (by simp)) with hc | hkept
    · exact Or.inl hc.append
    · by_cases hk : k = kind
      · subst k
        left
        rcases hkept with hkept | hkept
        · rw [← hkept, hslot]
          exact Or.inl ⟨method, List.mem_append_right w.log List.mem_cons_self⟩
        · exact absurd hkept.1 hkind
      · rw [hother k hk]
        exact Or.inr hkept

end Invariant

end PolkadotApi.SlotSubscriptions

import PolkadotApi.ObjectRuns

set_option autoImplicit false

namespace PolkadotApi.Reconnection
open StatefulActions MachineModel JsonValues StorageKeys Subscriptions SubscriptionFrames
open CallSpecifications ObjectRuns StepRuns

def target : Operation → Option Topic
  | .subscribeBlockNumber _ => some (.slot .blockNumber)
  | .subscribeFinalizedBlock _ => some (.slot .finalizedBlock)
  | .subscribeRuntimeVersion _ => some (.slot .runtimeVersion)
  | .subscribeEraAndSession _ => some (.slot .eraAndSession)
  | .subscribeBalance address _ => some (.keyed .balance address)
  | .subscribeAccountNonce address _ => some (.keyed .accountNonce address)
  | .subscribeStorage key _ => some (.keyed .storage key)
  | _ => none

/-- A `disconnect`, and later a `connect` that finds the node. -/
def reconnect (between : List Event) (answers : List Answer) (incoming : List (ℤ × Json))
    (last : List Event) : List Event :=
  { op := .disconnect } :: between ++ ⟨.connect PAPI_OK, answers, incoming⟩ :: last

/-- A subscribe request for the topic was sent after `before`. -/
def Sends (topic : Topic) (before after : World) : Prop :=
  ∃ q id, .subscribed topic q id ∈ after.log.drop before.log.length

section Requests

variable {lib : Libraries} {topic : Topic} {s : Option ℤ} {w w' : World} {log : List Entry}

def Subscribes (topic : Topic) (e : Entry) : Prop := ∃ q id, e = .subscribed topic q id

abbrev Unasked (topic : Topic) (log : List Entry) : World → Prop := NoneSince (Subscribes topic) log

theorem unasked_quiet : Quiet (Unasked topic log) := by
  apply noneSince_quiet
  rintro e ⟨q, id, rfl⟩
  rfl

theorem unasked_ignores {t : Topic} (h : topic ≠ t) : Ignores (Unasked topic log) t := by
  apply noneSince_ignores
  · rintro q id ⟨q', id', he⟩
    exact h (Entry.subscribed.inj he).1.symm
  · rintro id method ⟨q, id', he⟩
    cases he

/-- What a subscribe call for a topic has sent: nothing if there was a subscription,
else one request. -/
def Asked (topic : Topic) (opened : Bool) (log : List Entry) (w' : World) : Prop :=
  if opened then Unasked topic log w'
  else ∃ w q id, Unasked topic log w ∧ w'.log = w.log ++ [.subscribed topic q id]

theorem Asked.sends_iff {opened : Bool} (h : Asked topic opened w.log w') :
    Sends topic w w' ↔ opened = false := by
  cases opened with
  | true =>
    obtain ⟨l, hl, hnone⟩ := h
    refine iff_of_false ?_ (by simp)
    rintro ⟨q, id, hmem⟩
    rw [hl, List.drop_left] at hmem
    exact hnone _ hmem ⟨q, id, rfl⟩
  | false =>
    obtain ⟨w₁, q, id, ⟨l, hl, -⟩, hlog⟩ := h
    refine iff_of_true ⟨q, id, ?_⟩ rfl
    rw [hlog, hl, List.append_assoc, List.drop_left]
    exact List.mem_append_right l (List.mem_singleton.2 rfl)

def Before (topic : Topic) (opened : Bool) (log : List Entry) (w : World) : Prop :=
  Unasked topic log w ∧ (subscription w.api topic).isSome = opened

theorem asked_of_opened {kind : SlotKind} {opened : Bool}
    (h : Opened (Before (.slot kind) opened log) (.slot kind) w) :
    Asked (.slot kind) opened log w := by
  rcases h with ⟨⟨hlog, hopened⟩, hopen⟩ | ⟨w₁, q, json, ⟨hlog, hopened⟩, hclosed, -, rfl⟩
  · rw [Option.isSome_iff_ne_none.2 hopen] at hopened
    subst hopened
    exact hlog
  · rw [slot_closed_iff.1 hclosed] at hopened
    subst hopened
    exact ⟨w₁, q, json.intValue, hlog, rfl⟩

theorem before_quiet {opened : Bool} (htopic : topic ≠ .slot .transactionCompletion) :
    Quiet (Before topic opened log) :=
  unasked_quiet.and (quiet_view (F := fun id _ => id.isSome = opened) htopic)

theorem before_meets {opened : Bool} {e : Event} (h : (subscription w.api topic).isSome = opened) :
    Before topic opened w.log (meets w e) :=
  ⟨noneSince_self rfl, h⟩

theorem before_setCallback {opened : Bool} (t : Topic) (callback : Callback)
    (h : Before topic opened log w) : Before topic opened log (w.update (setCallback t callback)) :=
  ⟨h.1, (congrArg Option.isSome subscription_setCallback).trans h.2⟩

theorem subscribeSlot_asked {kind : SlotKind} {q : Api → Json} {callback : Callback} {opened : Bool}
    (hkind : kind ≠ .transactionCompletion) :
    Triple (Before (.slot kind) opened log) (subscribeSlot kind q callback)
      (fun _ => Asked (.slot kind) opened log) fun _ _ => True := by
  have htopic : Topic.slot kind ≠ .slot .transactionCompletion := fun h => hkind (Topic.slot.inj h)
  exact (subscribeSlot_triple (before_quiet htopic) fun w hw => before_setCallback _ _ hw).post
    (fun _ _ => asked_of_opened) fun _ _ _ => trivial

theorem subscribeKeyed_asked {kind : KeyedKind} {key : Str} {storageKey : Api → Result Str}
    {callback : Callback} {opened : Bool} :
    Triple (Before (.keyed kind key) opened log) (subscribeKeyed kind storageKey key callback)
      (fun _ => Asked (.keyed kind key) opened log) fun _ _ => True := by
  have hset : ∀ w, Unasked (.keyed kind key) log w →
      Unasked (.keyed kind key) log (w.update (setCallback (.keyed kind key) callback)) :=
    fun _ hw => hw
  cases opened with
  | true =>
    apply ((subscribeKeyed_open_triple hset).post ?_ fun _ _ h => h.elim).pre
    · rintro w ⟨hw, hopen⟩
      exact ⟨hw, Option.isSome_iff_ne_none.1 hopen⟩
    · intro _ w h
      exact h.1
  | false =>
    apply ((subscribeKeyed_new_triple unasked_quiet (fun _ hw _ => hw) hset).post ?_
      fun _ _ _ => trivial).pre
    · rintro w ⟨hw, hclosed⟩
      exact ⟨hw, Option.isNone_iff_eq_none.1 (by simpa using hclosed)⟩
    · rintro _ _ ⟨w, q, json, hw, -, -, rfl⟩
      exact ⟨w, q, json.intValue, hw, rfl⟩

theorem subscribeEraAndSession_asked {callback : Callback} {opened : Bool} :
    Triple (Before (.slot .eraAndSession) opened log) (subscribeEraAndSession callback)
      (fun _ => Asked (.slot .eraAndSession) opened log) fun _ _ => True := by
  have hquiet : Quiet (Before (.slot .eraAndSession) opened log) := before_quiet (by decide)
  have hignores : Ignores (Before (.slot .eraAndSession) opened log) (.slot .blockNumber) := by
    have hview := ignores_of_ne (F := fun id _ => id.isSome = opened)
      (show Topic.slot .eraAndSession ≠ .slot .blockNumber by decide)
    have hlog : Ignores (Unasked (.slot .eraAndSession) log) (.slot .blockNumber) :=
      unasked_ignores (by decide)
    exact ⟨hlog.toKeeps.and hview.toKeeps,
      fun w f h => ⟨hlog.callback w f h.1, hview.callback w f h.2⟩⟩
  apply Triple.bind (Q := fun _ => Before (.slot .eraAndSession) opened log)
  · exact triple_modify fun w hw => before_setCallback (.slot .eraAndSession) callback hw
  intro _
  apply Triple.bind (Q := fun _ => Before (.slot .eraAndSession) opened log)
  · exact (preserves_subscribeSlot hquiet hignores).post (fun _ _ h => h) fun _ _ _ => trivial
  intro _
  apply Triple.bind (Q := fun _ => Asked (.slot .eraAndSession) opened log)
  · exact (openSlot_triple hquiet _ _).post (fun _ _ => asked_of_opened) fun _ _ _ => trivial
  · intro _
    exact triple_pure fun _ h => h

theorem perform_asked {op : Operation} {opened : Bool} (h : target op = some topic) :
    Triple (Before topic opened log) (perform lib op) (fun _ => Asked topic opened log)
      fun _ _ => True := by
  cases op with
  | subscribeEraAndSession tag =>
    cases h
    exact triple_discard subscribeEraAndSession_asked
  | subscribeBlockNumber tag | subscribeFinalizedBlock tag | subscribeRuntimeVersion tag =>
    cases h
    exact triple_discard (subscribeSlot_asked (by decide))
  | subscribeBalance address tag | subscribeAccountNonce address tag | subscribeStorage key tag =>
    cases h
    exact triple_discard subscribeKeyed_asked
  | _ => cases h

theorem target_ne_transfer {op : Operation} (h : target op = some topic) :
    topic ≠ .slot .transactionCompletion := by
  intro ht
  subst ht
  cases op <;> cases h

end Requests

/-- A subscribe call after a reconnect sends a request exactly when the object has
no id for the topic. Only calls on the topic change whether it has one: without
them it still has the id from before the disconnect. -/
theorem subscribe_after_reconnect_iff (lib : Libraries) (w w₁ w₂ : World) (between last : List Event)
    (answers : List Answer) (incoming : List (ℤ × Json)) (e : Event) (topic : Topic)
    (htarget : target e.op = some topic)
    (hrun : run (step lib) w (reconnect between answers incoming last) = some w₁)
    (hcall : (perform lib e.op).run (meets w₁ e) = .ok () w₂) :
    (Sends topic w₁ w₂ ↔ subscription w₁.api topic = none) ∧
      ((∀ e ∈ between ++ last, topic ∉ e.op.touched) →
        (Sends topic w₁ w₂ ↔ subscription w.api topic = none)) := by
  have hasked := (perform_asked htarget).of_ok (before_meets rfl) hcall
  have hsends : Sends topic w₁ w₂ ↔ subscription w₁.api topic = none := by
    rw [hasked.sends_iff, Option.isSome_eq_false_iff, Option.isNone_iff_eq_none]
  refine ⟨hsends, ?_⟩
  intro hothers
  have huntouched : ∀ e ∈ reconnect between answers incoming last, topic ∉ e.op.touched := by
    intro e he
    simp only [reconnect, List.cons_append, List.mem_cons, List.mem_append] at he
    rcases he with rfl | he | rfl | he
    · simp [Operation.touched]
    · exact hothers e (List.mem_append_left last he)
    · simp [Operation.touched]
    · exact hothers e (List.mem_append_right between he)
  rw [hsends, run_untouched (target_ne_transfer htarget) huntouched hrun]

def subscribeFinalized (id : ℤ) : Event where
  op := .subscribeFinalizedBlock 1
  answers := [answered id]

def reconnectPlain : List Event := reconnect [] (connectTo plainChain).answers [] []

theorem subscribe_after_reconnect_iff_closed :
    run (step sampleLibraries) (start connectedApi) reconnectPlain =
        some (after (start connectedApi) reconnectPlain) ∧
      Sends (.slot .finalizedBlock) (after (start connectedApi) reconnectPlain)
        (final (perform sampleLibraries (subscribeFinalized 6).op)
          (meets (after (start connectedApi) reconnectPlain) (subscribeFinalized 6))) := by
  have hrun := run_after (start connectedApi) reconnectPlain (by decide +kernel)
  have hcall : result (perform sampleLibraries (subscribeFinalized 6).op)
      (meets (after (start connectedApi) reconnectPlain) (subscribeFinalized 6)) = some () := by
    decide +kernel
  have hiff := (subscribe_after_reconnect_iff sampleLibraries (start connectedApi) _ _ [] [] _ []
    (subscribeFinalized 6) (.slot .finalizedBlock) rfl hrun (run_of_result hcall)).2
  exact ⟨hrun, (hiff (by simp)).2 (by decide +kernel)⟩

def watching : World :=
  after (start connectedApi) [subscribeFinalized 5]

theorem subscribe_after_reconnect_fails :
    ¬ ∀ lib w w₁ w₂ between last answers incoming e topic, target e.op = some topic →
      run (step lib) w (reconnect between answers incoming last) = some w₁ →
      (perform lib e.op).run (meets w₁ e) = .ok () w₂ →
      (∀ e ∈ between ++ last, topic ∉ e.op.touched) → Sends topic w₁ w₂ := by
  intro hall
  obtain ⟨hsome, hcall, hnothing⟩ : (run (step sampleLibraries) watching reconnectPlain).isSome ∧
      result (perform sampleLibraries (subscribeFinalized 6).op)
        (meets (after watching reconnectPlain) (subscribeFinalized 6)) = some () ∧
      (final (perform sampleLibraries (subscribeFinalized 6).op)
        (meets (after watching reconnectPlain) (subscribeFinalized 6))).log.drop
          (after watching reconnectPlain).log.length = [] := by
    decide +kernel
  have hrun := run_after watching reconnectPlain hsome
  obtain ⟨q, id, hmem⟩ := hall sampleLibraries watching _ _ [] [] _ [] (subscribeFinalized 6)
    (.slot .finalizedBlock) rfl hrun (run_of_result hcall) (by simp)
  rw [hnothing] at hmem
  cases hmem

end PolkadotApi.Reconnection

import PolkadotApi.SubscriptionDeliveryProgress

set_option autoImplicit false

namespace PolkadotApi.SubscriptionDelivery
open StepRuns StreamReader BoundedBuffer MachineModel JsonValues ConcurrentMapQueue QueueLaws
open JsonRpcThreads

variable {jsonrpcVersion : Str} {st next : State}

def Observes (calls : List Call) (s : ℤ) (observer : ℕ) : Prop :=
  ∃ (i : ℕ) (c : Call) (jsonMap : Json), calls[i]? = some c ∧
    c.task = .subscribeWs jsonMap observer ∧ obtained c.pc = some s

structure Watched (st : State) : Prop where
  started : ∀ (j : ℕ) (c : Consumer), st.consumers[j]? = some c →
    ∃ d, st.calls[c.startedBy]? = some d ∧ obtained d.pc = some c.subscriptionId ∧
      isSubscribed d.pc = true
  once : ∀ (j k : ℕ) (c d : Consumer), st.consumers[j]? = some c → st.consumers[k]? = some d →
    c.startedBy = d.startedBy → j = k
  observed : ∀ s observer, st.wsSubscribers s = some observer → Observes st.calls s observer
  handed : ∀ s, ∀ x ∈ st.handed s, Observes st.calls s x.1

theorem Observes.mono {s : ℤ} {observer : ℕ} (h : Observes st.calls s observer)
    (hx : Extends st next) : Observes next.calls s observer := by
  obtain ⟨i, c, jsonMap, hc, htask, hs⟩ := h
  obtain ⟨d, hd, hl⟩ := hx.calls i c hc
  exact ⟨i, d, jsonMap, hd, hl.task.trans htask, hl.keeps s hs⟩

theorem Watched.keep (h : Watched st) (hx : Extends st next)
    (hcons : ∀ (j : ℕ) (d : Consumer), next.consumers[j]? = some d →
      ∃ c, st.consumers[j]? = some c ∧ d.subscriptionId = c.subscriptionId ∧
        d.startedBy = c.startedBy)
    (hsub : ∀ s observer, next.wsSubscribers s = some observer →
      st.wsSubscribers s = some observer ∨ Observes next.calls s observer)
    (hhand : ∀ s, ∀ x ∈ next.handed s, x ∈ st.handed s ∨ Observes next.calls s x.1) :
    Watched next := by
  constructor
  · intro j d hd
    obtain ⟨c, hc, hs, hi⟩ := hcons j d hd
    obtain ⟨e, he, hobt, hsubscribed⟩ := h.started j c hc
    obtain ⟨f, hf, hl⟩ := hx.calls _ e he
    rw [hs, hi]
    exact ⟨f, hf, hl.keeps _ hobt, hl.subscribed hsubscribed⟩
  · intro j k c d hc hd hcd
    obtain ⟨e, he, -, hce⟩ := hcons j c hc
    obtain ⟨f, hf, -, hdf⟩ := hcons k d hd
    exact h.once j k e f he hf (by rw [← hce, ← hdf, hcd])
  · intro s observer hs
    rcases hsub s observer hs with hs | hs
    · exact (h.observed s observer hs).mono hx
    · exact hs
  · intro s x hxs
    rcases hhand s x hxs with hs | hs
    · exact (h.handed s x hs).mono hx
    · exact hs

theorem Watched.same (h : Watched st) (hx : Extends st next)
    (hcons : next.consumers = st.consumers) (hsub : next.wsSubscribers = st.wsSubscribers)
    (hhand : next.handed = st.handed) : Watched next := by
  apply h.keep hx
  · rw [hcons]
    exact fun j d hd => ⟨d, hd, rfl, rfl⟩
  · rw [hsub]
    exact fun s observer hs => Or.inl hs
  · rw [hhand]
    exact fun s x hs => Or.inl hs

theorem Watched.call (h : Watched st) (hx : Extends st next) {i : ℕ} {c : Call}
    (here : st.calls[i]? = some c) (hm : CallMove jsonrpcVersion st i c next) : Watched next := by
  have hlt := (List.getElem?_eq_some_iff.1 here).1
  cases hm with
  | @observe id result jsonMap observer pc task =>
    apply h.keep hx
    · exact fun j d hd => ⟨d, hd, rfl, rfl⟩
    · intro s o hs
      by_cases he : s = result.intValue
      · subst s
        have ho : observer = o := by
          change Function.update st.wsSubscribers _ _ _ = some o at hs
          rw [Function.update_self] at hs
          exact Option.some.inj hs
        subst o
        exact Or.inr ⟨i, _, jsonMap, List.getElem?_set_self hlt, task, rfl⟩
      · left
        change Function.update st.wsSubscribers _ _ _ = some o at hs
        rwa [Function.update_of_ne he] at hs
    · exact fun s x hs => Or.inl hs
  | @forget id s result method pc task =>
    apply h.keep hx
    · exact fun j d hd => ⟨d, hd, rfl, rfl⟩
    · intro s' o hs
      left
      change Function.update st.wsSubscribers _ _ _ = some o at hs
      by_cases he : s' = s
      · subst s'
        rw [Function.update_self] at hs
        cases hs
      · rwa [Function.update_of_ne he] at hs
    · exact fun s x hs => Or.inl hs
  | @start id s pc =>
    have hnew : ∀ (k : ℕ) (d : Consumer), st.consumers[k]? = some d → d.startedBy ≠ i := by
      rintro k d hd rfl
      obtain ⟨e, he, -, hsub⟩ := h.started k d hd
      cases here.symm.trans he
      rw [pc] at hsub
      cases hsub
    constructor
    · intro j d hd
      rcases getElem?_concat_cases hd with hd | ⟨rfl, rfl⟩
      · obtain ⟨e, he, hobt, hsub⟩ := h.started j d hd
        obtain ⟨f, hf, hl⟩ := hx.calls _ e he
        exact ⟨f, hf, hl.keeps _ hobt, hl.subscribed hsub⟩
      · exact ⟨_, List.getElem?_set_self hlt, rfl, rfl⟩
    · intro j k d e hd he hde
      rcases getElem?_concat_cases hd with hd | ⟨rfl, rfl⟩
      · rcases getElem?_concat_cases he with he | ⟨rfl, rfl⟩
        · exact h.once j k d e hd he hde
        · exact absurd hde (hnew j d hd)
      · rcases getElem?_concat_cases he with he | ⟨rfl, rfl⟩
        · exact absurd hde.symm (hnew k e he)
        · rfl
    · intro s observer hs
      exact (h.observed s observer hs).mono hx
    · intro s x hs
      exact (h.handed s x hs).mono hx
  | _ => exact h.same hx rfl rfl rfl

theorem Watched.move (h : Watched st) (hm : Move jsonrpcVersion st next) : Watched next := by
  have hx := Move.extends hm
  cases hm with
  | call here hc => exact h.call hx here hc
  | socket hs =>
    cases hs with
    | notify pc =>
      revert hx
      unfold notifyAll
      split <;> exact fun hx => h.same hx rfl rfl rfl
    | _ => exact h.same hx rfl rfl rfl
  | @consumer j c _ here hc =>
    have hset : ∀ pc (k : ℕ) (d : Consumer), (st.consumers.set j { c with pc })[k]? = some d →
        ∃ e, st.consumers[k]? = some e ∧ d.subscriptionId = e.subscriptionId ∧
          d.startedBy = e.startedBy := by
      intro pc k d hd
      rcases getElem?_set_cases hd with ⟨rfl, rfl⟩ | ⟨-, hd⟩
      · exact ⟨c, here, rfl, rfl⟩
      · exact ⟨d, hd, rfl, rfl⟩
    cases hc with
    | advance => exact h.same hx rfl rfl rfl
    | @hand json observer pc present =>
      refine h.keep hx (hset _) (fun s o hs => Or.inl hs) ?_
      intro s x hs
      by_cases he : s = c.subscriptionId
      · subst s
        change x ∈ Function.update st.handed _ _ _ at hs
        rw [Function.update_self] at hs
        rcases List.mem_append.1 hs with hs | hs
        · exact Or.inl hs
        · rw [List.mem_singleton.1 hs]
          exact Or.inr ((h.observed _ observer present).mono hx)
      · left
        change x ∈ Function.update st.handed _ _ _ at hs
        rwa [Function.update_of_ne he] at hs
    | _ => exact h.keep hx (hset _) (fun s o hs => Or.inl hs) (fun s x hs => Or.inl hs)
  | _ => exact h.same hx rfl rfl rfl

end PolkadotApi.SubscriptionDelivery

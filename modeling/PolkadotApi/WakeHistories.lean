import PolkadotApi.RequestReplies

set_option autoImplicit false

namespace PolkadotApi.WakeHistories
open StepRuns MachineModel JsonValues JsonRpcThreads RequestReplies

variable {jsonrpcVersion : Str} {st next : State} {past : List Event} {e : Event}

def leftWait : CallPc → Bool
  | .enter => false
  | .sending _ => false
  | .waiting _ _ => false
  | _ => true

structure Wakes (past : List Event) (calls : List Call) : Prop where
  left : ∀ i why, .wake i why ∈ past → ∃ c ∈ calls[i]?, leftWait c.pc = true
  once : ∀ i why why', .wake i why ∈ past → .wake i why' ∈ past → why = why'
  woken : ∀ (i : ℕ) (c : Call) id, calls[i]? = some c → c.pc = .woken id →
    ∃ why, .wake i why ∈ past

theorem mem_of_concat {i : ℕ} {why : Wake} (h : .wake i why ∈ past ++ [e])
    (he : e ≠ .wake i why) : .wake i why ∈ past := by
  rcases List.mem_append.1 h with h | h
  · exact h
  · exact absurd (List.mem_singleton.1 h).symm he

theorem Wakes.other {calls calls' : List Call} (h : Wakes past calls)
    (he : ∀ i why, e ≠ .wake i why)
    (hleft : ∀ (i : ℕ) (c : Call), calls[i]? = some c → leftWait c.pc = true →
      ∃ d ∈ calls'[i]?, leftWait d.pc = true)
    (hwoken : ∀ (i : ℕ) (d : Call) id, calls'[i]? = some d → d.pc = .woken id →
      calls[i]? = some d) :
    Wakes (past ++ [e]) calls' := by
  constructor
  · intro i why hmem
    obtain ⟨c, hc, hout⟩ := h.left i why (mem_of_concat hmem (he i why))
    exact hleft i c hc hout
  · intro i why why' hmem hmem'
    exact h.once i why why' (mem_of_concat hmem (he i why)) (mem_of_concat hmem' (he i why'))
  · intro i d id hd hpc
    obtain ⟨why, hmem⟩ := h.woken i d id (hwoken i d id hd hpc) hpc
    exact ⟨why, List.mem_append_left _ hmem⟩

theorem Wakes.same {calls : List Call} (h : Wakes past calls) (he : ∀ i why, e ≠ .wake i why) :
    Wakes (past ++ [e]) calls :=
  h.other he (fun _ c hc hout => ⟨c, hc, hout⟩) fun _ _ _ hd _ => hd

theorem Wakes.set {calls : List Call} (h : Wakes past calls) (he : ∀ i why, e ≠ .wake i why)
    {i : ℕ} {c d : Call} {calls' : List Call} (here : calls[i]? = some c)
    (hcalls : calls' = calls.set i d) (hleft : leftWait c.pc = true → leftWait d.pc = true)
    (hwoken : ∀ id, d.pc ≠ .woken id) : Wakes (past ++ [e]) calls' := by
  subst hcalls
  refine h.other he ?_ ?_
  · intro j c' hc' hout
    by_cases hij : i = j
    · subst hij
      cases here.symm.trans hc'
      exact ⟨d, List.getElem?_set_self (List.getElem?_eq_some_iff.1 here).1, hleft hout⟩
    · exact ⟨c', (List.getElem?_set_ne hij).trans hc', hout⟩
  · intro j d' id hd' hpc
    rcases getElem?_set_cases hd' with ⟨_, rfl⟩ | ⟨_, hd'⟩
    · exact absurd hpc (hwoken id)
    · exact hd'

theorem Wakes.call (h : Wakes past st.calls) {i : ℕ} {c : Call} (here : st.calls[i]? = some c)
    (hm : CallMove jsonrpcVersion st i c next) : Wakes (past ++ [.call i]) next.calls := by
  have he : ∀ j why, Event.call i ≠ .wake j why := by rintro _ _ ⟨⟩
  cases hm with
  | advance => exact h.same he
  | register pc => exact h.set he here rfl (by rw [pc]; rintro ⟨⟩) (by rintro _ ⟨⟩)
  | send pc => exact h.set he here rfl (by rw [pc]; rintro ⟨⟩) (by rintro _ ⟨⟩)
  | _ => exact h.set he here rfl (fun _ => rfl) (by rintro _ ⟨⟩)

theorem Wakes.socket (h : Wakes past st.calls) (hm : SocketMove st next) :
    Wakes (past ++ [.socket]) next.calls := by
  have he : ∀ j why, Event.socket ≠ .wake j why := by rintro _ _ ⟨⟩
  cases hm with
  | notify =>
    unfold notifyAll
    split
    · next here => exact h.set he here rfl (by rintro ⟨⟩) (by rintro _ ⟨⟩)
    · exact h.same he
  | _ => exact h.same he

/-- A call waits once, so it is woken once. -/
theorem Wakes.wake (h : Wakes past st.calls) {i : ℕ} {c : Call} {id : ℤ} {notified : Bool}
    (why : Wake) (here : st.calls[i]? = some c) (pc : c.pc = .waiting id notified) :
    Wakes (past ++ [.wake i why]) (st.calls.set i { c with pc := .woken id }) := by
  have hnow : (st.calls.set i { c with pc := .woken id })[i]? = some { c with pc := .woken id } :=
    List.getElem?_set_self (List.getElem?_eq_some_iff.1 here).1
  have hfirst : ∀ why', .wake i why' ∉ past := by
    intro why' hmem
    obtain ⟨d, hd, hout⟩ := h.left i why' hmem
    cases here.symm.trans hd
    rw [pc] at hout
    cases hout
  have hold : ∀ j why', .wake j why' ∈ past ++ [.wake i why] → j ≠ i → .wake j why' ∈ past := by
    intro j why' hmem hne
    refine mem_of_concat hmem ?_
    rintro ⟨⟩
    exact hne rfl
  have hlast : ∀ why', .wake i why' ∈ past ++ [.wake i why] → why' = why := by
    intro why' hmem
    rcases List.mem_append.1 hmem with hmem | hmem
    · exact absurd hmem (hfirst why')
    · cases List.mem_singleton.1 hmem
      rfl
  constructor
  · intro j why' hmem
    by_cases hij : j = i
    · subst hij
      exact ⟨_, hnow, rfl⟩
    · obtain ⟨d, hd, hout⟩ := h.left j why' (hold j why' hmem hij)
      exact ⟨d, (List.getElem?_set_ne (Ne.symm hij)).trans hd, hout⟩
  · intro j why' why'' hmem hmem'
    by_cases hij : j = i
    · subst hij
      rw [hlast why' hmem, hlast why'' hmem']
    · exact h.once j why' why'' (hold j why' hmem hij) (hold j why'' hmem' hij)
  · intro j d k hd hpc
    rcases getElem?_set_cases hd with ⟨rfl, _⟩ | ⟨_, hd⟩
    · exact ⟨why, List.mem_append_right _ (List.mem_singleton_self _)⟩
    · obtain ⟨why', hmem⟩ := h.woken j d k hd hpc
      exact ⟨why', List.mem_append_left _ hmem⟩

theorem Wakes.step (h : Wakes past st.calls) (hst : step jsonrpcVersion st e = some next) :
    Wakes (past ++ [e]) next.calls := by
  cases e with
  | begin task =>
    cases hst
    refine h.other (by rintro _ _ ⟨⟩) ?_ ?_
    · intro i c hc hout
      exact ⟨c, (List.getElem?_append_left (List.getElem?_eq_some_iff.1 hc).1).trans hc, hout⟩
    · intro i d id hd hpc
      rcases getElem?_concat_cases hd with hd | ⟨_, rfl⟩
      · exact hd
      · cases hpc
  | link up =>
    cases hst
    exact h.same (by rintro _ _ ⟨⟩)
  | call i =>
    obtain ⟨c, here, hst⟩ := Option.bind_eq_some_iff.1 hst
    exact h.call here (callStep_move hst)
  | wake i why =>
    obtain ⟨c, here, hst⟩ := Option.bind_eq_some_iff.1 hst
    obtain ⟨id, notified, pc, rfl⟩ := wakeStep_eq_some hst
    exact h.wake why here pc
  | receive json =>
    obtain ⟨_, rfl⟩ := receive_eq_some hst
    exact h.same (by rintro _ _ ⟨⟩)
  | socket => exact h.socket (socketStep_move hst)
  | consumer j =>
    obtain ⟨c, _, hst⟩ := Option.bind_eq_some_iff.1 hst
    have hm := consumerStep_move hst
    cases hm <;> exact h.same (by rintro _ _ ⟨⟩)

end PolkadotApi.WakeHistories

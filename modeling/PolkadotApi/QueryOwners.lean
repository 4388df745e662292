import PolkadotApi.QueryEntries

set_option autoImplicit false

namespace PolkadotApi.QueryOwners
open StepRuns MachineModel JsonValues JsonRpcThreads RequestReplies QueryEntries

variable {jsonrpcVersion : Str} {st next : State}

def HasNumber (st : State) (i : ℕ) (id : ℤ) : Prop := ∃ c ∈ st.calls[i]?, c.pc.id = some id

section Frames

theorem HasNumber.set {i j : ℕ} {c d : Call} {id : ℤ} (h : HasNumber st i id)
    (here : st.calls[j]? = some c) (hcalls : next.calls = st.calls.set j d)
    (hd : c.pc.id = some id → d.pc.id = some id) : HasNumber next i id := by
  obtain ⟨c', hc', hid⟩ := h
  by_cases hij : j = i
  · subst hij
    cases here.symm.trans hc'
    refine ⟨d, ?_, hd hid⟩
    rw [hcalls]
    exact List.getElem?_set_self (List.getElem?_eq_some_iff.1 here).1
  · refine ⟨c', ?_, hid⟩
    rw [hcalls, List.getElem?_set_ne hij]
    exact hc'

theorem HasNumber.change {i : ℕ} {id : ℤ} (h : HasNumber st i id) (hchange : CallsChange st next) :
    HasNumber next i id := by
  cases hchange with
  | same _ calls =>
    unfold HasNumber
    rwa [calls]
  | append task _ calls =>
    obtain ⟨c, hc, hid⟩ := h
    refine ⟨c, ?_, hid⟩
    rw [calls]
    exact (List.getElem?_append_left (List.getElem?_eq_some_iff.1 hc).1).trans hc
  | set pc here same _ calls => exact h.set here calls fun hid => same.trans hid
  | register here pc _ calls =>
    refine h.set here calls ?_
    rw [pc]
    rintro ⟨⟩

theorem HasNumber.run {i : ℕ} {id : ℤ} {es : List Event} (h : HasNumber st i id)
    (hrun : run (step jsonrpcVersion) st es = some next) : HasNumber next i id := by
  induction es generalizing st with
  | nil =>
    cases hrun
    exact h
  | cons e es ih =>
    obtain ⟨u, hu, hrest⟩ := run_cons.1 hrun
    exact ih (h.change (Move.change (step_move hu))) hrest

theorem query_setQuery_self (k : ℤ) (query : JsonRpcQuery) :
    (st.setQuery k (some query)).query k = query := by
  simp only [State.query, State.setQuery, Function.update_self, Option.getD_some]

theorem query_setQuery_ne {k id : ℤ} (h : id ≠ k) (query : Option JsonRpcQuery) :
    (st.setQuery k query).query id = st.query id := by
  simp only [State.query, State.setQuery, Function.update_of_ne h]

end Frames

section Owners

/-- What `handleMessage` is dealing with comes from a message, and every entry, every
number it deals with and every variable it notifies belongs to a call. -/
structure Owned (st : State) : Prop where
  testing : ∀ json, st.socket = .testing json → json ∈ st.received
  matched : ∀ id result, st.socket = .matched id result →
    ∃ json ∈ st.received, requestId json = id ∧ json.field "result" = result
  given : ∀ id, st.queries id ≠ none ∨ dealsWith st.socket = some id → ∃ i, HasNumber st i id
  owner : ∀ id i, (st.query id).completionCV = some i → HasNumber st i id
  notifying : ∀ i, st.socket = .notifying (some i) → ∃ id, HasNumber st i id

theorem Owned.keep (h : Owned st) (hchange : CallsChange st next)
    (hsocket : next.socket = st.socket) (hreceived : next.received = st.received)
    (hgiven : ∀ id, next.queries id ≠ none → st.queries id ≠ none ∨ ∃ i, HasNumber next i id)
    (howner : ∀ id i, (next.query id).completionCV = some i →
      (st.query id).completionCV = some i ∨ HasNumber next i id) : Owned next := by
  constructor
  · rw [hsocket, hreceived]
    exact h.testing
  · rw [hsocket, hreceived]
    exact h.matched
  · rw [hsocket]
    have old : ∀ id, st.queries id ≠ none ∨ dealsWith st.socket = some id →
        ∃ i, HasNumber next i id := by
      intro id hid
      obtain ⟨i, hi⟩ := h.given id hid
      exact ⟨i, hi.change hchange⟩
    rintro id (hid | hid)
    · rcases hgiven id hid with hid | hid
      · exact old id (Or.inl hid)
      · exact hid
    · exact old id (Or.inr hid)
  · intro id i hcv
    rcases howner id i hcv with hcv | hid
    · exact (h.owner id i hcv).change hchange
    · exact hid
  · rw [hsocket]
    intro i hi
    obtain ⟨id, hid⟩ := h.notifying i hi
    exact ⟨id, hid.change hchange⟩

theorem Owned.sameEntries (h : Owned st) (hchange : CallsChange st next)
    (hsocket : next.socket = st.socket) (hreceived : next.received = st.received)
    (hqueries : next.queries = st.queries) : Owned next := by
  refine h.keep hchange hsocket hreceived ?_ ?_
  · rw [hqueries]
    exact fun _ hid => Or.inl hid
  · unfold State.query
    rw [hqueries]
    exact fun _ _ hcv => Or.inl hcv

theorem update_query (queries : ℤ → Option JsonRpcQuery) (k id : ℤ) (query : Option JsonRpcQuery) :
    (Function.update queries k query id = queries id) ∨
      id = k ∧ Function.update queries k query id = query := by
  by_cases heq : id = k
  · subst heq
    exact Or.inr ⟨rfl, Function.update_self ..⟩
  · exact Or.inl (Function.update_of_ne heq ..)

theorem Owned.entry (h : Owned st) (hchange : CallsChange st next)
    (hsocket : next.socket = st.socket) (hreceived : next.received = st.received) {k : ℤ}
    {query : Option JsonRpcQuery} (hqueries : next.queries = Function.update st.queries k query)
    (hgiven : query ≠ none → ∃ i, HasNumber next i k)
    (howner : ∀ i, (query.getD ⟨.null, none⟩).completionCV = some i → HasNumber next i k) :
    Owned next := by
  refine h.keep hchange hsocket hreceived ?_ ?_
  · intro id hid
    rw [hqueries] at hid
    rcases update_query st.queries k id query with hsame | ⟨rfl, hnew⟩
    · rw [hsame] at hid
      exact Or.inl hid
    · rw [hnew] at hid
      exact Or.inr (hgiven hid)
  · intro id i hcv
    rw [State.query, hqueries] at hcv
    rcases update_query st.queries k id query with hsame | ⟨rfl, hnew⟩
    · rw [hsame] at hcv
      exact Or.inl hcv
    · rw [hnew] at hcv
      exact Or.inr (howner i hcv)

theorem hasNumber_setPc {i : ℕ} {c : Call} (here : st.calls[i]? = some c) {s : State} {pc : CallPc}
    {id : ℤ} (hcalls : s.calls = st.calls) (hid : pc.id = some id) :
    HasNumber (s.setPc i c pc) i id := by
  refine ⟨{ c with pc }, ?_, hid⟩
  apply List.getElem?_set_self
  rw [hcalls]
  exact (List.getElem?_eq_some_iff.1 here).1

theorem Owned.register (h : Owned st) {i : ℕ} {c : Call} (here : st.calls[i]? = some c)
    (lastId : ℕ) (n : ℤ) (hchange : CallsChange st
      (((st.setLastId lastId).setQuery n (some ⟨.null, some i⟩)).setPc i c (.sending n))) :
    Owned (((st.setLastId lastId).setQuery n (some ⟨.null, some i⟩)).setPc i c (.sending n)) := by
  have hown : HasNumber (((st.setLastId lastId).setQuery n (some ⟨.null, some i⟩)).setPc i c
      (.sending n)) i n := hasNumber_setPc here rfl rfl
  refine h.entry hchange rfl rfl rfl (fun _ => ⟨i, hown⟩) ?_
  rintro j ⟨⟩
  exact hown

theorem Owned.call (h : Owned st) {i : ℕ} {c : Call} (here : st.calls[i]? = some c)
    (hm : CallMove jsonrpcVersion st i c next) : Owned next := by
  have hchange := CallMove.change here hm
  cases hm with
  | register pc => exact h.register here _ _ hchange
  | @move id pc =>
    refine h.entry hchange rfl rfl rfl (fun _ => ⟨i, hasNumber_setPc here rfl rfl⟩) ?_
    intro j hcv
    exact (h.owner id j hcv).change hchange
  | erase pc =>
    refine h.entry hchange rfl rfl rfl (fun hnone => absurd rfl hnone) ?_
    rintro j ⟨⟩
  | _ => exact h.sameEntries hchange rfl rfl rfl

theorem Owned.moved (h : Owned st) (hchange : CallsChange st next)
    (htesting : ∀ json, next.socket = .testing json → json ∈ next.received)
    (hmatched : ∀ id result, next.socket = .matched id result →
      ∃ json ∈ next.received, requestId json = id ∧ json.field "result" = result)
    (hgiven : ∀ id, next.queries id ≠ none ∨ dealsWith next.socket = some id →
      st.queries id ≠ none ∨ dealsWith st.socket = some id)
    (howner : ∀ id, (next.query id).completionCV = (st.query id).completionCV)
    (hnotifying : ∀ i, next.socket = .notifying (some i) → ∃ id, HasNumber st i id) :
    Owned next := by
  refine ⟨htesting, hmatched, ?_, ?_, ?_⟩
  · intro id hid
    obtain ⟨i, hi⟩ := h.given id (hgiven id hid)
    exact ⟨i, hi.change hchange⟩
  · intro id i hcv
    rw [howner] at hcv
    exact (h.owner id i hcv).change hchange
  · intro i hi
    obtain ⟨id, hid⟩ := hnotifying i hi
    exact ⟨id, hid.change hchange⟩

theorem Owned.quiet (h : Owned st) (hchange : CallsChange st next)
    (htesting : ∀ json, next.socket = .testing json → json ∈ next.received)
    (hdeals : dealsWith next.socket = none) (hcv : ∀ cv, next.socket ≠ .notifying cv)
    (hqueries : next.queries = st.queries) : Owned next := by
  refine h.moved hchange htesting ?_ ?_ ?_ ?_
  · intro id result hsocket
    rw [hsocket] at hdeals
    cases hdeals
  · rw [hqueries, hdeals]
    rintro id (hid | hid)
    · exact Or.inl hid
    · cases hid
  · intro id
    rw [State.query, State.query, hqueries]
  · exact fun i hi => absurd hi (hcv _)

theorem update_dealt {k : ℤ} (query : JsonRpcQuery) (hdeals : dealsWith st.socket = some k)
    (hcv : query.completionCV = (st.query k).completionCV) :
    (∀ id, (st.setQuery k (some query)).queries id ≠ none →
      st.queries id ≠ none ∨ dealsWith st.socket = some id) ∧
      ∀ id, ((st.setQuery k (some query)).query id).completionCV = (st.query id).completionCV := by
  constructor
  · intro id hid
    rcases update_query st.queries k id (some query) with hsame | ⟨rfl, _⟩
    · exact Or.inl (hsame ▸ hid)
    · exact Or.inr hdeals
  · intro id
    by_cases heq : id = k
    · subst heq
      rw [query_setQuery_self]
      exact hcv
    · rw [query_setQuery_ne heq]

theorem Owned.socket (h : Owned st) (hm : SocketMove st next) : Owned next := by
  have hchange := Move.change (Move.socket hm : Move [] st next)
  cases hm with
  | @respond json pc numbered present =>
    refine h.moved hchange (by rintro _ ⟨⟩) ?_ ?_ (fun _ => rfl) (by rintro _ ⟨⟩)
    · rintro _ _ ⟨⟩
      exact ⟨json, h.testing json pc, rfl, rfl⟩
    · rintro id (hid | hid)
      · exact Or.inl hid
      · cases hid
        exact Or.inl (Option.isSome_iff_ne_none.1 present)
  | @store id result pc free =>
    have hdeals : dealsWith st.socket = some id := by rw [pc]; rfl
    have hwritten := update_dealt { st.query id with json := result } hdeals rfl
    refine h.moved hchange (by rintro _ ⟨⟩) (by rintro _ _ ⟨⟩) ?_ hwritten.2 (by rintro _ ⟨⟩)
    rintro id' (hid | hid)
    · exact hwritten.1 id' hid
    · cases hid
      exact Or.inr hdeals
  | @look id pc =>
    have hdeals : dealsWith st.socket = some id := by rw [pc]; rfl
    have hwritten := update_dealt (st.query id) hdeals rfl
    refine h.moved hchange (by rintro _ ⟨⟩) (by rintro _ _ ⟨⟩) ?_ hwritten.2 ?_
    · rintro id' (hid | hid)
      · exact hwritten.1 id' hid
      · cases hid
    · intro i hi
      exact ⟨id, h.owner id i (SocketPc.notifying.inj hi)⟩
  | @notify i pc =>
    refine h.quiet hchange (by rintro _ ⟨⟩) rfl (by rintro _ ⟨⟩) ?_
    unfold notifyAll
    split <;> rfl
  | advance pc hq => exact h.sameEntries hchange rfl rfl rfl
  | _ => exact h.quiet hchange (by rintro _ ⟨⟩) rfl (by rintro _ ⟨⟩) rfl

theorem Owned.move (h : Owned st) (hm : Move jsonrpcVersion st next) : Owned next := by
  have hchange := Move.change hm
  cases hm with
  | begin task => exact h.sameEntries hchange rfl rfl rfl
  | link up => exact h.sameEntries hchange rfl rfl rfl
  | call here hc => exact h.call here hc
  | wake here pc => exact h.sameEntries hchange rfl rfl rfl
  | @receive json pc =>
    by_cases hmax : requestId json = INT_MAX
    · rw [if_pos hmax] at hchange ⊢
      exact h.quiet hchange (by rintro _ ⟨⟩) rfl (by rintro _ ⟨⟩) rfl
    · rw [if_neg hmax] at hchange ⊢
      refine h.quiet hchange ?_ rfl (by rintro _ ⟨⟩) rfl
      rintro _ ⟨⟩
      exact List.mem_append_right _ (List.mem_singleton_self _)
  | socket hs => exact h.socket hs
  | consumer here hc => cases hc <;> exact h.sameEntries hchange rfl rfl rfl

/-- Between the store and the look at the variable `handleMessage` holds the mutex. -/
def Locked (st : State) : Prop := ∀ id, st.socket = .stored id → st.queryMtx = true

theorem Locked.move (h : Locked st) (hm : Move jsonrpcVersion st next) : Locked next := by
  cases hm with
  | begin task => exact h
  | link up => exact h
  | call here hc => cases hc <;> exact h
  | wake here pc => exact h
  | @receive json pc =>
    by_cases hmax : requestId json = INT_MAX
    · rw [if_pos hmax]
      rintro _ ⟨⟩
    · rw [if_neg hmax]
      rintro _ ⟨⟩
  | socket hs =>
    cases hs with
    | store => exact fun _ _ => rfl
    | advance => exact h
    | _ => rintro _ ⟨⟩
  | consumer here hc => cases hc <;> exact h

end Owners

end PolkadotApi.QueryOwners

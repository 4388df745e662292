import PolkadotApi.QueryOwners
import PolkadotApi.WakeHistories

set_option autoImplicit false

/-!
`request` calls `wait_for` once and without a predicate: whatever ends the wait, it then
takes what its entry holds. A notification comes only after `handleMessage` has stored the
reply, so a call that was notified finds its reply. A wake-up that nobody asked for comes
with no such promise.
-/
namespace PolkadotApi.WaitWakeups
open StepRuns MachineModel JsonValues JsonRpcThreads RequestReplies QueryEntries QueryOwners
open WakeHistories

variable {jsonrpcVersion : Str} {st next : State} {past : List Event} {e : Event}

/-- The entry holds the result of a message that `handleMessage` stored under the number
when the `i`th call had it already. -/
def OwnReply (jsonrpcVersion : Str) (past : List Event) (st : State) (i : ℕ) (id : ℤ) : Prop :=
  ∃ before after s json, past = before ++ .socket :: after ∧
    run (step jsonrpcVersion) State.init before = some s ∧ HasNumber s i id ∧
    json ∈ s.received ∧ requestId json = id ∧ s.socket = .matched id (json.field "result") ∧
    (st.query id).json = json.field "result"

/-- Since the `i`th call has its number, a step of another call has changed the entry. -/
def Replaced (jsonrpcVersion : Str) (past : List Event) (i : ℕ) (id : ℤ) : Prop :=
  ∃ before j after s t, past = before ++ .call j :: after ∧ j ≠ i ∧
    run (step jsonrpcVersion) State.init before = some s ∧
    step jsonrpcVersion s (.call j) = some t ∧ HasNumber s i id ∧ t.queries id ≠ s.queries id

/-- After `past` the wait of the `i`th call is over and it is about to take its result. -/
def Takes (jsonrpcVersion : Str) (past : List Event) (st : State) (i : ℕ) (id : ℤ) : Prop :=
  run (step jsonrpcVersion) State.init past = some st ∧ ∃ c ∈ st.calls[i]?, c.pc = .woken id

/-- A call that takes a result takes its own reply, or its time is over. -/
def WaitsOut (jsonrpcVersion : Str) (es : List Event) : Prop :=
  ∀ past rest i st id, es = past ++ .call i :: rest → Takes jsonrpcVersion past st i id →
    OwnReply jsonrpcVersion past st i id ∨ .wake i .timeout ∈ past

theorem OwnReply.concat {i : ℕ} {id : ℤ} (h : OwnReply jsonrpcVersion past st i id)
    (hquery : next.query id = st.query id) : OwnReply jsonrpcVersion (past ++ [e]) next i id := by
  obtain ⟨before, after, s, json, rfl, hrun, hnumber, hjson, hid, hsocket, hresult⟩ := h
  refine ⟨before, after ++ [e], s, json, by simp, hrun, hnumber, hjson, hid, hsocket, ?_⟩
  rw [hquery]
  exact hresult

theorem Replaced.concat {i : ℕ} {id : ℤ} (h : Replaced jsonrpcVersion past i id) :
    Replaced jsonrpcVersion (past ++ [e]) i id := by
  obtain ⟨before, j, after, s, t, rfl, hne, hrun, hst, hnumber, hchanged⟩ := h
  exact ⟨before, j, after ++ [e], s, t, by simp, hne, hrun, hst, hnumber, hchanged⟩

section Hearing

def awaiting : CallPc → Option ℤ
  | .sending id => some id
  | .waiting id _ => some id
  | .woken id => some id
  | _ => none

def Prompted (past : List Event) (st : State) (i : ℕ) (id : ℤ) (pc : CallPc) : Prop :=
  (st.socket = .stored id ∨ st.socket = .notifying (some i)) ∨ pc = .waiting id true ∨
    .wake i .notified ∈ past

structure Hears (jsonrpcVersion : Str) (past : List Event) (st : State) (i : ℕ) (id : ℤ)
    (pc : CallPc) : Prop where
  entry : (st.query id).completionCV = some i
  reply : Prompted past st i id pc → OwnReply jsonrpcVersion past st i id

/-- Every call that waits and whose entry no other call has changed. -/
def AllHear (jsonrpcVersion : Str) (past : List Event) (st : State) : Prop :=
  ∀ (i : ℕ) (c : Call) (id : ℤ), st.calls[i]? = some c → awaiting c.pc = some id →
    ¬ Replaced jsonrpcVersion past i id → Hears jsonrpcVersion past st i id c.pc

theorem id_of_awaiting {pc : CallPc} {id : ℤ} (h : awaiting pc = some id) : pc.id = some id := by
  cases pc <;> cases h <;> rfl

theorem Prompted.before {i : ℕ} {id : ℤ} {pc : CallPc} (h : Prompted (past ++ [e]) next i id pc)
    (he : e ≠ .wake i .notified)
    (hsocket : next.socket = .stored id ∨ next.socket = .notifying (some i) →
      st.socket = .stored id ∨ st.socket = .notifying (some i)) : Prompted past st i id pc := by
  rcases h with h | h | h
  · exact Or.inl (hsocket h)
  · exact Or.inr (Or.inl h)
  · exact Or.inr (Or.inr (mem_of_concat h he))

theorem Hears.keep {i : ℕ} {id : ℤ} {pc pc' : CallPc} (h : Hears jsonrpcVersion past st i id pc)
    (hquery : next.query id = st.query id)
    (hprompted : Prompted (past ++ [e]) next i id pc' → Prompted past st i id pc) :
    Hears jsonrpcVersion (past ++ [e]) next i id pc' := by
  constructor
  · rw [hquery]
    exact h.entry
  · exact fun hnow => (h.reply (hprompted hnow)).concat hquery

theorem AllHear.keep (h : AllHear jsonrpcVersion past st) (hcalls : next.calls = st.calls)
    (hquery : ∀ id, next.query id = st.query id) (he : ∀ i why, e ≠ .wake i why)
    (hsocket : ∀ i id, HasNumber st i id →
      next.socket = .stored id ∨ next.socket = .notifying (some i) →
        st.socket = .stored id ∨ st.socket = .notifying (some i)) :
    AllHear jsonrpcVersion (past ++ [e]) next := by
  intro i c id hc hid hkept
  rw [hcalls] at hc
  refine (h i c id hc hid fun hr => hkept hr.concat).keep (hquery id) ?_
  exact fun hnow => hnow.before (he i _) (hsocket i id ⟨c, hc, id_of_awaiting hid⟩)

theorem AllHear.set (h : AllHear jsonrpcVersion past st) {i : ℕ} {c d : Call}
    (here : st.calls[i]? = some c) (hcalls : next.calls = st.calls.set i d)
    (hqueries : ∀ j id, j ≠ i → HasNumber st j id →
      ¬ Replaced jsonrpcVersion (past ++ [e]) j id → next.queries id = st.queries id)
    (he : ∀ j why, j ≠ i → e ≠ .wake j why)
    (hsocket : ∀ j id, next.socket = .stored id ∨ next.socket = .notifying (some j) →
      st.socket = .stored id ∨ st.socket = .notifying (some j))
    (hd : ∀ id, awaiting d.pc = some id → ¬ Replaced jsonrpcVersion past i id →
      Hears jsonrpcVersion (past ++ [e]) next i id d.pc) :
    AllHear jsonrpcVersion (past ++ [e]) next := by
  intro j c' id hc' hid hkept
  have hbefore : ¬ Replaced jsonrpcVersion past j id := fun hr => hkept hr.concat
  rw [hcalls] at hc'
  rcases getElem?_set_cases hc' with ⟨rfl, rfl⟩ | ⟨hne, hc'⟩
  · exact hd id hid hbefore
  · have hquery : next.query id = st.query id := by
      rw [State.query, State.query,
        hqueries j id hne ⟨c', hc', id_of_awaiting hid⟩ hkept]
    refine (h j c' id hc' hid hbefore).keep hquery ?_
    exact fun hnow => hnow.before (he j _ hne) (hsocket j id)

/-- A call that has just got its number has not been prompted: `handleMessage` holds the
mutex from the store of a reply to its look at the variable. -/
theorem AllHear.register (h : AllHear jsonrpcVersion past st) (hw : Wakes past st.calls)
    (ho : Owned st) (hl : Locked st) {i : ℕ} {c : Call} (here : st.calls[i]? = some c)
    (pc : c.pc = .enter) (free : st.queryMtx = false) (lastId : ℕ) (n : ℤ)
    (hqueries : ∀ j id, j ≠ i → HasNumber st j id →
      ¬ Replaced jsonrpcVersion (past ++ [.call i]) j id →
        Function.update st.queries n (some ⟨.null, some i⟩) id = st.queries id) :
    AllHear jsonrpcVersion (past ++ [.call i])
      (((st.setLastId lastId).setQuery n (some ⟨.null, some i⟩)).setPc i c (.sending n)) := by
  refine h.set here rfl hqueries (by rintro _ _ _ ⟨⟩) (fun _ _ hs => hs) ?_
  rintro id ⟨⟩ _
  constructor
  · exact congrArg JsonRpcQuery.completionCV (query_setQuery_self n ⟨.null, some i⟩)
  · rintro ((hsocket | hsocket) | hpc | hmem)
    · rw [hl n hsocket] at free
      cases free
    · obtain ⟨id, c', hc', hid⟩ := ho.notifying i hsocket
      cases here.symm.trans hc'
      rw [pc] at hid
      cases hid
    · cases hpc
    · obtain ⟨c', hc', hout⟩ := hw.left i _ (mem_of_concat hmem (by rintro ⟨⟩))
      cases here.symm.trans hc'
      rw [pc] at hout
      cases hout

theorem AllHear.call (h : AllHear jsonrpcVersion past st)
    (hrun : run (step jsonrpcVersion) State.init past = some st) (hw : Wakes past st.calls)
    (ho : Owned st) (hl : Locked st) {i : ℕ} (hst : step jsonrpcVersion st (.call i) = some next) :
    AllHear jsonrpcVersion (past ++ [.call i]) next := by
  have hqueries : ∀ j id, j ≠ i → HasNumber st j id →
      ¬ Replaced jsonrpcVersion (past ++ [.call i]) j id → next.queries id = st.queries id := by
    intro j id hne hnumber hkept
    by_contra hchanged
    exact hkept ⟨past, i, [], st, next, rfl, Ne.symm hne, hrun, hst, hnumber, hchanged⟩
  obtain ⟨c, here, hcall⟩ := Option.bind_eq_some_iff.1 hst
  have hm := callStep_move hcall
  have he : ∀ j why, j ≠ i → Event.call i ≠ .wake j why := by rintro _ _ _ ⟨⟩
  cases hm with
  | register pc free => exact h.register hw ho hl here pc free _ _ hqueries
  | @send id pc up =>
    refine h.set here rfl hqueries he (fun _ _ hs => hs) ?_
    rintro _ ⟨⟩ hbefore
    refine (h i c id here (by rw [pc]; rfl) hbefore).keep rfl ?_
    rintro (hsocket | ⟨⟨⟩⟩ | hmem)
    · exact Or.inl hsocket
    · exact Or.inr (Or.inr (mem_of_concat hmem (by rintro ⟨⟩)))
  | advance => exact h.keep rfl (fun _ => rfl) (by rintro _ _ ⟨⟩) fun _ _ _ hs => hs
  | _ =>
    refine h.set here rfl hqueries he (fun _ _ hs => hs) ?_
    rintro _ ⟨⟩

theorem waiting_of_notified {i : ℕ} {c : Call} (h : wakeStep st i c .notified = some next) :
    ∃ id, c.pc = .waiting id true := by
  unfold wakeStep at h
  split at h
  · next id notified pc =>
    split_ifs at h with hnot
    cases notified with
    | false => exact absurd ⟨rfl, rfl⟩ hnot
    | true => exact ⟨id, pc⟩
  · cases h

theorem AllHear.wake (h : AllHear jsonrpcVersion past st) {i : ℕ} {c : Call} {why : Wake}
    (here : st.calls[i]? = some c) (hst : wakeStep st i c why = some next) :
    AllHear jsonrpcVersion (past ++ [.wake i why]) next := by
  obtain ⟨id, notified, pc, hnext⟩ := wakeStep_eq_some hst
  have hnotified : why = .notified → c.pc = .waiting id true := by
    rintro rfl
    obtain ⟨id', hpc⟩ := waiting_of_notified hst
    rw [pc] at hpc
    cases hpc
    exact pc
  subst hnext
  refine h.set here rfl (fun _ _ _ _ _ => rfl) ?_ (fun _ _ hs => hs) ?_
  · rintro j why' hne ⟨⟩
    exact hne rfl
  · rintro _ ⟨⟩ hbefore
    refine (h i c id here (by rw [pc]; rfl) hbefore).keep rfl ?_
    rintro (hsocket | ⟨⟨⟩⟩ | hmem)
    · exact Or.inl hsocket
    · rcases List.mem_append.1 hmem with hmem | hmem
      · exact Or.inr (Or.inr hmem)
      · cases List.mem_singleton.1 hmem
        exact Or.inr (Or.inl (hnotified rfl))

theorem number_unique {i : ℕ} {id id' : ℤ} (h : HasNumber st i id) (h' : HasNumber st i id') :
    id = id' := by
  obtain ⟨c, hc, hid⟩ := h
  obtain ⟨c', hc', hid'⟩ := h'
  cases hc.symm.trans hc'
  exact Option.some.inj (hid.symm.trans hid')

theorem AllHear.store (h : AllHear jsonrpcVersion past st)
    (hrun : run (step jsonrpcVersion) State.init past = some st) (ho : Owned st) {k : ℤ}
    {result : Json} (pc : st.socket = .matched k result) :
    AllHear jsonrpcVersion (past ++ [.socket])
      (((st.setQuery k (some { st.query k with json := result })).setMtx true).setSocket
        (.stored k)) := by
  have hdeals : dealsWith st.socket = some k := by rw [pc]; rfl
  have hwritten := update_dealt { st.query k with json := result } hdeals rfl
  intro i c id hc hid hkept
  have hbefore := h i c id hc hid fun hr => hkept hr.concat
  refine ⟨(hwritten.2 id).trans hbefore.entry, ?_⟩
  intro hnow
  by_cases heq : id = k
  · subst heq
    obtain ⟨json, hjson, hnumber, rfl⟩ := ho.matched id result pc
    refine ⟨past, [], st, json, rfl, hrun, ⟨c, hc, id_of_awaiting hid⟩, hjson, hnumber, pc, ?_⟩
    exact congrArg JsonRpcQuery.json
      (query_setQuery_self id { st.query id with json := json.field "result" })
  · refine (hbefore.reply (hnow.before (by rintro ⟨⟩) ?_)).concat ?_
    · rintro (⟨⟨⟩⟩ | ⟨⟨⟩⟩)
      exact absurd rfl heq
    · exact query_setQuery_ne heq _

theorem AllHear.look (h : AllHear jsonrpcVersion past st) (ho : Owned st) {k : ℤ}
    (pc : st.socket = .stored k) :
    AllHear jsonrpcVersion (past ++ [.socket])
      (((st.setQuery k (some (st.query k))).setMtx false).setSocket
        (.notifying (st.query k).completionCV)) := by
  refine h.keep rfl ?_ (by rintro _ _ ⟨⟩) ?_
  · intro id
    by_cases heq : id = k
    · subst heq
      exact query_setQuery_self id (st.query id)
    · exact query_setQuery_ne heq _
  · rintro i id hnumber (⟨⟨⟩⟩ | hcv)
    have howner := ho.owner k i (SocketPc.notifying.inj hcv)
    rw [number_unique hnumber howner]
    exact Or.inl pc

theorem AllHear.notify (h : AllHear jsonrpcVersion past st) {i : ℕ}
    (pc : st.socket = .notifying (some i)) :
    AllHear jsonrpcVersion (past ++ [.socket]) ((notifyAll st i).setSocket .idle) := by
  unfold notifyAll
  split
  · next task id notified here =>
    refine h.set here rfl (fun _ _ _ _ _ => rfl) (by rintro _ _ _ ⟨⟩)
      (by rintro _ _ (⟨⟨⟩⟩ | ⟨⟨⟩⟩)) ?_
    rintro _ ⟨⟩ hbefore
    refine (h i _ id here rfl hbefore).keep rfl ?_
    exact fun _ => Or.inl (Or.inr pc)
  · exact h.keep rfl (fun _ => rfl) (by rintro _ _ ⟨⟩) (by rintro _ _ _ (⟨⟨⟩⟩ | ⟨⟨⟩⟩))

theorem AllHear.socket (h : AllHear jsonrpcVersion past st)
    (hrun : run (step jsonrpcVersion) State.init past = some st) (ho : Owned st)
    (hm : SocketMove st next) : AllHear jsonrpcVersion (past ++ [.socket]) next := by
  cases hm with
  | store pc => exact h.store hrun ho pc
  | look pc => exact h.look ho pc
  | notify pc => exact h.notify pc
  | advance => exact h.keep rfl (fun _ => rfl) (by rintro _ _ ⟨⟩) fun _ _ _ hs => hs
  | _ => exact h.keep rfl (fun _ => rfl) (by rintro _ _ ⟨⟩) (by rintro _ _ _ (⟨⟨⟩⟩ | ⟨⟨⟩⟩))

theorem AllHear.begin (h : AllHear jsonrpcVersion past st) (task : Task) :
    AllHear jsonrpcVersion (past ++ [.begin task])
      { st with calls := st.calls ++ [⟨task, .enter⟩] } := by
  intro i c id hc hid hkept
  rcases getElem?_concat_cases hc with hc | ⟨_, rfl⟩
  · refine (h i c id hc hid fun hr => hkept hr.concat).keep rfl ?_
    exact fun hnow => hnow.before (by rintro ⟨⟩) fun hs => hs
  · cases hid

theorem AllHear.step (h : AllHear jsonrpcVersion past st)
    (hrun : run (step jsonrpcVersion) State.init past = some st) (hw : Wakes past st.calls)
    (ho : Owned st) (hl : Locked st) (hst : step jsonrpcVersion st e = some next) :
    AllHear jsonrpcVersion (past ++ [e]) next := by
  cases e with
  | begin task =>
    cases hst
    exact h.begin task
  | link up =>
    cases hst
    exact h.keep rfl (fun _ => rfl) (by rintro _ _ ⟨⟩) fun _ _ _ hs => hs
  | call i => exact h.call hrun hw ho hl hst
  | wake i why =>
    obtain ⟨c, here, hst⟩ := Option.bind_eq_some_iff.1 hst
    exact h.wake here hst
  | receive json =>
    obtain ⟨_, rfl⟩ := receive_eq_some hst
    refine h.keep rfl (fun _ => rfl) (by rintro _ _ ⟨⟩) ?_
    split_ifs
    · rintro _ _ _ (⟨⟨⟩⟩ | ⟨⟨⟩⟩)
    · rintro _ _ _ (⟨⟨⟩⟩ | ⟨⟨⟩⟩)
  | socket => exact h.socket hrun ho (socketStep_move hst)
  | consumer j =>
    obtain ⟨c, _, hst⟩ := Option.bind_eq_some_iff.1 hst
    have hm := consumerStep_move hst
    cases hm <;> exact h.keep rfl (fun _ => rfl) (by rintro _ _ ⟨⟩) fun _ _ _ hs => hs

end Hearing

section Waiting

structure History (jsonrpcVersion : Str) (past : List Event) (st : State) : Prop where
  reached : run (step jsonrpcVersion) State.init past = some st
  wakes : Wakes past st.calls
  owned : Owned st
  locked : Locked st
  hears : AllHear jsonrpcVersion past st

theorem History.init : History jsonrpcVersion [] State.init := by
  have hcalls : ∀ i : ℕ, State.init.calls[i]? = none := fun i => List.getElem?_nil
  constructor
  · rfl
  · constructor
    · rintro i why ⟨⟩
    · rintro i why why' ⟨⟩
    · intro i c id hc
      rw [hcalls] at hc
      cases hc
  · constructor
    · rintro json ⟨⟩
    · rintro id result ⟨⟩
    · rintro id (hid | ⟨⟨⟩⟩)
      exact absurd rfl hid
    · rintro id i ⟨⟩
    · rintro i ⟨⟩
  · rintro id ⟨⟩
  · intro i c id hc
    rw [hcalls] at hc
    cases hc

theorem History.step (h : History jsonrpcVersion past st)
    (hst : step jsonrpcVersion st e = some next) : History jsonrpcVersion (past ++ [e]) next where
  reached := run_append.2 ⟨st, h.reached, run_cons.2 ⟨next, hst, rfl⟩⟩
  wakes := h.wakes.step hst
  owned := h.owned.move (step_move hst)
  locked := h.locked.move (step_move hst)
  hears := h.hears.step h.reached h.wakes h.owned h.locked hst

theorem history_of_run (h : run (step jsonrpcVersion) State.init past = some st) :
    History jsonrpcVersion past st := by
  refine run_past ?_ History.init h
  intro past s e t hs hst
  exact hs.step hst

/-- A call that was notified finds its reply in its entry. -/
theorem ownReply_of_notified {i : ℕ} {id : ℤ} (h : Takes jsonrpcVersion past st i id)
    (hkept : ¬ Replaced jsonrpcVersion past i id) (hnotified : .wake i .notified ∈ past) :
    OwnReply jsonrpcVersion past st i id := by
  obtain ⟨hrun, c, hc, hpc⟩ := h
  have hhears := (history_of_run hrun).hears i c id hc (by rw [hpc]; rfl) hkept
  exact hhears.reply (Or.inr (Or.inr hnotified))

/-- A call changes the entry of another only if it has got the same number. -/
theorem Replaced.shared {i : ℕ} {id : ℤ} (h : Replaced jsonrpcVersion past i id)
    (hrun : run (step jsonrpcVersion) State.init past = some st) :
    ∃ j, j ≠ i ∧ HasNumber st i id ∧ HasNumber st j id := by
  obtain ⟨before, j, after, s, t, rfl, hne, hbefore, hst, hnumber, hchanged⟩ := h
  obtain ⟨s', hs', hlater⟩ := run_append.1 hrun
  cases hbefore.symm.trans hs'
  obtain ⟨t', ht', hafter⟩ := run_cons.1 hlater
  cases hst.symm.trans ht'
  obtain ⟨c, here, hcall⟩ := Option.bind_eq_some_iff.1 hst
  have hm := callStep_move hcall
  obtain ⟨d, hd⟩ : ∃ d, t.calls[j]? = some d := by
    have hlt := (List.getElem?_eq_some_iff.1 here).1
    cases hm with
    | advance => exact ⟨c, here⟩
    | _ => exact ⟨_, List.getElem?_set_self hlt⟩
  have hnew : HasNumber t j id := by
    refine ⟨d, hd, ?_⟩
    by_contra hid
    exact hchanged (queries_of_call hm here hd hid)
  exact ⟨j, hne, hnumber.run hlater, hnew.run hafter⟩

/-- No call takes anything but its own reply before its time is over exactly if the calls
that were woken by nothing find their reply in their entry, and so do those whose entry
another call has changed. That takes two calls with one number. -/
theorem waitsOut_iff (jsonrpcVersion : Str) (es : List Event) :
    (WaitsOut jsonrpcVersion es ↔
      ∀ past rest i st id, es = past ++ .call i :: rest → Takes jsonrpcVersion past st i id →
        .wake i .spurious ∈ past ∨ .wake i .notified ∈ past ∧ Replaced jsonrpcVersion past i id →
          OwnReply jsonrpcVersion past st i id) ∧
      ∀ past st i id, run (step jsonrpcVersion) State.init past = some st →
        Replaced jsonrpcVersion past i id → ∃ j, j ≠ i ∧ HasNumber st i id ∧ HasNumber st j id := by
  refine ⟨⟨?_, ?_⟩, fun past st i id hrun h => h.shared hrun⟩
  · intro h past rest i st id hes htakes hwoken
    rcases h past rest i st id hes htakes with hown | htimeout
    · exact hown
    · have honce := (history_of_run htakes.1).wakes.once i
      rcases hwoken with hspurious | ⟨hnotified, _⟩
      · cases honce _ _ hspurious htimeout
      · cases honce _ _ hnotified htimeout
  · intro h past rest i st id hes htakes
    have hown := h past rest i st id hes htakes
    obtain ⟨c, hc, hpc⟩ := htakes.2
    obtain ⟨why, hwhy⟩ := (history_of_run htakes.1).wakes.woken i c id hc hpc
    cases why with
    | timeout => exact Or.inr hwhy
    | spurious => exact Or.inl (hown (Or.inl hwhy))
    | notified =>
      by_cases hreplaced : Replaced jsonrpcVersion past i id
      · exact Or.inl (hown (Or.inr ⟨hwhy, hreplaced⟩))
      · exact Or.inl (ownReply_of_notified htakes hreplaced hwhy)

def wokenByNothing : List Event :=
  [.link true, .begin (.request .null), .call 0, .call 0, .wake 0 .spurious]

theorem waitsOut_fails : ¬ ∀ es : List Event, WaitsOut (lit "2.0") es := by
  intro hall
  have hrun := run_finalState (step (lit "2.0")) State.init wokenByNothing (by decide +kernel)
  have hc : (finalState (step (lit "2.0")) State.init wokenByNothing).calls[0]? =
      some ⟨.request .null, .woken 1⟩ := by
    decide +kernel
  rcases hall (wokenByNothing ++ [.call 0]) wokenByNothing [] 0 _ 1 rfl ⟨hrun, _, hc, rfl⟩ with
    ⟨before, after, _, _, hsplit, _⟩ | htimeout
  · have hsocket : Event.socket ∈ wokenByNothing := hsplit ▸ List.mem_append_cons_self
    simp [wokenByNothing] at hsocket
  · simp [wokenByNothing] at htimeout

end Waiting

end PolkadotApi.WaitWakeups

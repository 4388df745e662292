import PolkadotApi.ObserverLifetimes
import PolkadotApi.SocketProgressAnchors

set_option autoImplicit false

namespace PolkadotApi.SocketProgress
open StepRuns StreamReader BoundedBuffer MachineModel JsonValues ConcurrentMapQueue QueueLaws
open SemaphoreLookups
open JsonRpcThreads SubscriptionDelivery ObserverLifetimes

/-- The socket thread waits for a place in the queue of `s`. -/
def SocketBlocked (st : State) (s : ℤ) : Prop :=
  ∃ op who json p, st.socket = .putting op ∧
    st.responseQueue.ops[op]? = some (who, .put s json (.waiting p)) ∧
    st.responseQueue.store.count p = 0

def HasRoom (q : System Json ℤ Thread) (s : ℤ) : Prop :=
  (q.store.collection s).length < RESPONSE_QUEUE_MAX_SIZE - 1

def erasesNext (q : System Json ℤ Thread) (c : JsonRpcThreads.Call) : Option ℤ :=
  match opAt q (callOp c.pc) with
  | some (.eraseKey s pc) => if pc = .returned then none else some s
  | _ => none

def endsNext (q : System Json ℤ Thread) (c : Consumer) : Bool :=
  match opAt q (consumerOp c.pc) with
  | some (.get _ (.returned none)) => true
  | _ => false

/-- A message is put where there is room or a reader, and the reader and the
semaphores stay until it is in. -/
def Accommodating (st : State) : JsonRpcThreads.Event → Prop
  | .socket => ∀ s ∈ enqueues st, HasRoom st.responseQueue s ∨ ¬ Ended st.consumers s
  | .consumer j => ∀ c ∈ st.consumers[j]?, endsNext st.responseQueue c = true →
      inSocket st.responseQueue st.socket c.subscriptionId = [] ∨
        HasRoom st.responseQueue c.subscriptionId
  | .call i => ∀ c ∈ st.calls[i]?, ∀ s ∈ erasesNext st.responseQueue c,
      inSocket st.responseQueue st.socket s = []
  | _ => True

instance (q : System Json ℤ Thread) (s : ℤ) : Decidable (HasRoom q s) :=
  inferInstanceAs (Decidable ((q.store.collection s).length < RESPONSE_QUEUE_MAX_SIZE - 1))

instance (st : State) : ∀ e : JsonRpcThreads.Event, Decidable (Accommodating st e)
  | .socket => inferInstanceAs (Decidable (∀ s ∈ enqueues st,
      HasRoom st.responseQueue s ∨ ¬ Ended st.consumers s))
  | .consumer j => inferInstanceAs (Decidable (∀ c ∈ st.consumers[j]?,
      endsNext st.responseQueue c = true → inSocket st.responseQueue st.socket c.subscriptionId = [] ∨
        HasRoom st.responseQueue c.subscriptionId))
  | .call i => inferInstanceAs (Decidable (∀ c ∈ st.calls[i]?, ∀ s ∈ erasesNext st.responseQueue c,
      inSocket st.responseQueue st.socket s = []))
  | .begin _ => inferInstanceAs (Decidable True)
  | .link _ => inferInstanceAs (Decidable True)
  | .wake _ _ => inferInstanceAs (Decidable True)
  | .receive _ => inferInstanceAs (Decidable True)

variable {jsonrpcVersion : Str} {st next : State} {s : ℤ} {q : System Json ℤ Thread}

theorem inSocket_of_unpushed (h : Owned st) {op : ℕ} {t : Thread} {o : Op Json ℤ}
    (ho : st.responseQueue.ops[op]? = some (t, o)) (hne : unpushed s o ≠ []) :
    st.socket = .putting op ∧ inSocket st.responseQueue st.socket s = unpushed s o := by
  obtain ⟨json, pc, rfl, hbusy⟩ := put_of_unpushed hne
  have hcur := h.busy op t _ ho hbusy
  have hfits := h.fits op t _ ho
  cases t with
  | socket =>
    have hpc : st.socket = .putting op := putting_of_socketOp hcur
    refine ⟨hpc, ?_⟩
    rw [hpc]
    exact congrArg (Option.elim · [] (unpushed s)) (opAt_of_getElem? ho)
  | consumer j => cases hfits
  | caller i => cases hfits

theorem unpushed_eq_nil (h : Owned st) (hs : inSocket st.responseQueue st.socket s = []) :
    ∀ x ∈ st.responseQueue.ops, unpushed s x.2 = [] := by
  rintro ⟨t, o⟩ hx
  obtain ⟨op, hop⟩ := List.mem_iff_getElem?.1 hx
  by_contra hne
  rw [(inSocket_of_unpushed h hop hne).2] at hs
  exact hne hs

/-- Whoever is on the way to a full queue of `s` has a reader. -/
def Welcome (s : ℤ) (q : System Json ℤ Thread) (socket : SocketPc) (consumers : List Consumer) :
    Prop :=
  inSocket q socket s ≠ [] → HasRoom q s ∨ ¬ Ended consumers s

theorem length_unpushed (o : Op Json ℤ) : (unpushed s o).length ≤ 1 := by
  unfold unpushed
  split
  · split
    · exact Nat.zero_le 1
    · exact Nat.zero_le 1
    · split_ifs
      · exact le_rfl
      · exact Nat.zero_le 1
  · exact Nat.zero_le 1

/-- As long as the message is not in the queue, the queue does not grow. -/
theorem Welcome.advance (h : Welcome s st.responseQueue st.socket st.consumers)
    (hinv : Invariant st) {op : ℕ}
    (hq : st.responseQueue.advance RESPONSE_QUEUE_MAX_SIZE op = .ok q) :
    Welcome s q st.socket st.consumers := by
  intro hin
  obtain ⟨t, o, o', ho, hs, hops⟩ := System.advance_eq_ok hq
  have hcur := hinv.owned.busy op t o ho (isOver_of_step hs)
  have hfits := hinv.owned.fits op t o ho
  obtain ⟨es, hes⟩ := hinv.queue
  have horder := order_of_run hes s
  have horder' := order_of_step hs horder
  obtain ⟨m, hpopped, _⟩ := popped_of_step hs s
  have hpushed : q.store.pushed s = st.responseQueue.store.pushed s ∧
      inSocket st.responseQueue st.socket s ≠ [] := by
    change (opAt q (current st .socket)).elim [] (unpushed s) ≠ [] at hin
    by_cases ht : t = .socket
    · subst ht
      obtain ⟨l, hl, hunpushed⟩ := pushed_of_step hs s
      rw [hcur, opAt_set ho hops] at hin
      change unpushed s o' ≠ [] at hin
      have hlength : (unpushed s o).length ≤ 1 := length_unpushed o
      have hpos := List.length_pos_iff.2 hin
      rw [hunpushed, List.length_append] at hlength
      have hnil : l = [] := List.length_eq_zero_iff.1 (by omega)
      subst hnil
      refine ⟨by rw [hl, List.append_nil], ?_⟩
      have hne : unpushed s o ≠ [] := by
        rw [hunpushed]
        exact hin
      rw [(inSocket_of_unpushed hinv.owned ho hne).2]
      exact hne
    · refine ⟨pushed_of_other hfits hs ht s, ?_⟩
      rw [hinv.owned.opAt_advance ho hops (Ne.symm ht)] at hin
      exact hin
  have hlength : (q.store.collection s).length ≤ (st.responseQueue.store.collection s).length := by
    have hsame := congrArg List.length (horder'.symm.trans (hpushed.1.trans horder))
    rw [hpopped] at hsame
    simp only [List.length_append] at hsame
    omega
  refine (h hpushed.2).imp ?_ id
  intro hroom
  unfold HasRoom at hroom ⊢
  omega

theorem Welcome.begin (h : Welcome s st.responseQueue st.socket st.consumers) (hown : Owned st)
    (t : Thread) (call : ConcurrentMapQueue.Call Json ℤ) :
    Welcome s (st.responseQueue.begin t call) st.socket st.consumers := by
  intro hin
  rw [hown.inSocket_begin t call s] at hin
  exact h hin

theorem Welcome.of_ended {socket : SocketPc} {consumers consumers' : List Consumer}
    (h : Welcome s q socket consumers) (hended : Ended consumers' s → Ended consumers s) :
    Welcome s q socket consumers' := by
  intro hin
  exact (h hin).imp id fun hreader hnow => hreader (hended hnow)

theorem welcome_of_idle {socket : SocketPc} {consumers : List Consumer} (h : socketOp socket = none) :
    Welcome s q socket consumers :=
  fun hin => absurd (inSocket_of_idle h q s) hin

theorem ended_of_set {consumers : List Consumer} {j : ℕ} {c : Consumer} {pc : ConsumerPc}
    (here : consumers[j]? = some c) (hpc : c.subscriptionId = s → pc ≠ .ended)
    (h : Ended (consumers.set j { c with pc }) s) : Ended consumers s := by
  have hself : { c with pc } ∈ consumers.set j { c with pc } :=
    List.mem_set (List.getElem?_eq_some_iff.1 here).1 _
  intro d hd hs
  obtain ⟨m, hm⟩ := List.mem_iff_getElem?.1 hd
  by_cases hjm : j = m
  · subst hjm
    cases here.symm.trans hm
    exact absurd (h _ hself hs) (hpc hs)
  · exact h d (List.mem_of_getElem? ((List.getElem?_set_ne hjm).trans hm)) hs

structure Housed (st : State) : Prop where
  anchored : ∀ s, Anchored s st.responseQueue
  welcome : ∀ s, Welcome s st.responseQueue st.socket st.consumers

theorem mutex_of_reachable
    (h : Reachable (System.step RESPONSE_QUEUE_MAX_SIZE) System.empty q) : Mutex q := by
  apply h.invariant (I := Mutex)
  · intro s e t hs hst
    exact hs.step hst
  · constructor
    · rintro x ⟨⟩
    · rintro i j x y ⟨⟩

theorem Housed.advance (h : Housed st) (hinv : Invariant st) {op : ℕ}
    (herase : ∀ who k pc, st.responseQueue.ops[op]? = some (who, .eraseKey k pc) →
      isOver (.eraseKey k pc) = false → inSocket st.responseQueue st.socket k = [])
    (hq : st.responseQueue.advance RESPONSE_QUEUE_MAX_SIZE op = .ok q) :
    Housed { st with responseQueue := q } := by
  refine ⟨?_, fun s => (h.welcome s).advance hinv hq⟩
  intro s
  obtain ⟨t, o, o', ho, hs, hops⟩ := System.advance_eq_ok hq
  refine (h.anchored s).advance (mutex_of_reachable hinv.queue) ho hs hops ?_
  intro hk herases
  apply unpushed_eq_nil hinv.owned
  cases o with
  | eraseKey k pc =>
    cases hk
    exact herase t k pc ho (isOver_of_step hs)
  | _ => cases herases

theorem Housed.call (h : Housed st) (hinv : Invariant st) {i : ℕ} {c : JsonRpcThreads.Call}
    (herase : ∀ s ∈ erasesNext st.responseQueue c, inSocket st.responseQueue st.socket s = [])
    (hm : CallMove jsonrpcVersion st i c next) : Housed next := by
  cases hm with
  | @start id s' pc =>
    refine ⟨h.anchored, ?_⟩
    intro s
    refine (h.welcome s).of_ended ?_
    intro hended d hd
    exact hended d (List.mem_append_left _ hd)
  | close pc task =>
    refine ⟨fun s => (h.anchored s).begin _ _, ?_⟩
    exact fun s => (h.welcome s).begin hinv.owned _ _
  | @advance id op q pc hq =>
    refine h.advance hinv ?_ hq
    intro who k epc hop hbusy
    apply herase
    have hne : epc ≠ .returned := by
      rintro rfl
      cases hbusy
    simp [erasesNext, pc, callOp, opAt, hop, hne]
  | _ => exact ⟨h.anchored, h.welcome⟩

theorem Housed.socket (h : Housed st) (hinv : Invariant st)
    (henqueue : ∀ json op, st.socket = .testing json → next.socket = .putting op →
      HasRoom st.responseQueue (subscriptionId json) ∨ ¬ Ended st.consumers (subscriptionId json))
    (hm : SocketMove st next) : Housed next := by
  cases hm with
  | @enqueue json pc hne =>
    refine ⟨fun s => (h.anchored s).begin _ _, ?_⟩
    intro s hin
    have hnew : inSocket (st.responseQueue.begin .socket (.put (subscriptionId json) json))
        (.putting st.nextOp) s = if subscriptionId json = s then [json] else [] :=
      congrArg (Option.elim · [] (unpushed s)) (opAt_begin_self st.responseQueue .socket _)
    have hs : subscriptionId json = s := by
      by_contra hother
      rw [if_neg hother] at hnew
      exact hin hnew
    subst hs
    exact henqueue json _ pc rfl
  | @advance op q pc hq =>
    refine h.advance hinv ?_ hq
    intro who k epc hop hbusy
    obtain ⟨o, ho⟩ := hinv.owned.held .socket op (congrArg socketOp pc)
    cases hop.symm.trans ho
    cases hinv.owned.fits op _ _ ho
  | @notify i pc =>
    have hqueue : (notifyAll st i).responseQueue = st.responseQueue := by
      unfold notifyAll
      split <;> rfl
    refine ⟨?_, fun s => welcome_of_idle rfl⟩
    intro s
    change Anchored s (notifyAll st i).responseQueue
    rw [hqueue]
    exact h.anchored s
  | _ => exact ⟨h.anchored, fun s => welcome_of_idle rfl⟩

theorem Housed.consumer (h : Housed st) (hinv : Invariant st) {j : ℕ} {c : Consumer}
    (here : st.consumers[j]? = some c)
    (hend : endsNext st.responseQueue c = true →
      inSocket st.responseQueue st.socket c.subscriptionId = [] ∨
        HasRoom st.responseQueue c.subscriptionId)
    (hm : ConsumerMove st j c next) : Housed next := by
  cases hm with
  | begin pc =>
    refine ⟨fun s => (h.anchored s).begin _ _, ?_⟩
    intro s
    exact ((h.welcome s).begin hinv.owned _ _).of_ended (ended_of_set here (by simp))
  | taken pc done =>
    exact ⟨h.anchored, fun s => (h.welcome s).of_ended (ended_of_set here (by simp))⟩
  | hand pc present =>
    exact ⟨h.anchored, fun s => (h.welcome s).of_ended (ended_of_set here (by simp))⟩
  | @ended op who k pc done =>
    refine ⟨h.anchored, ?_⟩
    intro s
    by_cases hs : c.subscriptionId = s
    · subst hs
      intro hin
      have hlast : endsNext st.responseQueue c = true := by
        simp [endsNext, pc, consumerOp, opAt, done]
      rcases hend hlast with hnil | hroom
      · exact absurd hnil hin
      · exact Or.inl hroom
    · exact (h.welcome s).of_ended (ended_of_set here fun heq => absurd heq hs)
  | @advance op q pc hq =>
    refine h.advance hinv ?_ hq
    intro who k epc hop hbusy
    obtain ⟨o, ho⟩ := hinv.owned.held (.consumer j) op (by rw [current_consumer here, pc]; rfl)
    cases hop.symm.trans ho
    cases hinv.owned.fits op _ _ ho

theorem Housed.step {e : JsonRpcThreads.Event} (h : Housed st) (hinv : Invariant st)
    (he : Accommodating st e) (hst : JsonRpcThreads.step jsonrpcVersion st e = some next) :
    Housed next := by
  cases e with
  | call i =>
    obtain ⟨c, hc, hst⟩ := Option.bind_eq_some_iff.1 hst
    exact h.call hinv (he c hc) (callStep_move hst)
  | socket =>
    refine h.socket hinv ?_ (socketStep_move hst)
    intro json op pc hnext
    exact he _ (enqueues_of_step hst pc hnext)
  | consumer j =>
    obtain ⟨c, hc, hst⟩ := Option.bind_eq_some_iff.1 hst
    exact h.consumer hinv hc (he c hc) (consumerStep_move hst)
  | begin task =>
    cases hst
    exact ⟨h.anchored, h.welcome⟩
  | link up =>
    cases hst
    exact ⟨h.anchored, h.welcome⟩
  | wake i why =>
    obtain ⟨c, hc, hst⟩ := Option.bind_eq_some_iff.1 hst
    obtain ⟨id, notified, pc, rfl⟩ := wakeStep_eq_some hst
    exact ⟨h.anchored, h.welcome⟩
  | receive json =>
    obtain ⟨_, rfl⟩ := receive_eq_some hst
    refine ⟨h.anchored, fun s => welcome_of_idle ?_⟩
    change socketOp (if _ then SocketPc.idle else SocketPc.testing json) = none
    split_ifs <;> rfl

theorem Housed.init : Housed State.init := by
  constructor
  · intro s
    constructor
    · rintro x ⟨⟩
    · rintro x ⟨⟩
    · rintro x ⟨⟩
  · intro s
    exact welcome_of_idle rfl

/-- With no reader, a socket thread that waits at `s` has filled the queue itself. -/
theorem Invariant.full_of_blocked (hinv : Invariant st) (hanchored : Anchored s st.responseQueue)
    (hblocked : SocketBlocked st s) (hended : Ended st.consumers s) :
    ¬ HasRoom st.responseQueue s := by
  obtain ⟨op, who, json, p, hpc, hop, hcount⟩ := hblocked
  have hsem : st.responseQueue.store.semW s = some p :=
    hanchored.linked _ (List.mem_of_getElem? hop) json p rfl
  have hlevel : level st.responseQueue.store .write s (RESPONSE_QUEUE_MAX_SIZE - 1) = 0 :=
    (level_of_sem .write _ hsem).trans hcount
  have hreserved : census (fun x : Thread × Op Json ℤ => phase s x.2) st.responseQueue.ops
      .reserved = 0 := by
    apply census_eq_zero
    rintro ⟨t, o⟩ hx hphase
    obtain ⟨m, hm⟩ := List.mem_iff_getElem?.1 hx
    -- it would be the one `put` in progress, and that one waits
    obtain ⟨json', rfl⟩ := op_of_reserved hphase
    have hsocket := (inSocket_of_unpushed (s := s) hinv.owned hm (by simp [unpushed])).1
    cases hpc.symm.trans hsocket
    cases hop.symm.trans hm
  have hfreeing : census (fun x : Thread × Op Json ℤ => phase s x.2) st.responseQueue.ops
      .freeing = 0 := by
    apply census_eq_zero
    rintro ⟨t, o⟩ hx hphase
    obtain ⟨m, hm⟩ := List.mem_iff_getElem?.1 hx
    obtain ⟨v, rfl⟩ := op_of_freeing hphase
    have hfits := hinv.owned.fits m t _ hm
    have hbusy := hinv.owned.busy m t _ hm rfl
    cases t with
    | consumer j =>
      obtain ⟨c, hc, hs⟩ := hfits
      rw [current_consumer hc, hended c (List.mem_of_getElem? hc) hs] at hbusy
      cases hbusy
    | _ => cases hfits
  have haccounted := accounted_of_reachable hinv.queue s
  unfold Accounted at haccounted
  unfold HasRoom
  rw [hlevel, hreserved, hfreeing] at haccounted
  omega

end PolkadotApi.SocketProgress

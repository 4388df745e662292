import PolkadotApi.KeyErasureModes

set_option autoImplicit false

namespace PolkadotApi.KeyErasure
open StepRuns StreamReader BoundedBuffer ConcurrentMapQueue QueueLaws QueueGuarantees

variable {T K I : Type} [DecidableEq K] {max_size : ℤ}

section Runs

variable {sys next : System T K I} {k : K}

theorem kept_of_run (hmax : 1 ≤ max_size) {es : List (Event T K I)}
    (horderly : Along (System.step max_size) Orderly System.empty es)
    (hrun : run (System.step max_size) System.empty es = some sys) (k : K) : Kept max_size k sys := by
  have hinv : sys.Named ∧ Kept max_size k sys := by
    apply run_invariant (I := fun s => s.Named ∧ Kept max_size k s) ?_
      ⟨named_empty, kept_empty hmax k⟩ horderly hrun
    intro s e t hs ho hst
    exact ⟨hs.1.step hst, hs.2.step hmax hs.1 ho hst⟩
  exact hinv.2

/-- What went through the queue of `k` after `sys`, and what the calls that began
after `sys` took out of it. -/
structure Since (k : K) (sys next : System T K I) (given taken : List T) : Prop where
  pushed : next.store.pushed k = sys.store.pushed k ++ given
  popped : next.store.popped k = sys.store.popped k ++ taken
  length_le : sys.ops.length ≤ next.ops.length
  later : ∀ i x, sys.ops.length ≤ i → next.ops[i]? = some x → ∀ v ∈ carried k x.2, v ∈ taken

theorem Since.step {given taken : List T} {s : System T K I} (h : Since k s sys given taken)
    {e : Event T K I} (hst : sys.step max_size e = some next) :
    ∃ given taken, Since k s next given taken := by
  cases e with
  | begin who call =>
    cases hst
    refine ⟨given, taken, h.pushed, h.popped, ?_, ?_⟩
    · exact h.length_le.trans (by simp [System.begin])
    · intro i x hi hx
      rcases getElem?_concat_cases hx with hx | ⟨-, rfl⟩
      · exact h.later i x hi hx
      · cases call <;> simp [Call.start, carried]
  | advance m =>
    obtain ⟨who, op, op', hop, hstep, hops⟩ := System.advance_eq_ok (except_toOption_eq_some hst)
    obtain ⟨l, hpopped, hcarried⟩ := popped_of_step hstep k
    obtain ⟨l', hpushed, -⟩ := pushed_of_step hstep k
    refine ⟨given ++ l', taken ++ l, ?_, ?_, ?_, ?_⟩
    · rw [hpushed, h.pushed, List.append_assoc]
    · rw [hpopped, h.popped, List.append_assoc]
    · rw [hops, List.length_set]
      exact h.length_le
    · intro i x hi hx v hv
      rw [hops] at hx
      rcases getElem?_set_cases hx with ⟨rfl, rfl⟩ | ⟨-, hx⟩
      · rw [hcarried] at hv
        rcases List.mem_append.1 hv with hv | hv
        · exact List.mem_append_left _ (h.later i _ hi hop v hv)
        · exact List.mem_append_right _ hv
      · exact List.mem_append_left _ (h.later i x hi hx v hv)

theorem since_of_run {es : List (Event T K I)}
    (hrun : run (System.step max_size) sys es = some next) (k : K) :
    ∃ given taken, Since k sys next given taken := by
  apply run_invariant (P := fun _ _ => True) (I := fun s => ∃ given taken, Since k sys s given taken)
    ?_ ?_ (along_of_forall fun _ _ => trivial) hrun
  · intro s e t hs _ hst
    obtain ⟨given, taken, hs⟩ := hs
    exact hs.step hst
  · refine ⟨[], [], (List.append_nil _).symm, (List.append_nil _).symm, le_rfl, ?_⟩
    intro i x hi hx
    rw [List.getElem?_eq_none hi] at hx
    cases hx

end Runs

/-- In a run in which keys are only erased with an empty queue and with the other
calls aside: once `eraseKey` has returned, the values that are taken are the first of
those stored since then, in this order; a `get` that begins then gets one of them; and
the queue never holds more than `max_size - 1` values. -/
theorem erased_key_as_new (hmax : 1 ≤ max_size) {before after : List (Event T K I)} {j : ℕ}
    (horderly : Along (System.step max_size) Orderly System.empty (before ++ .advance j :: after))
    {last erased sys : System T K I} {who : I} {k : K}
    (hlast : run (System.step max_size) System.empty before = some last)
    (herased : last.step max_size (.advance j) = some erased)
    (hreturned : erased.ops[j]? = some (who, .eraseKey k .returned))
    (hafter : run (System.step max_size) erased after = some sys) :
    (∃ given taken, sys.store.pushed k = erased.store.pushed k ++ given ∧
        sys.store.popped k = erased.store.popped k ++ taken ∧ taken <+: given ∧
        ∀ i x, erased.ops.length ≤ i → sys.ops[i]? = some x → ∀ v ∈ carried k x.2, v ∈ taken) ∧
      (sys.store.collection k).length ≤ max_size - 1 := by
  have hrun : run (System.step max_size) System.empty (before ++ .advance j :: after) = some sys :=
    run_append.2 ⟨last, hlast, run_cons.2 ⟨erased, herased, hafter⟩⟩
  refine ⟨?_, (kept_of_run hmax horderly hrun k).length_le hmax⟩
  -- the last step of `eraseKey` was allowed, so the queue was empty
  have hempty : erased.store.collection k = [] := by
    obtain ⟨owner, op, op', hop, hstep, hops⟩ :=
      System.advance_eq_ok (except_toOption_eq_some herased)
    have hpermitted := (Along.of_append horderly hlast).1 _ hop
    rw [hops, List.getElem?_set_self (List.getElem?_eq_some_iff.1 hop).1] at hreturned
    cases hreturned
    generalize erased.store = q at hstep
    cases hstep with
    | eraseKey hstep =>
      cases hstep with
      | delete => exact hpermitted.1
  have herasedRun : run (System.step max_size) System.empty (before ++ [.advance j]) = some erased :=
    run_append.2 ⟨last, hlast, run_cons.2 ⟨erased, herased, rfl⟩⟩
  have hdrained := order_of_run herasedRun k
  rw [hempty, List.append_nil] at hdrained
  obtain ⟨given, taken, hsince⟩ := since_of_run hafter k
  refine ⟨given, taken, hsince.pushed, hsince.popped, ⟨sys.store.collection k, ?_⟩, hsince.later⟩
  have horder := order_of_run hrun k
  rw [hsince.pushed, hsince.popped, hdrained, List.append_assoc] at horder
  exact (List.append_cancel_left horder).symm

/-- The value 10 goes through the key 5, a consumer waits for more, and the key is
erased while the consumer is let through. -/
def eraseIdle : List (Event ℕ ℕ ℕ) :=
  List.flatten
    [[.begin 1 (.put 5 10)], List.replicate 6 (.advance 0), [.begin 2 (.get 5)],
      List.replicate 5 (.advance 1), [.begin 2 (.get 5)], List.replicate 2 (.advance 2),
      [.begin 1 (.eraseKey 5), .advance 3, .advance 3, .advance 2, .advance 3, .advance 2, .advance 3]]

def useAgain : List (Event ℕ ℕ ℕ) :=
  List.flatten
    [[.begin 1 (.put 5 11)], List.replicate 6 (.advance 4), [.begin 2 (.get 5)],
      List.replicate 5 (.advance 5)]

def idleErased : System ℕ ℕ ℕ :=
  finalState (System.step 2) System.empty (eraseIdle ++ [.advance 3])

def usedAgain : System ℕ ℕ ℕ := finalState (System.step 2) idleErased useAgain

theorem erased_key_as_new_usedAgain :
    ∃ given taken, usedAgain.store.pushed 5 = [10] ++ given ∧
      usedAgain.store.popped 5 = [10] ++ taken ∧ taken <+: given := by
  have hlast := run_finalState (System.step 2) System.empty eraseIdle (by decide +kernel)
  have herased := step_finalState (System.step 2) System.empty eraseIdle (.advance 3) (by decide +kernel)
  have hafter := run_finalState (System.step 2) idleErased useAgain (by decide +kernel)
  have hbefore : idleErased.store.pushed 5 = [10] ∧ idleErased.store.popped 5 = [10] := by
    decide +kernel
  have hdone : idleErased.ops[3]? = some (1, .eraseKey 5 .returned) := by decide +kernel
  obtain ⟨⟨given, taken, hpushed, hpopped, hprefix, -⟩, -⟩ := erased_key_as_new (by decide)
    (by decide +kernel) hlast herased hdone hafter
  refine ⟨given, taken, ?_, ?_, hprefix⟩
  · exact hpushed.trans (congrArg (· ++ given) hbefore.1)
  · exact hpopped.trans (congrArg (· ++ taken) hbefore.2)

def eraseQueued : List (Event ℕ ℕ ℕ) :=
  List.flatten
    [[.begin 1 (.put 5 10)], List.replicate 6 (.advance 0), [.begin 1 (.eraseKey 5)],
      List.replicate 4 (.advance 1)]

/-- Another value is put, which fills the queue beyond its capacity, and one is taken. -/
def putAndGet : List (Event ℕ ℕ ℕ) :=
  List.flatten
    [[.begin 1 (.put 5 11)], List.replicate 6 (.advance 2), [.begin 2 (.get 5)],
      List.replicate 5 (.advance 3)]

def queuedErased : System ℕ ℕ ℕ :=
  finalState (System.step 2) System.empty (eraseQueued ++ [.advance 1])

theorem erased_key_as_new_fails :
    ¬ ∀ (before after : List (Event ℕ ℕ ℕ)) (j : ℕ) (last erased sys : System ℕ ℕ ℕ) (who k : ℕ),
      run (System.step 2) System.empty before = some last →
      last.step 2 (.advance j) = some erased →
      erased.ops[j]? = some (who, .eraseKey k .returned) →
      run (System.step 2) erased after = some sys →
      (∃ given taken, sys.store.pushed k = erased.store.pushed k ++ given ∧
          sys.store.popped k = erased.store.popped k ++ taken ∧ taken <+: given ∧
          ∀ i x, erased.ops.length ≤ i → sys.ops[i]? = some x → ∀ v ∈ carried k x.2, v ∈ taken) ∧
        (sys.store.collection k).length ≤ (2 - 1 : ℤ) := by
  intro hall
  have hlast := run_finalState (System.step 2) System.empty eraseQueued (by decide +kernel)
  have herased := step_finalState (System.step 2) System.empty eraseQueued (.advance 1) (by decide +kernel)
  have hafter := run_finalState (System.step 2) queuedErased putAndGet (by decide +kernel)
  obtain ⟨⟨given, taken, hpushed, hpopped, hprefix, -⟩, -⟩ :=
    hall eraseQueued putAndGet 1 _ _ _ 1 5 hlast herased (by decide +kernel) hafter
  have hvalues : (finalState (System.step 2) queuedErased putAndGet).store.pushed 5 = [10, 11] ∧
      (finalState (System.step 2) queuedErased putAndGet).store.popped 5 = [10] ∧
      queuedErased.store.pushed 5 = [10] ∧ queuedErased.store.popped 5 = [] := by
    decide +kernel
  obtain ⟨hpushed', hpopped', hold, hnone⟩ := hvalues
  have hgiven : [11] = given := by
    have heq : [10, 11] = [10] ++ given := hpushed'.symm.trans (hpushed.trans (congrArg (· ++ given) hold))
    exact (List.cons.inj heq).2
  have htaken : [10] = taken :=
    hpopped'.symm.trans (hpopped.trans (congrArg (· ++ taken) hnone))
  rw [← hgiven, ← htaken] at hprefix
  revert hprefix
  decide

end PolkadotApi.KeyErasure

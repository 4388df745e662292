import PolkadotApi.SocketProgressPlaces

set_option autoImplicit false

namespace PolkadotApi.SocketProgress
open StepRuns StreamReader BoundedBuffer ConcurrentMapQueue QueueLaws
open SemaphoreLookups

variable {T K I : Type} [DecidableEq K] {max_size : ℤ} {k : K} {op next : Op T K} {q r : Store T K}

/-- A `put` on `k` that has left `addKey` and not passed its semaphore. -/
def entered (k : K) : Op T K → Bool
  | .put key _ .added => key = k
  | .put key _ (.waiting _) => key = k
  | _ => false

def begun (k : K) : Op T K → Bool
  | .put key _ (.addKey .adding) => key = k
  | op => entered k op

/-- A `put` on `k` on its way to its place: the semaphores it relies on stay. -/
structure Anchored (k : K) (sys : System T K I) : Prop where
  present : ∀ x ∈ sys.ops, begun k x.2 = true → (sys.store.semR k).isSome
  sole : ∀ x ∈ sys.ops, entered k x.2 = true → ∀ y ∈ sys.ops, phase k y.2 ≠ .adding
  linked : ∀ x ∈ sys.ops, ∀ v p, x.2 = .put k v (.waiting p) → sys.store.semW k = some p

theorem unpushed_of_begun (h : begun k op = true) : unpushed k op ≠ [] := by
  unfold begun at h
  split at h
  · simpa [unpushed] using h
  · unfold entered at h
    split at h
    · simpa [unpushed] using h
    · simpa [unpushed] using h
    · cases h

theorem begun_of_entered (h : entered k op = true) : begun k op = true := by
  unfold entered at h
  split at h
  · exact h
  · exact h
  · cases h

theorem key_of_begun {key : K} {v : T} {pc : PutPc K} (h : begun k (.put key v pc) = true) :
    key = k := by
  unfold begun at h
  split at h
  · next heq =>
    cases heq
    simpa using h
  · unfold entered at h
    split at h
    · next heq =>
      cases heq
      simpa using h
    · next heq =>
      cases heq
      simpa using h
    · cases h

theorem phase_of_entered (h : entered k op = true) : phase k op = .elsewhere := by
  unfold entered at h
  split at h
  · exact ite_self _
  · exact ite_self _
  · cases h

theorem semR_of_step (h : OpStep max_size op q next r) (hk : op.key = k → op.erases = false)
    (hq : (q.semR k).isSome) : (r.semR k).isSome := by
  have newR : ∀ key, ((q.newR key).semR k).isSome := by
    intro key
    by_cases heq : k = key
    · subst heq
      simp [Store.newR]
    · simpa [Store.newR, heq] using hq
  cases h with
  | put h =>
    cases h with
    | newR => exact newR _
    | _ => exact hq
  | get h =>
    cases h with
    | newR => exact newR _
    | _ => exact hq
  | eraseKey h =>
    have hne : k ≠ _ := fun heq => absurd (hk heq.symm) (by simp [Op.erases])
    cases h with
    | eraseR => exact (congrArg Option.isSome (Function.update_of_ne hne ..)).trans hq
    | _ => exact hq

theorem semR_of_adding (h : OpStep max_size op q next r) (hnext : phase k next = .adding) :
    q.semR k = none := by
  cases h with
  | @put key value _ _ _ _ h =>
    simp only [phase] at hnext
    split_ifs at hnext with hk
    subst hk
    cases h with
    | newR _ hnone => exact hnone
    | _ => cases hnext
  | @get key _ _ _ _ h =>
    simp only [phase] at hnext
    split_ifs at hnext with hk
    subst hk
    cases h with
    | newR _ hnone => exact hnone
    | _ => cases hnext
  | eraseKey h => cases hnext

theorem begun_of_step (h : OpStep max_size op q next r) (hnext : begun k next = true) :
    (q.keyMtx = false ∧ (r.semR k).isSome) ∨ (phase k op = .adding ∧ begun k op = true) ∨
      entered k op = true := by
  cases h with
  | @put key value _ _ _ _ h =>
    cases h with
    | found free hsome =>
      obtain rfl := key_of_begun hnext
      exact Or.inl ⟨free, hsome⟩
    | newR free hnone =>
      obtain rfl := key_of_begun hnext
      exact Or.inl ⟨free, by simp [Store.newR]⟩
    | newW =>
      obtain rfl := key_of_begun hnext
      exact Or.inr (Or.inl ⟨if_pos rfl, by simp [begun]⟩)
    | look hp =>
      obtain rfl := key_of_begun hnext
      exact Or.inr (Or.inr (by simp [entered]))
    | _ => cases hnext
  | get h => cases h <;> cases hnext
  | eraseKey h => cases h <;> cases hnext

theorem Anchored.begin {sys : System T K I} (h : Anchored k sys) (who : I) (call : Call T K) :
    Anchored k (sys.begin who call) := by
  have hnew : begun k call.start = false := by cases call <;> rfl
  have hold : ∀ x ∈ (sys.begin who call).ops, begun k x.2 = true → x ∈ sys.ops := by
    intro x hx hbegun
    rcases List.mem_append.1 hx with hx | hx
    · exact hx
    · rw [List.mem_singleton.1 hx, hnew] at hbegun
      cases hbegun
  constructor
  · intro x hx hbegun
    exact h.present x (hold x hx hbegun) hbegun
  · intro x hx hentered y hy
    rcases List.mem_append.1 hy with hy | hy
    · exact h.sole x (hold x hx (begun_of_entered hentered)) hentered y hy
    · rw [List.mem_singleton.1 hy, phase_start]
      decide
  · intro x hx v p hpc
    have hbegun : begun k x.2 = true := by
      rw [hpc]
      simp [begun, entered]
    exact h.linked x (hold x hx hbegun) v p hpc

theorem Anchored.advance {sys sys' : System T K I} {i : ℕ} {who : I} (h : Anchored k sys)
    (hmutex : Mutex sys) (hop : sys.ops[i]? = some (who, op))
    (hs : OpStep max_size op sys.store next sys'.store) (hops : sys'.ops = sys.ops.set i (who, next))
    (herase : op.key = k → op.erases = true → ∀ x ∈ sys.ops, unpushed k x.2 = []) :
    Anchored k sys' := by
  have hmem := List.mem_of_getElem? hop
  have hspared : ∀ x ∈ sys.ops, begun k x.2 = true → op.key = k → op.erases = false := by
    intro x hx hbegun hk
    cases herases : op.erases with
    | false => rfl
    | true => exact absurd (herase hk herases x hx) (unpushed_of_begun hbegun)
  have hfree : sys.store.keyMtx = false → ∀ y ∈ sys.ops, phase k y.2 ≠ .adding := by
    intro hfree y hy hadding
    have hheld := hmutex.held y hy (adds_of_phase hadding)
    rw [hfree] at hheld
    cases hheld
  constructor
  · intro x hx hbegun
    rw [hops] at hx
    rcases List.mem_or_eq_of_mem_set hx with hx | rfl
    · exact semR_of_step hs (hspared x hx hbegun) (h.present x hx hbegun)
    · have hkeep : begun k op = true → (sys'.store.semR k).isSome := fun hbefore =>
        semR_of_step hs (hspared _ hmem hbefore) (h.present _ hmem hbefore)
      rcases begun_of_step hs hbegun with ⟨_, hsome⟩ | ⟨_, hbefore⟩ | hbefore
      · exact hsome
      · exact hkeep hbefore
      · exact hkeep (begun_of_entered hbefore)
  · intro x hx hentered y hy hadding
    rw [hops] at hx hy
    have hbegun := begun_of_entered hentered
    obtain ⟨m, hm⟩ := List.mem_iff_getElem?.1 hx
    obtain ⟨j, hj⟩ := List.mem_iff_getElem?.1 hy
    rcases getElem?_set_cases hm with ⟨rfl, rfl⟩ | ⟨hmi, hm⟩
    · rcases getElem?_set_cases hj with ⟨rfl, rfl⟩ | ⟨hji, hj⟩
      · rw [phase_of_entered hentered] at hadding
        cases hadding
      · rcases begun_of_step hs hbegun with ⟨hopen, _⟩ | ⟨hbefore, _⟩ | hbefore
        · exact hfree hopen y (List.mem_of_getElem? hj) hadding
        · exact hji (hmutex.single j m y _ hj hop (adds_of_phase hadding) (adds_of_phase hbefore))
        · exact h.sole _ hmem hbefore y (List.mem_of_getElem? hj) hadding
    · have hold := List.mem_of_getElem? hm
      rcases getElem?_set_cases hj with ⟨rfl, rfl⟩ | ⟨_, hj⟩
      · have hnone := semR_of_adding hs hadding
        have hsome := h.present x hold hbegun
        rw [hnone] at hsome
        cases hsome
      · exact h.sole x hold hentered y (List.mem_of_getElem? hj) hadding
  · intro x hx v p hpc
    rw [hops] at hx
    rcases List.mem_or_eq_of_mem_set hx with hx | rfl
    · have hentered : entered k x.2 = true := by
        rw [hpc]
        simp [entered]
      have hbegun := begun_of_entered hentered
      have hadding : phase k op = .adding → sys.store.semW k = none :=
        fun hphase => absurd hphase (h.sole x hx hentered _ hmem)
      have hsem : sys.store.sem .write k = some p := h.linked x hx v p hpc
      exact sem_of_step hs (hspared x hx hbegun) hadding hsem
    · dsimp only at hpc
      subst hpc
      exact held_of_step hs rfl rfl

end PolkadotApi.SocketProgress

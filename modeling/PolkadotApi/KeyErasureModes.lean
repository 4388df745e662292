import PolkadotApi.QueueGuarantees

set_option autoImplicit false

namespace PolkadotApi.KeyErasure
open StepRuns StreamReader BoundedBuffer ConcurrentMapQueue QueueLaws QueueGuarantees

variable {T K I : Type} [DecidableEq K] {max_size : ℤ}

/-- The semaphores that `eraseKey` has looked up and not yet deleted. -/
def captured : ErasePc K → Option (SemaphorePtr K × Option (SemaphorePtr K))
  | .looked r w => some (r, w)
  | .unblocked r w => some (r, w)
  | .erasedR r w => some (r, w)
  | .erasedW r w => some (r, w)
  | _ => none

def erasing (k : K) : Op T K → Bool
  | .eraseKey key pc => decide (key = k) && (captured pc).isSome
  | _ => false

/-- The call is not between its semaphores, or it is a consumer that was let through. -/
def Aside (k : K) (op : Op T K) : Prop := phase k op = .elsewhere ∨ phase k op = .claimed

def Undisturbed (k : K) (sys : System T K I) : Prop := ∀ y ∈ sys.ops, erasing k y.2 = false

/-- When the `i`th call may take its next step. An `eraseKey` may while the queue is
empty and all other calls on the key stand aside; the others may not in the middle of
an `eraseKey`, but for consumers that it lets through. -/
def Permitted (sys : System T K I) (i : ℕ) : Op T K → Prop
  | .eraseKey k _ => sys.store.collection k = [] ∧
      ∀ y ∈ sys.ops.eraseIdx i, erasing k y.2 = false ∧ Aside k y.2
  | .put k _ _ => Undisturbed k sys
  | .get k pc =>
    match pc with
    | .waiting _ => True
    | .granted => True
    | _ => Undisturbed k sys

def Orderly (sys : System T K I) : Event T K I → Prop
  | .begin _ _ => True
  | .advance i => ∀ x ∈ sys.ops[i]?, Permitted sys i x.2

section Decidability

variable (k : K) (sys : System T K I) (i : ℕ)

instance (op : Op T K) : Decidable (Aside k op) :=
  inferInstanceAs (Decidable (phase k op = .elsewhere ∨ phase k op = .claimed))

instance : Decidable (Undisturbed k sys) :=
  inferInstanceAs (Decidable (∀ y ∈ sys.ops, erasing k y.2 = false))

instance [DecidableEq T] : ∀ op : Op T K, Decidable (Permitted sys i op)
  | .eraseKey k _ => inferInstanceAs (Decidable (sys.store.collection k = [] ∧
      ∀ y ∈ sys.ops.eraseIdx i, erasing k y.2 = false ∧ Aside k y.2))
  | .put k _ _ => inferInstanceAs (Decidable (Undisturbed k sys))
  | .get _ (.waiting _) => inferInstanceAs (Decidable True)
  | .get _ .granted => inferInstanceAs (Decidable True)
  | .get k (.addKey _) => inferInstanceAs (Decidable (Undisturbed k sys))
  | .get k .added => inferInstanceAs (Decidable (Undisturbed k sys))
  | .get k (.popped _) => inferInstanceAs (Decidable (Undisturbed k sys))
  | .get k (.returned _) => inferInstanceAs (Decidable (Undisturbed k sys))

instance [DecidableEq T] : ∀ e : Event T K I, Decidable (Orderly sys e)
  | .begin _ _ => inferInstanceAs (Decidable True)
  | .advance i => inferInstanceAs (Decidable (∀ x ∈ sys.ops[i]?, Permitted sys i x.2))

end Decidability

section Steps

variable {op next : Op T K} {q r : Store T K} {k : K}

theorem deleted_of_step (h : OpStep max_size op q next r) {p : SemaphorePtr K}
    (hp : q.deleted p = true) : r.deleted p = true := by
  cases h with
  | put h => cases h <;> exact hp
  | get h => cases h <;> exact hp
  | eraseKey h =>
    cases h with
    | delete => simp [hp]
    | _ => exact hp

theorem alive_of_step (h : OpStep max_size op q next r) {p : SemaphorePtr K}
    (hp : op.holds = some p) : q.deleted p = false := by
  cases h with
  | put h =>
    cases h with
    | take alive =>
      cases hp
      exact alive
    | _ => cases hp
  | get h =>
    cases h with
    | take alive =>
      cases hp
      exact alive
    | _ => cases hp
  | eraseKey h =>
    cases h with
    | unblock alive =>
      cases hp
      exact alive
    | _ => cases hp

theorem sem_of_ne (h : OpStep max_size op q next r) (hk : op.key ≠ k) (side : Side) :
    r.sem side k = q.sem side k := by
  cases h with
  | put h =>
    simp only [Op.key] at hk
    cases h <;> cases side <;>
      first | rfl | exact Function.update_of_ne (Ne.symm hk) ..
  | get h =>
    simp only [Op.key] at hk
    cases h <;> cases side <;>
      first | rfl | exact Function.update_of_ne (Ne.symm hk) ..
  | eraseKey h =>
    simp only [Op.key] at hk
    cases h <;> cases side <;>
      first | rfl | exact Function.update_of_ne (Ne.symm hk) ..

theorem not_returned_of_step (h : OpStep max_size op q next r) : hasReturned op = false := by
  cases h with
  | put h => cases h <;> rfl
  | get h => cases h <;> rfl
  | eraseKey h => cases h <;> rfl

theorem erasing_of_ne (hk : op.key ≠ k) : erasing k op = false := by
  cases op with
  | eraseKey key pc => simp [erasing, show key ≠ k from hk]
  | _ => rfl

end Steps

section Modes

/-- No `eraseKey` of `k` is under way. A call that waits holds the semaphore in the
map or one that is deleted. -/
structure Open (max_size : ℤ) (k : K) (sys : System T K I) : Prop where
  undisturbed : Undisturbed k sys
  linked : ∀ x ∈ sys.ops, x.2.key = k → x.2.erases = false → ∀ p, x.2.holds = some p →
    sys.store.sem x.2.side k = some p ∨ sys.store.deleted p = true
  roomy : Roomy (max_size - 1) (view max_size k sys.store)
    (census (fun x : I × Op T K => phase k x.2) sys.ops)

/-- The `j`th call is erasing `k`, with the semaphores `r` and `w` in hand. -/
structure Closing (k : K) (j : ℕ) (pc : ErasePc K) (r : SemaphorePtr K)
    (w : Option (SemaphorePtr K)) (sys : System T K I) : Prop where
  here : ∃ who, sys.ops[j]? = some (who, .eraseKey k pc)
  hands : captured pc = some (r, w)
  alone : ∀ i x, i ≠ j → sys.ops[i]? = some x → erasing k x.2 = false
  items : sys.store.collection k = []
  aside : ∀ x ∈ sys.ops, Aside k x.2
  linked : ∀ x ∈ sys.ops, x.2.key = k → x.2.erases = false → ∀ p, x.2.holds = some p →
    sys.store.deleted p = true ∨ x.2.side = .read ∧ p = r ∨ x.2.side = .write ∧ w = some p
  erasedR : pc = .erasedR r w ∨ pc = .erasedW r w → sys.store.semR k = none
  erasedW : pc = .erasedW r w → sys.store.semW k = none

def Kept (max_size : ℤ) (k : K) (sys : System T K I) : Prop :=
  Open max_size k sys ∨ ∃ j pc r w, Closing k j pc r w sys

variable {sys next : System T K I} {k : K} {j : ℕ} {pc : ErasePc K} {r : SemaphorePtr K}
variable {w : Option (SemaphorePtr K)} {i : ℕ} {who : I} {op op' : Op T K}

theorem Kept.begin (h : Kept max_size k sys) (who : I) (call : Call T K) :
    Kept max_size k (sys.begin who call) := by
  have hnew : erasing k call.start = false ∧ Aside k call.start := by
    cases call with
    | eraseKey key => exact ⟨by simp [Call.start, erasing, captured], Or.inl rfl⟩
    | put key value => exact ⟨rfl, Or.inl (ite_self _)⟩
    | get key => exact ⟨rfl, Or.inl (ite_self _)⟩
  rcases h with h | ⟨j, pc, r, w, h⟩
  · refine Or.inl ⟨?_, ?_, ?_⟩
    · intro x hx
      rcases List.mem_append.1 hx with hx | hx
      · exact h.undisturbed x hx
      · rw [List.mem_singleton.1 hx]
        exact hnew.1
    · intro x hx hkey herases p hp
      rcases List.mem_append.1 hx with hx | hx
      · exact h.linked x hx hkey herases p hp
      · rw [List.mem_singleton.1 hx, call.start_holds] at hp
        cases hp
    · apply h.roomy.congr
      intro p hp
      exact census_append (fun x : I × Op T K => phase k x.2) sys.ops (x := (who, call.start))
        (phase_start k call) hp
  · refine Or.inr ⟨j, pc, r, w, ?_, h.hands, ?_, h.items, ?_, ?_, h.erasedR, h.erasedW⟩
    · obtain ⟨owner, hj⟩ := h.here
      exact ⟨owner, List.getElem?_append_left (List.getElem?_eq_some_iff.1 hj).1 ▸ hj⟩
    · intro i x hi hx
      rcases getElem?_concat_cases hx with hx | ⟨-, rfl⟩
      · exact h.alone i x hi hx
      · exact hnew.1
    · intro x hx
      rcases List.mem_append.1 hx with hx | hx
      · exact h.aside x hx
      · rw [List.mem_singleton.1 hx]
        exact hnew.2
    · intro x hx hkey herases p hp
      rcases List.mem_append.1 hx with hx | hx
      · exact h.linked x hx hkey herases p hp
      · rw [List.mem_singleton.1 hx, call.start_holds] at hp
        cases hp

theorem Kept.other (h : Kept max_size k sys) (hnamed : sys.Named)
    (hop : sys.ops[i]? = some (who, op)) (hs : OpStep max_size op sys.store op' next.store)
    (hops : next.ops = sys.ops.set i (who, op')) (hk : op.key ≠ k) : Kept max_size k next := by
  have hmem := List.mem_of_getElem? hop
  have hk' : op'.key ≠ k := by rwa [hs.kind.1]
  have hview : view max_size k next.store = view max_size k sys.store :=
    view_of_ne hs hnamed.store (hnamed.ops _ hmem) hk
  rcases h with h | ⟨j, pc, r, w, h⟩
  · refine Or.inl ⟨?_, ?_, ?_⟩
    · intro x hx
      rw [hops] at hx
      rcases List.mem_or_eq_of_mem_set hx with hx | rfl
      · exact h.undisturbed x hx
      · exact erasing_of_ne hk'
    · intro x hx hkey herases p hp
      rw [hops] at hx
      rcases List.mem_or_eq_of_mem_set hx with hx | rfl
      · rw [sem_of_ne hs hk]
        exact (h.linked x hx hkey herases p hp).imp_right (deleted_of_step hs)
      · exact absurd hkey hk'
    · rw [hview, hops, census_of_ne hop hk hs.kind.1]
      exact h.roomy
  · obtain ⟨owner, hj⟩ := h.here
    have hne : i ≠ j := by
      rintro rfl
      cases hop.symm.trans hj
      exact hk rfl
    refine Or.inr ⟨j, pc, r, w, ?_, h.hands, ?_, ?_, ?_, ?_, ?_, ?_⟩
    · exact ⟨owner, by rw [hops, List.getElem?_set_ne hne, hj]⟩
    · intro m x hm hx
      rw [hops] at hx
      rcases getElem?_set_cases hx with ⟨rfl, rfl⟩ | ⟨-, hx⟩
      · exact erasing_of_ne hk'
      · exact h.alone m x hm hx
    · exact (congrArg Buffer.items hview).trans h.items
    · intro x hx
      rw [hops] at hx
      rcases List.mem_or_eq_of_mem_set hx with hx | rfl
      · exact h.aside x hx
      · exact Or.inl (phase_ne hk')
    · intro x hx hkey herases p hp
      rw [hops] at hx
      rcases List.mem_or_eq_of_mem_set hx with hx | rfl
      · exact (h.linked x hx hkey herases p hp).imp_left (deleted_of_step hs)
      · exact absurd hkey hk'
    · exact fun hpc => (sem_of_ne hs hk .read).trans (h.erasedR hpc)
    · exact fun hpc => (sem_of_ne hs hk .write).trans (h.erasedW hpc)

theorem Open.advance (h : Open max_size k sys) (hmax : 1 ≤ max_size) (hnamed : sys.Named)
    (hop : sys.ops[i]? = some (who, op)) (hs : OpStep max_size op sys.store op' next.store)
    (hops : next.ops = sys.ops.set i (who, op')) (hk : op.key = k) (he : op.erases = false) :
    Open max_size k next := by
  have hmem := List.mem_of_getElem? hop
  have hkind := hs.kind
  have hadd : phase k op = .adding → sys.store.semW k = none := semW_of_adding h.roomy.pair hmem
  refine ⟨?_, ?_, ?_⟩
  · intro x hx
    rw [hops] at hx
    rcases List.mem_or_eq_of_mem_set hx with hx | rfl
    · exact h.undisturbed x hx
    · cases hs with
      | eraseKey => cases he
      | _ => rfl
  · intro x hx hkey herases p hp
    rw [hops] at hx
    rcases List.mem_or_eq_of_mem_set hx with hx | rfl
    · rcases h.linked x hx hkey herases p hp with hsem | hdeleted
      · exact Or.inl (sem_of_step hs (fun _ => he) hadd hsem)
      · exact Or.inr (deleted_of_step hs hdeleted)
    · left
      rw [← hkey]
      exact held_of_step hs herases hp
  · subst hk
    have hlinked : ∀ p, op.holds = some p → sys.store.sem op.side op.key = some p := by
      intro p hp
      rcases h.linked _ hmem rfl he p hp with hsem | hdeleted
      · exact hsem
      · rw [alive_of_step hs hp] at hdeleted
        cases hdeleted
    have hmoves := census_set (fun x : I × Op T K => phase op.key x.2) (y := (who, op')) hop
    rw [hops]
    exact h.roomy.step (by omega) (step_of_key hs hnamed.store he hlinked) hmoves

theorem Open.look (h : Open max_size k sys) (hop : sys.ops[i]? = some (who, .eraseKey k pc))
    {pc' : ErasePc K} (hs : EraseStep k pc sys.store pc' next.store)
    (hops : next.ops = sys.ops.set i (who, .eraseKey k pc'))
    (hpermitted : Permitted sys i (.eraseKey k pc)) :
    ∃ j pc r w, Closing k j pc r w next := by
  have hlt := (List.getElem?_eq_some_iff.1 hop).1
  have hcalm := h.undisturbed _ (List.mem_of_getElem? hop)
  obtain ⟨hitems, hothers⟩ := hpermitted
  have hother : ∀ m x, m ≠ i → sys.ops[m]? = some x → erasing k x.2 = false ∧ Aside k x.2 :=
    fun m x hm hx => hothers x (List.mem_eraseIdx_iff_getElem?.2 ⟨m, hm, hx⟩)
  generalize hnext : next.store = q at hs
  cases hs with
  | @look _ p hp =>
    refine ⟨i, .looked p (sys.store.semW k), p, sys.store.semW k, ⟨who, ?_⟩, rfl, ?_, ?_, ?_, ?_, ?_,
      ?_⟩
    · rw [hops, List.getElem?_set_self hlt]
    · intro m x hm hx
      rw [hops, List.getElem?_set_ne (Ne.symm hm)] at hx
      exact (hother m x hm hx).1
    · rw [hnext]
      exact hitems
    · intro x hx
      rw [hops] at hx
      obtain ⟨m, hm⟩ := List.mem_iff_getElem?.1 hx
      rcases getElem?_set_cases hm with ⟨rfl, rfl⟩ | ⟨hne, hm⟩
      · exact Or.inl rfl
      · exact (hother m x hne hm).2
    · intro x hx hkey herases o ho
      rw [hops] at hx
      rcases List.mem_or_eq_of_mem_set hx with hx | rfl
      · rw [hnext]
        rcases h.linked x hx hkey herases o ho with hsem | hdeleted
        · cases hside : x.2.side with
          | read =>
            rw [hside] at hsem
            exact Or.inr (Or.inl ⟨rfl, Option.some.inj (hsem.symm.trans hp)⟩)
          | write =>
            rw [hside] at hsem
            exact Or.inr (Or.inr ⟨rfl, hsem⟩)
        · exact Or.inl hdeleted
      · cases herases
    · rintro (hpc | hpc) <;> cases hpc
    · intro hpc
      cases hpc
  | _ => simp [erasing, captured] at hcalm

theorem Closing.released (h : Closing k j pc r w sys) {gpc gpc' : GetPc T K}
    (hop : sys.ops[i]? = some (who, .get k gpc))
    (hs : GetStep max_size k gpc sys.store gpc' next.store)
    (hops : next.ops = sys.ops.set i (who, .get k gpc'))
    (hpc : (∃ p, gpc = .waiting p) ∨ gpc = .granted) : Closing k j pc r w next := by
  obtain ⟨owner, hj⟩ := h.here
  have hne : i ≠ j := by
    rintro rfl
    cases hop.symm.trans hj
  have hstep : next.store.collection = sys.store.collection ∧ next.store.semR = sys.store.semR ∧
      next.store.semW = sys.store.semW ∧ next.store.deleted = sys.store.deleted ∧
      Aside k (.get k gpc' : Op T K) ∧ (.get k gpc' : Op T K).holds = none := by
    generalize next.store = q at hs
    rcases hpc with ⟨p, rfl⟩ | rfl
    · cases hs with
      | take => exact ⟨rfl, rfl, rfl, rfl, Or.inr (if_pos rfl), rfl⟩
    · cases hs with
      | pop hitems =>
        rw [h.items] at hitems
        cases hitems
      | miss => exact ⟨rfl, rfl, rfl, rfl, Or.inl (ite_self _), rfl⟩
  obtain ⟨hcollection, hsemR, hsemW, hdeleted, haside, hholds⟩ := hstep
  refine ⟨⟨owner, by rw [hops, List.getElem?_set_ne hne, hj]⟩, h.hands, ?_, ?_, ?_, ?_, ?_, ?_⟩
  · intro m x hm hx
    rw [hops] at hx
    rcases getElem?_set_cases hx with ⟨rfl, rfl⟩ | ⟨-, hx⟩
    · rfl
    · exact h.alone m x hm hx
  · rw [hcollection]
    exact h.items
  · intro x hx
    rw [hops] at hx
    rcases List.mem_or_eq_of_mem_set hx with hx | rfl
    · exact h.aside x hx
    · exact haside
  · intro x hx hkey herases p hp
    rw [hops] at hx
    rcases List.mem_or_eq_of_mem_set hx with hx | rfl
    · rw [hdeleted]
      exact h.linked x hx hkey herases p hp
    · rw [hholds] at hp
      cases hp
  · rw [hsemR]
    exact h.erasedR
  · rw [hsemW]
    exact h.erasedW

theorem roomy_of_aside (hmax : 1 ≤ max_size) (haside : ∀ x ∈ sys.ops, Aside k x.2)
    (hsemR : sys.store.semR k = none) (hsemW : sys.store.semW k = none)
    (hitems : sys.store.collection k = []) : Roomy (max_size - 1) (view max_size k sys.store)
      (census (fun x : I × Op T K => phase k x.2) sys.ops) := by
  have hzero : ∀ a, a ≠ .elsewhere → a ≠ .claimed →
      census (fun x : I × Op T K => phase k x.2) sys.ops a = 0 := by
    intro a helsewhere hclaimed
    apply census_eq_zero
    intro x hx hphase
    rcases haside x hx with hx | hx
    · exact helsewhere (hphase.symm.trans hx)
    · exact hclaimed (hphase.symm.trans hx)
  have hwritable : (view max_size k sys.store).writable = max_size - 1 := by
    simp only [view, level, Store.sem, hsemW, Option.elim_none]
  refine ⟨?_, ?_, fun _ => hwritable, ?_⟩
  · rw [hwritable, hzero .reserved (by decide) (by decide), hzero .freeing (by decide) (by decide)]
    simp [view, hitems]
  · rw [hzero .adding (by decide) (by decide)]
    simp [view, hsemR, hsemW]
  · rw [hwritable]
    omega

/-- The rest of an `eraseKey`. After its last step the key is as before its first use. -/
theorem Closing.advance (h : Closing k j pc r w sys) (hmax : 1 ≤ max_size)
    (hop : sys.ops[j]? = some (who, .eraseKey k pc)) {pc' : ErasePc K}
    (hs : EraseStep k pc sys.store pc' next.store)
    (hops : next.ops = sys.ops.set j (who, .eraseKey k pc')) : Kept max_size k next := by
  have hlt := (List.getElem?_eq_some_iff.1 hop).1
  have hhere : next.ops[j]? = some (who, .eraseKey k pc') := by
    rw [hops, List.getElem?_set_self hlt]
  have halone : ∀ i x, i ≠ j → next.ops[i]? = some x → erasing k x.2 = false := by
    intro i x hi hx
    rw [hops, List.getElem?_set_ne (Ne.symm hi)] at hx
    exact h.alone i x hi hx
  have haside : ∀ x ∈ next.ops, Aside k x.2 := by
    intro x hx
    rw [hops] at hx
    rcases List.mem_or_eq_of_mem_set hx with hx | rfl
    · exact h.aside x hx
    · exact Or.inl rfl
  have hlinked : ∀ x ∈ next.ops, x.2.key = k → x.2.erases = false → ∀ p, x.2.holds = some p →
      sys.store.deleted p = true ∨ x.2.side = .read ∧ p = r ∨ x.2.side = .write ∧ w = some p := by
    intro x hx hkey herases p hp
    rw [hops] at hx
    rcases List.mem_or_eq_of_mem_set hx with hx | rfl
    · exact h.linked x hx hkey herases p hp
    · cases herases
  have hclosing : captured pc' = some (r, w) → next.store.collection = sys.store.collection →
      next.store.deleted = sys.store.deleted →
      (pc' = .erasedR r w ∨ pc' = .erasedW r w → next.store.semR k = none) →
      (pc' = .erasedW r w → next.store.semW k = none) → Kept max_size k next := by
    intro hhands hcollection hdeleted herasedR herasedW
    refine Or.inr ⟨j, pc', r, w, ⟨who, hhere⟩, hhands, halone, ?_, haside, ?_, herasedR, herasedW⟩
    · rw [hcollection]
      exact h.items
    · rw [hdeleted]
      exact hlinked
  have hhands := h.hands
  generalize hnext : next.store = q at hs
  rw [hnext] at hclosing
  cases hs with
  | look => cases hhands
  | @unblock _ p o alive =>
    cases hhands
    refine hclosing rfl rfl rfl ?_ ?_
    · rintro (hpc | hpc) <;> cases hpc
    · rintro ⟨⟩
  | @eraseR _ p o =>
    cases hhands
    refine hclosing rfl rfl rfl (fun _ => Function.update_self ..) ?_
    rintro ⟨⟩
  | @eraseW _ p o =>
    cases hhands
    exact hclosing rfl rfl rfl (fun _ => h.erasedR (Or.inl rfl)) fun _ => Function.update_self ..
  | @delete _ p o alive =>
    cases hhands
    have hsemR : next.store.semR k = none := by
      rw [hnext]
      exact h.erasedR (Or.inr rfl)
    have hsemW : next.store.semW k = none := by
      rw [hnext]
      exact h.erasedW rfl
    have hitems : next.store.collection k = [] := by
      rw [hnext]
      exact h.items
    refine Or.inl ⟨?_, ?_, roomy_of_aside hmax haside hsemR hsemW hitems⟩
    · intro x hx
      obtain ⟨m, hm⟩ := List.mem_iff_getElem?.1 hx
      by_cases hmj : m = j
      · subst m
        cases hm.symm.trans hhere
        simp [erasing, captured]
      · exact halone m x hmj hm
    · intro x hx hkey herases p hp
      right
      rw [hnext]
      rcases hlinked x hx hkey herases p hp with hdeleted | ⟨-, rfl⟩ | ⟨-, hw⟩
      · simp [hdeleted]
      · simp
      · simp [hw]

theorem Closing.disturbed (h : Closing k j pc r w sys) : ¬ Undisturbed k sys := by
  intro hcalm
  obtain ⟨owner, hj⟩ := h.here
  have hnot := hcalm _ (List.mem_of_getElem? hj)
  simp [erasing, h.hands] at hnot

theorem Kept.step (h : Kept max_size k sys) (hmax : 1 ≤ max_size) (hnamed : sys.Named)
    {e : Event T K I} (ho : Orderly sys e) (hst : sys.step max_size e = some next) :
    Kept max_size k next := by
  cases e with
  | begin who call =>
    cases hst
    exact h.begin who call
  | advance i =>
    obtain ⟨who, op, op', hop, hs, hops⟩ := System.advance_eq_ok (except_toOption_eq_some hst)
    have hpermitted := ho _ hop
    by_cases hk : op.key = k
    · rcases h with h | ⟨j, pc, r, w, h⟩
      · cases hs with
        | put hs => exact Or.inl (h.advance hmax hnamed hop (.put hs) hops hk rfl)
        | get hs => exact Or.inl (h.advance hmax hnamed hop (.get hs) hops hk rfl)
        | eraseKey hs =>
          cases hk
          exact Or.inr (h.look hop hs hops hpermitted)
      · cases hs with
        | put hs =>
          cases hk
          exact absurd hpermitted h.disturbed
        | @get key gpc _ _ _ hs =>
          cases hk
          cases gpc with
          | waiting p => exact Or.inr ⟨j, pc, r, w, h.released hop hs hops (Or.inl ⟨p, rfl⟩)⟩
          | granted => exact Or.inr ⟨j, pc, r, w, h.released hop hs hops (Or.inr rfl)⟩
          | _ => exact absurd hpermitted h.disturbed
        | eraseKey hs =>
          cases hk
          obtain ⟨owner, hj⟩ := h.here
          by_cases hij : i = j
          · subst hij
            cases hop.symm.trans hj
            exact h.advance hmax hop hs hops
          · have hmem := List.mem_eraseIdx_iff_getElem?.2 ⟨j, Ne.symm hij, hj⟩
            have hnot := (hpermitted.2 _ hmem).1
            simp [erasing, h.hands, Op.key] at hnot
    · exact h.other hnamed hop hs hops hk

theorem Kept.length_le (h : Kept max_size k sys) (hmax : 1 ≤ max_size) :
    ((sys.store.collection k).length : ℤ) ≤ max_size - 1 := by
  rcases h with h | ⟨j, pc, r, w, h⟩
  · exact h.roomy.length_le
  · rw [h.items]
    simpa using hmax

theorem kept_empty (hmax : 1 ≤ max_size) (k : K) :
    Kept max_size k (System.empty : System T K I) := by
  refine Or.inl ⟨?_, ?_, (keyLaws_empty hmax k).lawful.roomy⟩
  · intro x hx
    cases hx
  · intro x hx
    cases hx

end Modes

end PolkadotApi.KeyErasure

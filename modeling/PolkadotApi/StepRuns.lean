import Mathlib.Algebra.GroupWithZero.Nat
import Mathlib.Data.List.Basic

set_option autoImplicit false

/-!
`step s e` is `none` when the event `e` cannot happen in `s`. An interleaving
of several parties is one list of events.
-/
namespace PolkadotApi.StepRuns

variable {S E : Type} (step : S → E → Option S)

def run : S → List E → Option S
  | s, [] => some s
  | s, e :: es => (step s e).bind fun t => run t es

/-- Every step that a run takes is taken in a state and with an event that `P`
allows. -/
def Along (P : S → E → Prop) : S → List E → Prop
  | _, [] => True
  | s, e :: es => P s e ∧ ∀ t, step s e = some t → Along P t es

instance decidableAlong (P : S → E → Prop) [∀ s e, Decidable (P s e)] :
    ∀ s es, Decidable (Along step P s es)
  | _, [] => inferInstanceAs (Decidable True)
  | s, e :: es =>
    have := fun t => decidableAlong P t es
    inferInstanceAs (Decidable (P s e ∧ ∀ t ∈ step s e, Along step P t es))

def Reachable (init s : S) : Prop := ∃ es, run step init es = some s

variable {step}

theorem run_cons {s u : S} {e : E} {es : List E} :
    run step s (e :: es) = some u ↔ ∃ t, step s e = some t ∧ run step t es = some u :=
  Option.bind_eq_some_iff

def finalState (step : S → E → Option S) (s : S) (es : List E) : S := (run step s es).getD s

theorem run_finalState (step : S → E → Option S) (s : S) (es : List E)
    (h : (run step s es).isSome) : run step s es = some (finalState step s es) := by
  obtain ⟨t, ht⟩ := Option.isSome_iff_exists.1 h
  rw [finalState, ht, Option.getD_some]

theorem run_append {s u : S} {es fs : List E} :
    run step s (es ++ fs) = some u ↔ ∃ t, run step s es = some t ∧ run step t fs = some u := by
  induction es generalizing s with
  | nil => simp [run]
  | cons e es ih =>
    rw [List.cons_append, run_cons]
    constructor
    · rintro ⟨v, hv, h⟩
      obtain ⟨t, ht, hu⟩ := ih.1 h
      exact ⟨t, run_cons.2 ⟨v, hv, ht⟩, hu⟩
    · rintro ⟨t, ht, hu⟩
      obtain ⟨v, hv, h⟩ := run_cons.1 ht
      exact ⟨v, hv, ih.2 ⟨t, h, hu⟩⟩

theorem step_finalState (step : S → E → Option S) (s : S) (es : List E) (e : E)
    (h : (run step s (es ++ [e])).isSome) :
    step (finalState step s es) e = some (finalState step s (es ++ [e])) := by
  obtain ⟨t, ht, he⟩ := run_append.1 (run_finalState _ _ _ h)
  obtain ⟨u, hu, hnil⟩ := run_cons.1 he
  cases hnil
  rw [finalState, ht, Option.getD_some]
  exact hu

theorem along_of_forall {P : E → Prop} {s : S} {es : List E} (h : ∀ e ∈ es, P e) :
    Along step (fun _ e => P e) s es := by
  induction es generalizing s with
  | nil => trivial
  | cons e es ih =>
    exact ⟨h e List.mem_cons_self, fun t _ => ih fun e' he' => h e' (List.mem_cons_of_mem e he')⟩

theorem run_isSome_iff {P : S → E → Prop} (hstep : ∀ s e, (step s e).isSome ↔ P s e) {s : S}
    {es : List E} : (run step s es).isSome ↔ Along step P s es := by
  induction es generalizing s with
  | nil => exact iff_of_true rfl trivial
  | cons e es ih =>
    change ((step s e).bind fun t => run step t es).isSome ↔ _ ∧ _
    rw [← hstep s e]
    cases step s e with
    | none => simp
    | some t => simp [ih]

theorem along_congr {P Q : S → E → Prop} (hstep : ∀ s e t, step s e = some t → (P s e ↔ Q s e))
    {s t : S} {es : List E} (h : run step s es = some t) :
    Along step P s es ↔ Along step Q s es := by
  induction es generalizing s with
  | nil => rfl
  | cons e es ih =>
    obtain ⟨u, hu, hrest⟩ := run_cons.1 h
    have hlater : ∀ v, step s e = some v → (Along step P v es ↔ Along step Q v es) := by
      intro v hv
      cases hu.symm.trans hv
      exact ih hrest
    exact and_congr (hstep s e u hu) (forall₂_congr hlater)

theorem along_of_splits {P : S → E → Prop} {s t : S} {es : List E} (hrun : run step s es = some t)
    (h : ∀ before e rest u v, es = before ++ e :: rest → run step s before = some u →
      step u e = some v → P u e) : Along step P s es := by
  induction es generalizing s with
  | nil => trivial
  | cons e es ih =>
    obtain ⟨u, hu, hrest⟩ := run_cons.1 hrun
    refine ⟨h [] e es s u rfl rfl hu, ?_⟩
    intro v hv
    cases hu.symm.trans hv
    apply ih hrest
    rintro before e' rest u' v' rfl hbefore hstep
    exact h (e :: before) e' rest u' v' rfl (run_cons.2 ⟨u, hu, hbefore⟩) hstep

theorem Along.of_append {P : S → E → Prop} {s t : S} {es fs : List E}
    (h : Along step P s (es ++ fs)) (hrun : run step s es = some t) : Along step P t fs := by
  induction es generalizing s with
  | nil =>
    cases hrun
    exact h
  | cons e es ih =>
    obtain ⟨u, hu, hrest⟩ := run_cons.1 hrun
    exact ih (h.2 u hu) hrest

theorem Along.append {P : S → E → Prop} {s t : S} {es fs : List E} (h : Along step P s es)
    (hrun : run step s es = some t) (hlater : Along step P t fs) : Along step P s (es ++ fs) := by
  induction es generalizing s with
  | nil =>
    cases hrun
    exact hlater
  | cons e es ih =>
    obtain ⟨u, hu, hrest⟩ := run_cons.1 hrun
    refine ⟨h.1, fun v hv => ?_⟩
    cases hu.symm.trans hv
    exact ih (h.2 u hu) hrest

theorem run_invariant {P : S → E → Prop} {I : S → Prop}
    (hstep : ∀ s e t, I s → P s e → step s e = some t → I t) {s t : S} {es : List E}
    (hs : I s) (along : Along step P s es) (h : run step s es = some t) : I t := by
  induction es generalizing s with
  | nil =>
    cases h
    exact hs
  | cons e es ih =>
    obtain ⟨u, hu, h⟩ := run_cons.1 h
    exact ih (hstep s e u hs along.1 hu) (along.2 u hu) h

/-- An invariant that also knows the events so far. -/
theorem run_history {P : S → E → Prop} {I : List E → S → Prop}
    (hstep : ∀ past s e t, I past s → P s e → step s e = some t → I (past ++ [e]) t) {s t : S}
    {past es : List E} (hs : I past s) (along : Along step P s es) (h : run step s es = some t) :
    I (past ++ es) t := by
  induction es generalizing s past with
  | nil =>
    cases h
    rwa [List.append_nil]
  | cons e es ih =>
    obtain ⟨u, hu, h⟩ := run_cons.1 h
    have hrest := ih (hstep past s e u hs along.1 hu) (along.2 u hu) h
    rwa [List.append_assoc, List.singleton_append] at hrest

theorem run_past {I : List E → S → Prop}
    (hstep : ∀ past s e t, I past s → step s e = some t → I (past ++ [e]) t) {s t : S}
    {past es : List E} (hs : I past s) (h : run step s es = some t) : I (past ++ es) t := by
  have hall : Along step (fun _ _ => True) s es := along_of_forall fun _ _ => trivial
  exact run_history (fun past s e t hs _ hst => hstep past s e t hs hst) hs hall h

theorem Reachable.next {init s t : S} {e : E} (h : Reachable step init s)
    (he : step s e = some t) : Reachable step init t := by
  obtain ⟨es, hes⟩ := h
  exact ⟨es ++ [e], run_append.2 ⟨s, hes, run_cons.2 ⟨t, he, rfl⟩⟩⟩

theorem Reachable.invariant {I : S → Prop} (hstep : ∀ s e t, I s → step s e = some t → I t)
    {init s : S} (h : Reachable step init s) (hinit : I init) : I s := by
  obtain ⟨es, hes⟩ := h
  induction es generalizing init with
  | nil =>
    cases hes
    exact hinit
  | cons e es ih =>
    obtain ⟨t, ht, h⟩ := run_cons.1 hes
    exact ih (hstep _ e t hinit ht) h

/-- Every step takes its cost from a potential, and only some events add to it. -/
theorem run_potential {P : S → ℕ} {cost gain : E → ℕ}
    (hstep : ∀ s e t, step s e = some t → P t + cost e ≤ P s + gain e) {s t : S} {es : List E}
    (h : run step s es = some t) : P t + (es.map cost).sum ≤ P s + (es.map gain).sum := by
  induction es generalizing s with
  | nil =>
    cases h
    exact Nat.le_refl _
  | cons e es ih =>
    obtain ⟨u, hu, hrest⟩ := run_cons.1 h
    have hfirst := hstep s e u hu
    have hlater := ih hrest
    simp only [List.map_cons, List.sum_cons]
    omega

section Simulation

variable {S' E' : Type} {step' : S' → E' → Option S'}

/-- The events of the other system that a run stands for. -/
def labels (step : S → E → Option S) (label : S → E → Option E') : S → List E → List E'
  | _, [] => []
  | s, e :: es => (label s e).toList ++ (step s e).elim [] fun t => labels step label t es

/-- Every step is a step of the other system, or one that the other system does not
see. -/
theorem run_simulation {abs : S → S'} {label : S → E → Option E'}
    (hstep : ∀ s e t, step s e = some t →
      run step' (abs s) (label s e).toList = some (abs t)) {s t : S} {es : List E}
    (h : run step s es = some t) : run step' (abs s) (labels step label s es) = some (abs t) := by
  induction es generalizing s with
  | nil =>
    cases h
    rfl
  | cons e es ih =>
    obtain ⟨u, hu, hrest⟩ := run_cons.1 h
    rw [labels, hu, run_append]
    exact ⟨abs u, hstep s e u hu, ih hrest⟩

end Simulation

section Tables

variable {α : Type} {l : List α} {i j : ℕ} {a b : α}

theorem getElem?_set_cases (h : (l.set i a)[j]? = some b) :
    j = i ∧ b = a ∨ j ≠ i ∧ l[j]? = some b := by
  by_cases hij : i = j
  · subst j
    have hlt : i < l.length := by
      have := (List.getElem?_eq_some_iff.1 h).1
      rwa [List.length_set] at this
    rw [List.getElem?_set_self hlt] at h
    exact Or.inl ⟨rfl, (Option.some.inj h).symm⟩
  · rw [List.getElem?_set_ne hij] at h
    exact Or.inr ⟨Ne.symm hij, h⟩

theorem getElem?_concat_cases (h : (l ++ [a])[j]? = some b) :
    l[j]? = some b ∨ j = l.length ∧ b = a := by
  rcases Nat.lt_trichotomy j l.length with hj | rfl | hj
  · rw [List.getElem?_append_left hj] at h
    exact Or.inl h
  · rw [List.getElem?_concat_length] at h
    exact Or.inr ⟨rfl, (Option.some.inj h).symm⟩
  · rw [List.getElem?_eq_none (by rw [List.length_append, List.length_singleton]; omega)] at h
    cases h

theorem flatMap_set_perm {β : Type} {f : α → List β} {more : List β} (h : l[i]? = some a)
    (hf : f b = f a ++ more) : ((l.set i b).flatMap f).Perm (l.flatMap f ++ more) := by
  induction l generalizing i with
  | nil => cases h
  | cons x l ih =>
    cases i with
    | zero =>
      cases h
      rw [List.set_cons_zero, List.flatMap_cons, List.flatMap_cons, hf, List.append_assoc,
        List.append_assoc]
      exact List.perm_append_comm.append_left (f a)
    | succ i =>
      rw [List.set_cons_succ, List.flatMap_cons, List.flatMap_cons, List.append_assoc]
      exact (ih h).append_left (f x)

theorem countP_set_add (p : α → Bool) (b : α) (h : l[i]? = some a) :
    (l.set i b).countP p + (p a).toNat = l.countP p + (p b).toNat := by
  induction l generalizing i with
  | nil => cases h
  | cons x l ih =>
    cases i with
    | zero =>
      cases h
      rw [List.set_cons_zero, List.countP_cons, List.countP_cons]
      cases p a <;> cases p b <;> simp
    | succ i =>
      have hrest := ih h
      rw [List.set_cons_succ, List.countP_cons, List.countP_cons]
      omega

theorem length_flatMap_eq_countP {β : Type} {f : α → List β} {p : α → Bool}
    (h : ∀ x ∈ l, (f x).length = if p x then 1 else 0) : (l.flatMap f).length = l.countP p := by
  induction l with
  | nil => rfl
  | cons x l ih =>
    have hx := h x List.mem_cons_self
    have hrest := ih fun y hy => h y (List.mem_cons_of_mem x hy)
    rw [List.flatMap_cons, List.length_append, List.countP_cons, hx, hrest, Nat.add_comm]

end Tables

end PolkadotApi.StepRuns

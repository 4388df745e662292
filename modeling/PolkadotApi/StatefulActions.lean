import Mathlib.Data.List.Basic

set_option autoImplicit false

namespace PolkadotApi.StatefulActions

variable {ε σ α β : Type}

def Triple (P : σ → Prop) (x : EStateM ε σ α) (Q : α → σ → Prop) (R : ε → σ → Prop) : Prop :=
  ∀ s, P s →
    match x.run s with
    | .ok a t => Q a t
    | .error e t => R e t

/-- What holds before the action holds after it, whether it fails or not. -/
abbrev Preserves (I : σ → Prop) (x : EStateM ε σ α) : Prop :=
  Triple I x (fun _ => I) fun _ => I

section Rules

variable {P : σ → Prop} {Q : α → σ → Prop} {R : ε → σ → Prop} {x : EStateM ε σ α}

theorem triple_pure {a : α} (h : ∀ s, P s → Q a s) : Triple P (pure a : EStateM ε σ α) Q R := h

theorem triple_throw {e : ε} (h : ∀ s, P s → R e s) : Triple P (throw e : EStateM ε σ α) Q R := h

theorem triple_modify {Q : PUnit → σ → Prop} {f : σ → σ} (h : ∀ s, P s → Q ⟨⟩ (f s)) :
    Triple P (modify f : EStateM ε σ PUnit) Q R := h

theorem Triple.bind {f : α → EStateM ε σ β} {Q' : β → σ → Prop} (hx : Triple P x Q R)
    (hf : ∀ a, Triple (Q a) (f a) Q' R) : Triple P (x >>= f) Q' R := by
  intro s hs
  have ht := hx s hs
  rw [EStateM.run_bind]
  cases hr : x.run s with
  | ok a t =>
    rw [hr] at ht
    exact hf a t ht
  | error e t =>
    rw [hr] at ht
    exact ht

theorem triple_get_bind {f : σ → EStateM ε σ α} (h : ∀ s₀, P s₀ → Triple (· = s₀) (f s₀) Q R) :
    Triple P (get >>= f) Q R := fun s hs => h s hs s rfl

theorem triple_assume {p : Prop} (h : p → Triple P x Q R) : Triple (fun s => p ∧ P s) x Q R :=
  fun s hs => h hs.1 s hs.2

theorem Triple.pre {P' : σ → Prop} (h : Triple P x Q R) (hP : ∀ s, P' s → P s) :
    Triple P' x Q R := fun s hs => h s (hP s hs)

theorem Triple.post {Q' : α → σ → Prop} {R' : ε → σ → Prop} (h : Triple P x Q R)
    (hQ : ∀ a s, Q a s → Q' a s) (hR : ∀ e s, R e s → R' e s) : Triple P x Q' R' := by
  intro s hs
  have ht := h s hs
  cases hr : x.run s with
  | ok a t =>
    rw [hr] at ht
    exact hQ a t ht
  | error e t =>
    rw [hr] at ht
    exact hR e t ht

theorem Triple.and {P' : σ → Prop} {Q' : α → σ → Prop} {R' : ε → σ → Prop} (h : Triple P x Q R)
    (h' : Triple P' x Q' R') :
    Triple (fun s => P s ∧ P' s) x (fun a s => Q a s ∧ Q' a s) fun e s => R e s ∧ R' e s := by
  intro s hs
  have ht := h s hs.1
  have ht' := h' s hs.2
  cases hr : x.run s with
  | ok a t =>
    rw [hr] at ht ht'
    exact ⟨ht, ht'⟩
  | error e t =>
    rw [hr] at ht ht'
    exact ⟨ht, ht'⟩

theorem run_tryCatch (x : EStateM ε σ α) (handler : ε → EStateM ε σ α) (s : σ) :
    (tryCatch x handler).run s =
      match x.run s with
      | .ok a t => .ok a t
      | .error e t => (handler e).run t := by
  change EStateM.tryCatch x handler s = match x s with | .ok a t => _ | .error e t => _
  unfold EStateM.tryCatch
  cases x s <;> rfl

theorem triple_tryCatch {handler : ε → EStateM ε σ α} {M : ε → σ → Prop} (hx : Triple P x Q M)
    (hh : ∀ e, Triple (M e) (handler e) Q R) : Triple P (tryCatch x handler) Q R := by
  intro s hs
  have ht := hx s hs
  rw [run_tryCatch]
  cases hr : x.run s with
  | ok a t =>
    rw [hr] at ht
    exact ht
  | error e t =>
    rw [hr] at ht
    exact hh e t ht

theorem Triple.of_ok {s t : σ} {a : α} (h : Triple P x Q R) (hs : P s)
    (hr : x.run s = .ok a t) : Q a t := by
  have ht := h s hs
  rw [hr] at ht
  exact ht

theorem Triple.of_error {s t : σ} {e : ε} (h : Triple P x Q R) (hs : P s)
    (hr : x.run s = .error e t) : R e t := by
  have ht := h s hs
  rw [hr] at ht
  exact ht

theorem Triple.exists_error {s : σ} (h : Triple P x (fun _ _ => False) R) (hs : P s) :
    ∃ e t, x.run s = .error e t ∧ R e t := by
  have ht := h s hs
  cases hr : x.run s with
  | ok a t =>
    rw [hr] at ht
    exact ht.elim
  | error e t =>
    rw [hr] at ht
    exact ⟨e, t, rfl, ht⟩

end Rules

section Inversion

variable {x : EStateM ε σ α} {f : α → EStateM ε σ β} {s t : σ}

theorem run_bind_eq_ok {b : β} (h : (x >>= f).run s = .ok b t) :
    ∃ a u, x.run s = .ok a u ∧ (f a).run u = .ok b t := by
  rw [EStateM.run_bind] at h
  cases hx : x.run s with
  | ok a u =>
    rw [hx] at h
    exact ⟨a, u, rfl, h⟩
  | error e u =>
    rw [hx] at h
    cases h

theorem run_bind_eq_error {e : ε} (h : (x >>= f).run s = .error e t) :
    x.run s = .error e t ∨ ∃ a u, x.run s = .ok a u ∧ (f a).run u = .error e t := by
  rw [EStateM.run_bind] at h
  cases hx : x.run s with
  | ok a u =>
    rw [hx] at h
    exact Or.inr ⟨a, u, rfl, h⟩
  | error e' u =>
    rw [hx] at h
    cases h
    exact Or.inl rfl

end Inversion

def final (x : EStateM ε σ α) (s : σ) : σ :=
  match x.run s with
  | .ok _ t => t
  | .error _ t => t

def result (x : EStateM ε σ α) (s : σ) : Option α :=
  match x.run s with
  | .ok a _ => some a
  | .error _ _ => none

def failure (x : EStateM ε σ α) (s : σ) : Option ε :=
  match x.run s with
  | .ok _ _ => none
  | .error e _ => some e

theorem run_of_result {x : EStateM ε σ α} {s : σ} {a : α} (h : result x s = some a) :
    x.run s = .ok a (final x s) := by
  unfold result at h
  unfold final
  cases hr : x.run s with
  | ok a t =>
    rw [hr] at h
    cases h
    rfl
  | error e t =>
    rw [hr] at h
    cases h

theorem run_of_failure {x : EStateM ε σ α} {s : σ} {e : ε} (h : failure x s = some e) :
    x.run s = .error e (final x s) := by
  unfold failure at h
  unfold final
  cases hr : x.run s with
  | ok a t =>
    rw [hr] at h
    cases h
  | error e t =>
    rw [hr] at h
    cases h
    rfl

theorem Triple.final {P Q : σ → Prop} {x : EStateM ε σ α} {s : σ}
    (h : Triple P x (fun _ => Q) fun _ => Q) (hs : P s) : Q (final x s) := by
  have ht := h s hs
  unfold StatefulActions.final
  cases hr : x.run s with
  | ok a t =>
    rw [hr] at ht
    exact ht
  | error e t =>
    rw [hr] at ht
    exact ht

end PolkadotApi.StatefulActions

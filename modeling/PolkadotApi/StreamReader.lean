import Mathlib

set_option autoImplicit false

/-!
A reader takes a stream and either fails or returns a value with the unread
stream. Counted loops and fixed-capacity slot arrays are given with the rules
that later proofs use in place of unfolding: what a successful run of a
sequence did, and what a loop of stores leaves in the slots.
-/
namespace PolkadotApi.StreamReader

abbrev Scan (σ ε α : Type) := StateT σ (Except ε) α

section Rules

variable {σ ε α β : Type}

theorem except_ok_bind (a : α) (f : α → Except ε β) : (Except.ok a >>= f) = f a := rfl

theorem except_error_bind (e : ε) (f : α → Except ε β) : (Except.error e >>= f) = .error e := rfl

theorem except_bind_eq_ok {r : Except ε α} {f : α → Except ε β} {b : β}
    (h : (r >>= f) = .ok b) : ∃ a, r = .ok a ∧ f a = .ok b := by
  cases r with
  | error e => cases h
  | ok a => exact ⟨a, rfl, h⟩

theorem except_map_eq_ok {r : Except ε α} {f : α → β} {b : β} (h : r.map f = .ok b) :
    ∃ a, r = .ok a ∧ f a = b := by
  cases r with
  | error e => cases h
  | ok a =>
    cases h
    exact ⟨a, rfl, rfl⟩

theorem except_toOption_eq_some {r : Except ε α} {a : α} (h : r.toOption = some a) : r = .ok a := by
  cases r with
  | error e => cases h
  | ok b =>
    cases h
    rfl

theorem pure_run (a : α) (s : σ) : (pure a : Scan σ ε α) s = .ok (a, s) := rfl

theorem bind_ok {p : Scan σ ε α} {s t : σ} {a : α} (h : p s = .ok (a, t))
    (f : α → Scan σ ε β) : (p >>= f) s = f a t := by
  change (p s >>= fun r => f r.1 r.2) = _
  rw [h]
  rfl

theorem bind_error {p : Scan σ ε α} {s : σ} {e : ε} (h : p s = .error e)
    (f : α → Scan σ ε β) : (p >>= f) s = .error e := by
  change (p s >>= fun r => f r.1 r.2) = _
  rw [h]
  rfl

theorem bind_eq_ok {p : Scan σ ε α} {f : α → Scan σ ε β} {s u : σ} {b : β}
    (h : (p >>= f) s = .ok (b, u)) : ∃ a t, p s = .ok (a, t) ∧ f a t = .ok (b, u) := by
  cases hp : p s with
  | error e =>
    rw [bind_error hp] at h
    cases h
  | ok r =>
    rw [bind_ok hp] at h
    exact ⟨r.1, r.2, rfl, h⟩

theorem pure_eq_ok {a b : α} {s t : σ} (h : (pure a : Scan σ ε α) s = .ok (b, t)) :
    b = a ∧ t = s := by
  cases h
  exact ⟨rfl, rfl⟩

def Yields (p : Scan σ ε α) (Q : α → Prop) : Prop := ∀ s a t, p s = .ok (a, t) → Q a

theorem yields_pure {Q : α → Prop} {a : α} (h : Q a) : Yields (pure a : Scan σ ε α) Q := by
  intro s b t hb
  rwa [(pure_eq_ok hb).1]

theorem yields_bind {Q : β → Prop} {p : Scan σ ε α} {f : α → Scan σ ε β}
    (h : ∀ a, Yields (f a) Q) : Yields (p >>= f) Q := by
  intro s b t hb
  obtain ⟨a, u, -, hf⟩ := bind_eq_ok hb
  exact h a u b t hf

end Rules

/-- What a loop does besides its body: it starts a round, and it stores at an index of
an array with `cap` elements. -/
class Storing (m : Type → Type) where
  tick : m Unit
  inside (cap i : ℕ) : m Unit

export Storing (tick inside)

section Loops

variable {m : Type → Type} [Monad m] [Storing m] {β : Type}

/-- `for (i = 0; i < count; ++i) body`, from index `i` with `n` rounds left. -/
def loopFrom (body : ℕ → β → m β) : ℕ → ℕ → β → m β
  | 0, _, b => pure b
  | n + 1, i, b => do
    tick
    let next ← body i b
    loopFrom body n (i + 1) next

def forCount (count : ℤ) (body : ℕ → β → m β) (init : β) : m β :=
  loopFrom body count.toNat 0 init

end Loops

/-- A fixed array of optional entries; the capacity is checked at each store. -/
abbrev Slots (α : Type) := ℕ → Option α

namespace Slots

variable {α : Type}

def empty : Slots α := fun _ => none

def ofList (xs : List α) : Slots α := fun i => xs[i]?

theorem ofList_nil : (ofList [] : Slots α) = empty := by
  funext i
  simp [ofList, empty]

theorem ofList_concat (xs : List α) (x : α) :
    Function.update (ofList xs) xs.length (some x) = ofList (xs ++ [x]) := by
  funext i
  by_cases h : i = xs.length
  · subst i
    simp [ofList]
  · rw [Function.update_of_ne h]
    by_cases hi : i < xs.length
    · simp only [ofList, List.getElem?_append_left hi]
    · have hl : (xs ++ [x]).length ≤ i := by
        simp only [List.length_append, List.length_singleton]
        omega
      simp [ofList, List.getElem?_eq_none hl, List.getElem?_eq_none (by omega : xs.length ≤ i)]

end Slots

section Arrays

variable {m : Type → Type} [Monad m] [Storing m] {α : Type}

def readStore (cap : ℕ) (item : m α) (i : ℕ) (slots : Slots α) : m (Slots α) := do
  let x ← item
  inside cap i
  return Function.update slots i (some x)

/-- Claim index `i` before the item that will fill it is read. -/
def claimStore (cap : ℕ) (item : m α) (i : ℕ) (slots : Slots α) : m (Slots α) := do
  inside cap i
  let x ← item
  return Function.update slots i (some x)

def storeEach (cap : ℕ) (count : ℤ) (item : m α) : m (Slots α) :=
  forCount count (readStore cap item) Slots.empty

def claimEach (cap : ℕ) (count : ℤ) (item : m α) : m (Slots α) :=
  forCount count (claimStore cap item) Slots.empty

end Arrays

section Sequences

variable {σ ε α : Type}

/-- The successive values an item reader returns between two stream positions. -/
inductive ReadsAll (item : Scan σ ε α) : List α → σ → σ → Prop where
  | nil (s : σ) : ReadsAll item [] s s
  | cons {x : α} {xs : List α} {s t u : σ} (head : item s = .ok (x, t))
      (tail : ReadsAll item xs t u) : ReadsAll item (x :: xs) s u

theorem ReadsAll.forall_of_item {item : Scan σ ε α} {Q : α → Prop} {xs : List α} {s t : σ}
    (h : ReadsAll item xs s t) (hq : Yields item Q) : ∀ x ∈ xs, Q x := by
  induction h with
  | nil _ => simp
  | cons head _ ih =>
    intro y hy
    rcases List.mem_cons.1 hy with rfl | hy
    · exact hq _ _ _ head
    · exact ih y hy

def collect (item : Scan σ ε α) : ℕ → Scan σ ε (List α)
  | 0 => pure []
  | n + 1 => do
    let x ← item
    let xs ← collect item n
    return x :: xs

theorem ReadsAll.collect {item : Scan σ ε α} {xs : List α} {s t : σ} (h : ReadsAll item xs s t) :
    collect item xs.length s = .ok (xs, t) := by
  induction h with
  | nil s => rfl
  | cons head _ ih =>
    rw [List.length_cons, StreamReader.collect, bind_ok head, bind_ok ih]
    rfl

theorem ReadsAll.in_step {β : Type} {item : Scan σ ε α} {other : Scan σ ε β} {R : α → β → Prop}
    {xs : List α} {s t : σ} (h : ReadsAll item xs s t)
    (hstep : ∀ s x t, item s = .ok (x, t) → ∃ y, other s = .ok (y, t) ∧ R x y) :
    ∃ ys, StreamReader.collect other xs.length s = .ok (ys, t) ∧
      ∀ (i : ℕ) y, ys[i]? = some y → ∃ x, xs[i]? = some x ∧ R x y := by
  have hlists : ∃ ys, ReadsAll other ys s t ∧ List.Forall₂ R xs ys := by
    induction h with
    | nil s => exact ⟨[], .nil s, .nil⟩
    | cons head _ ih =>
      obtain ⟨y, hy, hR⟩ := hstep _ _ _ head
      obtain ⟨ys, hys, hRs⟩ := ih
      exact ⟨y :: ys, .cons hy hys, .cons hR hRs⟩
  obtain ⟨ys, hys, hR⟩ := hlists
  have hcollect := hys.collect
  rw [← hR.length_eq] at hcollect
  refine ⟨ys, hcollect, ?_⟩
  intro i y hy
  obtain ⟨hi, rfl⟩ := List.getElem?_eq_some_iff.1 hy
  have hi' : i < xs.length := by
    rw [hR.length_eq]
    exact hi
  exact ⟨xs[i], List.getElem?_eq_getElem hi', (List.forall₂_iff_get.1 hR).2 i hi' hi⟩

end Sequences

/-- The failure that stands for a store outside its array. -/
class Outside (ε : Type) where
  outside : ε

section Stores

variable {σ ε α : Type} [Outside ε]

instance : Storing (Scan σ ε) where
  tick := pure ()
  inside cap i := if i < cap then pure () else throw Outside.outside

theorem inside_ok {cap i : ℕ} (h : i < cap) (s : σ) :
    (inside cap i : Scan σ ε Unit) s = .ok ((), s) := by
  change (if i < cap then pure () else throw Outside.outside : Scan σ ε Unit) s = _
  rw [if_pos h]
  rfl

theorem inside_eq_ok {cap i : ℕ} {s t : σ} {u : Unit}
    (h : (inside cap i : Scan σ ε Unit) s = .ok (u, t)) : i < cap ∧ t = s := by
  change (if i < cap then pure () else throw Outside.outside : Scan σ ε Unit) s = _ at h
  split_ifs at h with hi
  · exact ⟨hi, (pure_eq_ok h).2⟩
  · cases h

theorem loopFrom_succ {β : Type} (body : ℕ → β → Scan σ ε β) (n i : ℕ) (b : β) :
    loopFrom body (n + 1) i b = body i b >>= loopFrom body n (i + 1) := rfl

/-- What a loop body that fills slot `i` from one item does, in either order of
the bound check and the read. -/
def StoresItem (cap : ℕ) (item : Scan σ ε α) (body : ℕ → Slots α → Scan σ ε (Slots α)) : Prop :=
  ∀ i slots s next t, body i slots s = .ok (next, t) ↔
    ∃ x, item s = .ok (x, t) ∧ i < cap ∧ next = Function.update slots i (some x)

theorem readStore_storesItem (cap : ℕ) (item : Scan σ ε α) :
    StoresItem cap item (readStore cap item) := by
  intro i slots s next t
  constructor
  · intro h
    obtain ⟨x, s₁, hx, h₁⟩ := bind_eq_ok h
    obtain ⟨_, s₂, hi, h₂⟩ := bind_eq_ok h₁
    obtain ⟨hcap, rfl⟩ := inside_eq_ok hi
    obtain ⟨rfl, rfl⟩ := pure_eq_ok h₂
    exact ⟨x, hx, hcap, rfl⟩
  · rintro ⟨x, hx, hcap, rfl⟩
    rw [readStore, bind_ok hx, bind_ok (inside_ok hcap t)]
    rfl

theorem claimStore_storesItem (cap : ℕ) (item : Scan σ ε α) :
    StoresItem cap item (claimStore cap item) := by
  intro i slots s next t
  constructor
  · intro h
    obtain ⟨_, s₁, hi, h₁⟩ := bind_eq_ok h
    obtain ⟨hcap, rfl⟩ := inside_eq_ok hi
    obtain ⟨x, s₂, hx, h₂⟩ := bind_eq_ok h₁
    obtain ⟨rfl, rfl⟩ := pure_eq_ok h₂
    exact ⟨x, hx, hcap, rfl⟩
  · rintro ⟨x, hx, hcap, rfl⟩
    rw [claimStore, bind_ok (inside_ok hcap s), bind_ok hx]
    rfl

theorem loopFrom_stores_iff {cap : ℕ} {item : Scan σ ε α}
    {body : ℕ → Slots α → Scan σ ε (Slots α)} (hb : StoresItem cap item body)
    (n : ℕ) (xs : List α) (s t : σ) (slots : Slots α) :
    loopFrom body n xs.length (Slots.ofList xs) s = .ok (slots, t) ↔
      ∃ ys, ReadsAll item ys s t ∧ ys.length = n ∧ (0 < n → xs.length + n ≤ cap) ∧
        slots = Slots.ofList (xs ++ ys) := by
  induction n generalizing xs s with
  | zero =>
    constructor
    · intro h
      obtain ⟨rfl, rfl⟩ := pure_eq_ok h
      exact ⟨[], .nil _, rfl, by simp, by simp⟩
    · rintro ⟨ys, hr, hl, _, rfl⟩
      obtain rfl := List.length_eq_zero_iff.1 hl
      cases hr
      simp [loopFrom, pure_run]
  | succ n ih =>
    constructor
    · intro h
      rw [loopFrom_succ] at h
      obtain ⟨next, s₁, hbody, h⟩ := bind_eq_ok h
      obtain ⟨x, hx, hcap, rfl⟩ := (hb _ _ _ _ _).1 hbody
      rw [Slots.ofList_concat] at h
      have hl : xs.length + 1 = (xs ++ [x]).length := by simp
      rw [hl] at h
      obtain ⟨ys, hr, hy, hc, rfl⟩ := (ih (xs ++ [x]) s₁).1 h
      refine ⟨x :: ys, .cons hx hr, by simp [hy], ?_, by simp⟩
      intro _
      rcases Nat.eq_zero_or_pos n with hz | hp
      · omega
      · have := hc hp
        simp only [List.length_append, List.length_singleton] at this
        omega
    · rintro ⟨ys, hr, hy, hc, rfl⟩
      cases hr with
      | nil => simp at hy
      | @cons x ys _ s₁ _ hx hr =>
        have hcap := hc (by omega)
        have hbody := (hb xs.length (Slots.ofList xs) s _ s₁).2 ⟨x, hx, by omega, rfl⟩
        rw [loopFrom_succ, bind_ok hbody, Slots.ofList_concat]
        have hl : xs.length + 1 = (xs ++ [x]).length := by simp
        rw [hl]
        refine (ih (xs ++ [x]) s₁).2 ⟨ys, hr, by simpa using hy, ?_, by simp⟩
        intro _
        simp only [List.length_append, List.length_singleton]
        omega

theorem forCount_stores_iff {cap : ℕ} {item : Scan σ ε α}
    {body : ℕ → Slots α → Scan σ ε (Slots α)} (hb : StoresItem cap item body)
    (count : ℤ) (s t : σ) (slots : Slots α) :
    forCount count body Slots.empty s = .ok (slots, t) ↔
      ∃ xs, ReadsAll item xs s t ∧ xs.length = count.toNat ∧ xs.length ≤ cap ∧
        slots = Slots.ofList xs := by
  have h := loopFrom_stores_iff hb count.toNat [] s t slots
  simp only [List.length_nil, Slots.ofList_nil, List.nil_append, Nat.zero_add] at h
  rw [forCount, h]
  constructor
  · rintro ⟨xs, hr, hl, hc, rfl⟩
    exact ⟨xs, hr, hl, by omega, rfl⟩
  · rintro ⟨xs, hr, hl, hc, rfl⟩
    exact ⟨xs, hr, hl, by omega, rfl⟩

theorem storeEach_eq_ok_iff (cap : ℕ) (count : ℤ) (item : Scan σ ε α)
    (s t : σ) (slots : Slots α) : storeEach cap count item s = .ok (slots, t) ↔
      ∃ xs, ReadsAll item xs s t ∧ xs.length = count.toNat ∧ xs.length ≤ cap ∧
        slots = Slots.ofList xs :=
  forCount_stores_iff (readStore_storesItem cap item) count s t slots

theorem claimEach_eq_ok_iff (cap : ℕ) (count : ℤ) (item : Scan σ ε α)
    (s t : σ) (slots : Slots α) : claimEach cap count item s = .ok (slots, t) ↔
      ∃ xs, ReadsAll item xs s t ∧ xs.length = count.toNat ∧ xs.length ≤ cap ∧
        slots = Slots.ofList xs :=
  forCount_stores_iff (claimStore_storesItem cap item) count s t slots

end Stores

end PolkadotApi.StreamReader

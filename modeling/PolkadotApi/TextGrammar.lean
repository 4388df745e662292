import PolkadotApi.StreamReader

set_option autoImplicit false

/-!
A grammar relates a text to the value it stands for. A reader recognises a grammar
when what it takes off a stream is a text of the grammar, and when it takes a text
of the grammar off every stream on which something that may follow comes next.
Lists of elements between separators are given with their reader, where gaps may
stand around every element.
-/
namespace PolkadotApi.TextGrammar
open StreamReader

variable {T ε α β : Type}

section Recognition

structure Recognizes (p : Scan (List T) ε α) (G : List T → α → Prop) (Follow : List T → Prop) :
    Prop where
  sound {s rest : List T} {a : α} : p s = .ok (a, rest) → ∃ text, s = text ++ rest ∧ G text a
  complete {text rest : List T} {a : α} :
    G text a → Follow rest → p (text ++ rest) = .ok (a, rest)

def Raises (p : Scan (List T) ε α) (E : ε → Prop) : Prop := ∀ s e, p s = .error e → E e

theorem Recognizes.length_le {p : Scan (List T) ε α} {G : List T → α → Prop}
    {Follow : List T → Prop} (h : Recognizes p G Follow) {s rest : List T} {a : α}
    (hp : p s = .ok (a, rest)) : rest.length ≤ s.length := by
  obtain ⟨text, rfl, -⟩ := h.sound hp
  rw [List.length_append]
  omega

theorem bind_eq_error {p : Scan (List T) ε α} {f : α → Scan (List T) ε β} {s : List T} {e : ε}
    (h : (p >>= f) s = .error e) :
    p s = .error e ∨ ∃ a t, p s = .ok (a, t) ∧ f a t = .error e := by
  cases hp : p s with
  | error d =>
    rw [bind_error hp] at h
    cases h
    exact Or.inl rfl
  | ok r =>
    rw [bind_ok hp] at h
    exact Or.inr ⟨r.1, r.2, rfl, h⟩

theorem raises_bind {p : Scan (List T) ε α} {f : α → Scan (List T) ε β} {E : ε → Prop}
    (h : Raises p E) (hf : ∀ a, Raises (f a) E) : Raises (p >>= f) E := by
  intro s e he
  rcases bind_eq_error he with he | ⟨a, t, -, he⟩
  · exact h s e he
  · exact hf a t e he

theorem raises_pure (a : α) (E : ε → Prop) : Raises (pure a : Scan (List T) ε α) E := by
  rintro s e ⟨⟩

theorem raises_ite {c : Prop} [Decidable c] {p q : Scan (List T) ε α} {E : ε → Prop}
    (hp : Raises p E) (hq : Raises q E) : Raises (if c then p else q) E := by
  split_ifs
  · exact hp
  · exact hq

end Recognition

/-- What may stand between the elements of a list, and what a reader says of it. -/
structure Layout (T ε : Type) where
  gap : T → Bool
  comma : T
  close : T
  eof : ε
  bad : T → ε
  stuck : ε
  comma_gap : gap comma = false
  close_gap : gap close = false
  comma_ne_close : comma ≠ close

section Gaps

variable {gap : T → Bool}

def Gap (gap : T → Bool) (w : List T) : Prop := ∀ c ∈ w, gap c = true

def Padded (gap : T → Bool) (G : List T → α → Prop) (text : List T) (a : α) : Prop :=
  ∃ w t, text = w ++ t ∧ Gap gap w ∧ G t a

theorem Padded.pad {G : List T → α → Prop} {w text : List T} {a : α} (hw : Gap gap w)
    (h : Padded gap G text a) : Padded gap G (w ++ text) a := by
  obtain ⟨w', t, rfl, hw', ht⟩ := h
  refine ⟨w ++ w', t, (List.append_assoc ..).symm, ?_, ht⟩
  intro c hc
  rcases List.mem_append.1 hc with hc | hc
  · exact hw c hc
  · exact hw' c hc

def nextToken (gap : T → Bool) (eof : ε) : Scan (List T) ε T := fun s =>
  match s.dropWhile gap with
  | [] => .error eof
  | c :: t => .ok (c, t)

def peekToken (gap : T → Bool) (eof : ε) : Scan (List T) ε T := fun s =>
  match s.dropWhile gap with
  | [] => .error eof
  | c :: t => .ok (c, c :: t)

theorem dropWhile_gap {w : List T} (hw : Gap gap w) {c : T} (hc : gap c = false) (t : List T) :
    (w ++ c :: t).dropWhile gap = c :: t := by
  rw [List.dropWhile_append_of_pos hw, List.dropWhile_cons_of_neg (by simp [hc])]

theorem exists_gap {s : List T} {c : T} {t : List T} (h : s.dropWhile gap = c :: t) :
    ∃ w, Gap gap w ∧ gap c = false ∧ s = w ++ c :: t := by
  refine ⟨s.takeWhile gap, ?_, ?_, ?_⟩
  · intro d hd
    exact List.mem_takeWhile_imp hd
  · have hhead := List.head?_dropWhile_not gap s
    rw [h] at hhead
    simpa using hhead
  · rw [← h, List.takeWhile_append_dropWhile]

theorem nextToken_eq_ok {eof : ε} {s rest : List T} {c : T}
    (h : nextToken gap eof s = .ok (c, rest)) :
    ∃ w, Gap gap w ∧ gap c = false ∧ s = w ++ c :: rest := by
  unfold nextToken at h
  split at h
  · cases h
  · next hs =>
    cases h
    exact exists_gap hs

theorem nextToken_gap {w : List T} (hw : Gap gap w) {c : T} (hc : gap c = false) (eof : ε)
    (rest : List T) : nextToken gap eof (w ++ c :: rest) = .ok (c, rest) := by
  unfold nextToken
  rw [dropWhile_gap hw hc]

theorem peekToken_eq_ok {eof : ε} {s rest : List T} {c : T}
    (h : peekToken gap eof s = .ok (c, rest)) :
    ∃ w t, Gap gap w ∧ gap c = false ∧ s = w ++ c :: t ∧ rest = c :: t := by
  unfold peekToken at h
  split at h
  · cases h
  · next t hs =>
    cases h
    obtain ⟨w, hw, hc, hs⟩ := exists_gap hs
    exact ⟨w, t, hw, hc, hs, rfl⟩

theorem peekToken_gap {w : List T} (hw : Gap gap w) {c : T} (hc : gap c = false) (eof : ε)
    (rest : List T) : peekToken gap eof (w ++ c :: rest) = .ok (c, c :: rest) := by
  unfold peekToken
  rw [dropWhile_gap hw hc]

theorem raises_nextToken {E : ε → Prop} {eof : ε} (h : E eof) : Raises (nextToken gap eof) E := by
  intro s e he
  unfold nextToken at he
  split at he
  · cases he
    exact h
  · cases he

theorem raises_peekToken {E : ε → Prop} {eof : ε} (h : E eof) : Raises (peekToken gap eof) E := by
  intro s e he
  unfold peekToken at he
  split at he
  · cases he
    exact h
  · cases he

end Gaps

namespace Layout

variable (L : Layout T ε)

/-- Elements with separators between them; a gap may come before a separator and at
the end. -/
inductive Separated (G : List T → α → Prop) : List T → List α → Prop where
  | last {t w : List T} {x : α} (h : G t x) (hw : Gap L.gap w) : Separated G (t ++ w) [x]
  | next {t w u : List T} {x : α} {xs : List α} (h : G t x) (hw : Gap L.gap w)
      (tail : Separated G u xs) : Separated G (t ++ (w ++ L.comma :: u)) (x :: xs)

inductive Bracketed (G : List T → α → Prop) : List T → List α → Prop where
  | empty {w : List T} (hw : Gap L.gap w) : Bracketed G w []
  | filled {t : List T} {xs : List α} (h : L.Separated G t xs) : Bracketed G t xs

variable [DecidableEq T]

/-- The elements up to the closing token, in at most as many rounds as given. -/
def separated (element : Scan (List T) ε α) : ℕ → Scan (List T) ε (List α)
  | 0 => fun _ => .error L.stuck
  | n + 1 => do
    let x ← element
    let c ← nextToken L.gap L.eof
    if c = L.close then return [x]
    else if c = L.comma then do
      let xs ← separated element n
      return x :: xs
    else fun _ => .error (L.bad c)

def bracketed (element : Scan (List T) ε α) : Scan (List T) ε (List α) := do
  let c ← peekToken L.gap L.eof
  if c = L.close then do
    let _ ← nextToken L.gap L.eof
    return []
  else fun s => L.separated element (s.length + 1) s

variable {L} {element : Scan (List T) ε α} {G : List T → α → Prop} {Follow : List T → Prop}

omit [DecidableEq T] in
theorem Separated.length_le {text : List T} {xs : List α} (h : L.Separated G text xs) :
    xs.length ≤ text.length + 1 := by
  induction h with
  | last => simp
  | next _ _ _ ih =>
    simp only [List.length_cons, List.length_append]
    omega

omit [DecidableEq T] in
theorem Separated.pad (hG : ∀ w t x, Gap L.gap w → G t x → G (w ++ t) x) {w text : List T}
    {xs : List α} (hw : Gap L.gap w) (h : L.Separated G text xs) :
    L.Separated G (w ++ text) xs := by
  cases h with
  | last hx hw' =>
    rw [← List.append_assoc]
    exact .last (hG _ _ _ hw hx) hw'
  | next hx hw' tail =>
    rw [← List.append_assoc]
    exact .next (hG _ _ _ hw hx) hw' tail

omit [DecidableEq T] in
theorem Separated.strip {P : T → Prop}
    (hG : ∀ t x, G t x → ∃ w c u, t = w ++ c :: u ∧ Gap L.gap w ∧ P c ∧ G (c :: u) x)
    {text : List T} {xs : List α} (h : L.Separated G text xs) :
    ∃ w c u, text = w ++ c :: u ∧ Gap L.gap w ∧ P c ∧ L.Separated G (c :: u) xs := by
  cases h with
  | last hx hw =>
    obtain ⟨w, c, u, rfl, hgap, hc, hx⟩ := hG _ _ hx
    exact ⟨w, c, _, by simp, hgap, hc, .last hx hw⟩
  | next hx hw tail =>
    obtain ⟨w, c, u, rfl, hgap, hc, hx⟩ := hG _ _ hx
    exact ⟨w, c, _, by simp, hgap, hc, .next hx hw tail⟩

theorem separated_sound (h : Recognizes element G Follow) {n : ℕ} {s rest : List T} {xs : List α}
    (hs : L.separated element n s = .ok (xs, rest)) :
    ∃ text, s = text ++ L.close :: rest ∧ L.Separated G text xs := by
  induction n generalizing s xs with
  | zero => cases hs
  | succ n ih =>
    obtain ⟨x, s', helement, hafter⟩ := bind_eq_ok hs
    obtain ⟨c, s'', htoken, htail⟩ := bind_eq_ok hafter
    obtain ⟨t, rfl, ht⟩ := h.sound helement
    obtain ⟨w, hw, -, rfl⟩ := nextToken_eq_ok htoken
    split_ifs at htail with hclose hcomma
    · cases htail
      subst hclose
      exact ⟨t ++ w, by simp, .last ht hw⟩
    · obtain ⟨ys, s₃, hmore, hend⟩ := bind_eq_ok htail
      cases hend
      subst hcomma
      obtain ⟨u, rfl, hu⟩ := ih hmore
      exact ⟨t ++ (w ++ L.comma :: u), by simp, .next ht hw hu⟩

theorem separated_complete (h : Recognizes element G Follow)
    (hgap : ∀ c t, L.gap c = true → Follow (c :: t)) (hcomma : ∀ t, Follow (L.comma :: t))
    (hclose : ∀ t, Follow (L.close :: t)) {text : List T} {xs : List α}
    (ht : L.Separated G text xs) (rest : List T) {n : ℕ} (hn : xs.length ≤ n) :
    L.separated element n (text ++ L.close :: rest) = .ok (xs, rest) := by
  have hfollow : ∀ w c t, Gap L.gap w → Follow (c :: t) → Follow (w ++ c :: t) := by
    intro w c t hw hc
    cases w with
    | nil => exact hc
    | cons d w => exact hgap d _ (hw d List.mem_cons_self)
  induction ht generalizing n with
  | @last t w x hx hw =>
    obtain ⟨n, rfl⟩ := Nat.exists_eq_add_one.2 (Nat.lt_of_lt_of_le Nat.zero_lt_one hn)
    have helement := h.complete hx (hfollow w L.close rest hw (hclose rest))
    rw [List.append_assoc, separated, bind_ok helement,
      bind_ok (nextToken_gap hw L.close_gap L.eof rest), if_pos rfl]
    rfl
  | @next t w u x xs hx hw tail ih =>
    rw [List.length_cons] at hn
    obtain ⟨n, rfl⟩ := Nat.exists_eq_add_one.2 (Nat.lt_of_lt_of_le (Nat.succ_pos xs.length) hn)
    have hrest := ih (Nat.le_of_succ_le_succ hn)
    have helement := h.complete hx (hfollow w L.comma (u ++ L.close :: rest) hw (hcomma _))
    have htext : t ++ (w ++ L.comma :: u) ++ L.close :: rest =
        t ++ (w ++ L.comma :: (u ++ L.close :: rest)) := by simp
    rw [htext, separated, bind_ok helement, bind_ok (nextToken_gap hw L.comma_gap L.eof _),
      if_neg L.comma_ne_close, if_pos rfl, bind_ok hrest]
    rfl

/-- Every round takes a separator off the stream, so that the rounds suffice. -/
theorem separated_raises (h : Recognizes element G Follow) {E : ε → Prop}
    (helement : Raises element E) (heof : E L.eof) (hbad : ∀ c, E (L.bad c)) {n : ℕ}
    {s : List T} (hn : s.length < n) {e : ε} (he : L.separated element n s = .error e) : E e := by
  induction n generalizing s with
  | zero => omega
  | succ n ih =>
    rcases bind_eq_error he with he | ⟨x, s', hx, he⟩
    · exact helement s e he
    rcases bind_eq_error he with he | ⟨c, s'', htoken, he⟩
    · exact raises_nextToken heof s' e he
    have hshort : s''.length < n := by
      have hle := h.length_le hx
      obtain ⟨w, -, -, rfl⟩ := nextToken_eq_ok htoken
      rw [List.length_append, List.length_cons] at hle
      omega
    split_ifs at he with hclose hcomma
    · cases he
    · rcases bind_eq_error he with he | ⟨xs, u, -, he⟩
      · exact ih hshort he
      · cases he
    · cases he
      exact hbad c

/-- What an element has to be for the rules of a bracketed list: gaps before it do not
matter, and it begins with a token that is not the closing one. -/
structure Elements (L : Layout T ε) (G : List T → α → Prop) (Follow : List T → Prop) : Prop where
  pad {w t : List T} {x : α} : Gap L.gap w → G t x → G (w ++ t) x
  strip {t : List T} {x : α} : G t x → ∃ w c u, t = w ++ c :: u ∧ Gap L.gap w ∧
    (L.gap c = false ∧ c ≠ L.close) ∧ G (c :: u) x
  gap {c : T} {t : List T} : L.gap c = true → Follow (c :: t)
  comma (t : List T) : Follow (L.comma :: t)
  close (t : List T) : Follow (L.close :: t)

theorem bracketed_recognizes (h : Recognizes element G Follow) (hL : Elements L G Follow) :
    Recognizes (L.bracketed element)
      (fun t xs => ∃ u, t = u ++ [L.close] ∧ L.Bracketed G u xs) (fun _ => True) where
  sound {s rest xs} hs := by
    obtain ⟨c, s', hpeek, hlist⟩ := bind_eq_ok hs
    obtain ⟨w, t, hw, hc, rfl, rfl⟩ := peekToken_eq_ok hpeek
    split_ifs at hlist with hclose
    · obtain ⟨d, s'', htoken, hend⟩ := bind_eq_ok hlist
      cases hend
      have hnext : nextToken L.gap L.eof (c :: t) = .ok (c, t) :=
        nextToken_gap (w := []) (by simp [Gap]) hc L.eof t
      cases hnext.symm.trans htoken
      subst hclose
      exact ⟨w ++ [L.close], by simp, w, rfl, .empty hw⟩
    · obtain ⟨u, hu, hxs⟩ := separated_sound h hlist
      rw [hu]
      exact ⟨w ++ u ++ [L.close], by simp, w ++ u, rfl,
        .filled (hxs.pad (fun _ _ _ => hL.pad) hw)⟩
  complete := by
    rintro _ rest xs ⟨u, rfl, hu⟩ -
    cases hu with
    | empty hw =>
      have hpeek := peekToken_gap hw L.close_gap L.eof rest
      have hnext : nextToken L.gap L.eof (L.close :: rest) = .ok (L.close, rest) :=
        nextToken_gap (w := []) (by simp [Gap]) L.close_gap L.eof rest
      rw [List.append_assoc, List.singleton_append, bracketed, bind_ok hpeek, if_pos rfl,
        bind_ok hnext]
      rfl
    | filled hxs =>
      obtain ⟨w, c, v, rfl, hw, ⟨hc, hne⟩, hv⟩ := hxs.strip
        (P := fun c => L.gap c = false ∧ c ≠ L.close) fun _ _ hx => hL.strip hx
      have hpeek := peekToken_gap hw hc L.eof (v ++ [L.close] ++ rest)
      have hlength : xs.length ≤ (c :: (v ++ [L.close] ++ rest)).length + 1 := by
        have hle := hv.length_le
        simp only [List.length_cons, List.length_append] at hle ⊢
        omega
      have hlist := separated_complete h (fun _ _ => hL.gap) hL.comma hL.close hv rest hlength
      have htext : w ++ c :: v ++ [L.close] ++ rest = w ++ c :: (v ++ [L.close] ++ rest) := by simp
      rw [htext, bracketed, bind_ok hpeek, if_neg hne]
      simpa using hlist

theorem bracketed_raises (h : Recognizes element G Follow) {E : ε → Prop}
    (helement : Raises element E) (heof : E L.eof) (hbad : ∀ c, E (L.bad c)) :
    Raises (L.bracketed element) E := by
  apply raises_bind (raises_peekToken heof)
  intro c
  apply raises_ite
  · apply raises_bind (raises_nextToken heof)
    intro _
    exact raises_pure _ _
  · intro s e he
    exact separated_raises h helement heof hbad (Nat.lt_succ_self s.length) he

end Layout

end PolkadotApi.TextGrammar

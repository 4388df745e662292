import PolkadotApi.Notifications

set_option autoImplicit false

namespace PolkadotApi.JsonBounds
open MachineModel JsonValues Notifications

mutual

/-- Every string and key satisfies `S`, and `C` holds of the size of every collection. -/
def All (S : Str → Prop) (C : ℕ → Prop) : Json → Prop
  | .string s => S s
  | .array items => C items.length ∧ AllItems S C items
  | .object fields => C fields.length ∧ AllFields S C fields
  | _ => True

def AllItems (S : Str → Prop) (C : ℕ → Prop) : List Json → Prop
  | [] => True
  | x :: xs => All S C x ∧ AllItems S C xs

def AllFields (S : Str → Prop) (C : ℕ → Prop) : List (Str × Json) → Prop
  | [] => True
  | (key, x) :: xs => S key ∧ All S C x ∧ AllFields S C xs

end

section Parts

variable {S : Str → Prop} {C : ℕ → Prop}

theorem AllItems.of_mem {items : List Json} (h : AllItems S C items) :
    ∀ x ∈ items, All S C x := by
  induction items with
  | nil => simp
  | cons x items ih =>
    intro y hy
    rcases List.mem_cons.1 hy with rfl | hy
    · exact h.1
    · exact ih h.2 y hy

theorem AllFields.of_mem {fields : List (Str × Json)} (h : AllFields S C fields) :
    ∀ e ∈ fields, S e.1 ∧ All S C e.2 := by
  induction fields with
  | nil => simp
  | cons e fields ih =>
    intro d hd
    rcases List.mem_cons.1 hd with rfl | hd
    · exact ⟨h.1, h.2.1⟩
    · exact ih h.2.2 d hd

theorem AllFields.lookup {fields : List (Str × Json)} (h : AllFields S C fields) (key : Str) :
    All S C ((fields.lookup key).getD .null) := by
  induction fields with
  | nil => trivial
  | cons e fields ih =>
    obtain ⟨k, x⟩ := e
    rw [List.lookup_cons]
    split
    · exact h.2.1
    · exact ih h.2.2

theorem All.field {json : Json} (h : All S C json) (key : String) : All S C (json.field key) := by
  cases json with
  | object fields => exact AllFields.lookup h.2 (lit key)
  | _ => trivial

theorem All.arrayItems {json : Json} (h : All S C json) : ∀ x ∈ arrayItems json, All S C x := by
  cases json with
  | array items => exact AllItems.of_mem h.2
  | _ => simp [Notifications.arrayItems]

theorem All.objectItems {json : Json} (h : All S C json) :
    ∀ e ∈ json.objectItems, S e.1 ∧ All S C e.2 := by
  cases json with
  | object fields => exact AllFields.of_mem h.2
  | _ => simp [Json.objectItems]

theorem All.arrayItems_length {json : Json} (h : All S C json) (hzero : C 0) :
    C (Notifications.arrayItems json).length := by
  cases json with
  | array items => exact h.1
  | _ => exact hzero

theorem All.objectItems_length {json : Json} (h : All S C json) (hzero : C 0) :
    C json.objectItems.length := by
  cases json with
  | object fields => exact h.1
  | _ => exact hzero

theorem All.stringValue {json : Json} (h : All S C json) (hempty : S []) : S json.stringValue := by
  cases json with
  | string s => exact h
  | _ => exact hempty

end Parts

def Short (s : Str) : Prop := s.length < STRING_SIZE

theorem short_nil : Short [] := Nat.two_pow_pos 8

theorem Short.strcpy {s : Str} (h : Short s) : strcpy s = .ok (cstr s) := by
  have hle : (cstr s).length ≤ s.length := (List.takeWhile_prefix _).length_le
  rw [MachineModel.strcpy, if_pos (Nat.lt_of_le_of_lt hle h)]

end PolkadotApi.JsonBounds

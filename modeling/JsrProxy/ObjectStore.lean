import Mathlib

set_option autoImplicit false

/-!
# Create-once stores

A store that writes a key only while it is absent. Whatever is done to it, what it
holds stays.
-/
namespace JsrProxy

def ObjectStore (κ ω : Type) := κ → Option ω

namespace ObjectStore

variable {κ ω : Type} [DecidableEq κ]

def empty : ObjectStore κ ω := fun _ => none

def put (s : ObjectStore κ ω) (k : κ) (o : ω) : ObjectStore κ ω := fun k' =>
  if k' = k ∧ s k = none then some o else s k'

/-- What is held stays, with the same object. -/
def Grows (s t : ObjectStore κ ω) : Prop := ∀ k o, s k = some o → t k = some o

omit [DecidableEq κ] in
theorem Grows.refl (s : ObjectStore κ ω) : s.Grows s := fun _ _ h => h

omit [DecidableEq κ] in
theorem Grows.trans {s t u : ObjectStore κ ω} (h : s.Grows t) (h' : t.Grows u) : s.Grows u :=
  fun k o hk => h' k o (h k o hk)

theorem put_of_some {s : ObjectStore κ ω} {k : κ} {o o' : ω} (h : s k = some o') :
    s.put k o = s := by
  funext k'
  rw [put, if_neg]
  rintro ⟨-, hnone⟩
  rw [h] at hnone
  cases hnone

theorem put_self {s : ObjectStore κ ω} {k : κ} {o : ω} (h : s k = none) :
    s.put k o k = some o := if_pos ⟨rfl, h⟩

theorem put_of_ne (s : ObjectStore κ ω) {k k' : κ} (o : ω) (h : k' ≠ k) :
    s.put k o k' = s k' := by
  rw [put, if_neg]
  rintro ⟨he, -⟩
  exact h he

theorem put_grows (s : ObjectStore κ ω) (k : κ) (o : ω) : s.Grows (s.put k o) := by
  intro k' o' h
  by_cases he : k' = k
  · subst he
    rw [put_of_some h]
    exact h
  · rw [put_of_ne s o he]
    exact h

theorem put_held (s : ObjectStore κ ω) (k : κ) (o : ω) :
    s.put k o k = some o ∨ ∃ o', s k = some o' ∧ s.put k o = s := by
  cases h : s k with
  | none => exact .inl (put_self h)
  | some o' => exact .inr ⟨o', rfl, put_of_some h⟩

theorem put_some {s : ObjectStore κ ω} {k k' : κ} {o o' : ω} (h : s.put k o k' = some o') :
    s k' = some o' ∨ (k' = k ∧ o' = o ∧ s k = none) := by
  unfold put at h
  split_ifs at h with hc
  · exact .inr ⟨hc.1, (Option.some.inj h).symm, hc.2⟩
  · exact .inl h

end ObjectStore
end JsrProxy

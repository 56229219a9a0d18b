import Mathlib

/-!
# Dialogues

A client that asks and goes on with the answer, whatever that is, until it
has a result. A run is what was asked, with the answers to it.
-/

namespace EufyNvr

/-- Questions of `ρ`, answers of `α` and a result of `β`. -/
inductive Dialogue (ρ α β : Type)
  | done (b : β)
  | ask (r : ρ) (k : α → Dialogue ρ α β)

namespace Dialogue

variable {ρ α β : Type} {r : ρ} {k : α → Dialogue ρ α β} {a : α} {b b' : β} {t : List (ρ × α)}

inductive Run : Dialogue ρ α β → List (ρ × α) → β → Prop
  | done (b : β) : Run (.done b) [] b
  | ask {r : ρ} {k : α → Dialogue ρ α β} {a : α} {t : List (ρ × α)} {b : β} (h : Run (k a) t b) :
    Run (.ask r k) ((r, a) :: t) b

theorem run_done_iff : Run (.done b : Dialogue ρ α β) t b' ↔ t = [] ∧ b' = b := by
  constructor
  · rintro ⟨⟩
    exact ⟨rfl, rfl⟩
  · rintro ⟨rfl, rfl⟩
    exact .done _

theorem run_ask_iff : Run (.ask r k) t b ↔ ∃ a u, t = (r, a) :: u ∧ Run (k a) u b := by
  constructor
  · rintro ⟨⟩
    exact ⟨_, _, rfl, ‹_›⟩
  · rintro ⟨a, u, rfl, h⟩
    exact .ask h

/-- A question that ends the dialogue. -/
theorem run_ask_done_iff {f : α → β} :
    Run (.ask r fun a => .done (f a)) t b ↔ ∃ a, t = [(r, a)] ∧ b = f a := by
  rw [run_ask_iff]
  constructor
  · rintro ⟨a, u, rfl, h⟩
    obtain ⟨rfl, rfl⟩ := run_done_iff.mp h
    exact ⟨a, rfl, rfl⟩
  · rintro ⟨a, rfl, rfl⟩
    exact ⟨a, [], rfl, .done _⟩

/-- The same dialogue with other questions. -/
def mapAsk {ρ' : Type} (f : ρ → ρ') : Dialogue ρ α β → Dialogue ρ' α β
  | .done b => .done b
  | .ask r k => .ask (f r) fun a => mapAsk f (k a)

end Dialogue

end EufyNvr

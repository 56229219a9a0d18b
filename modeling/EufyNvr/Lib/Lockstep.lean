import EufyNvr.Lib.Machine

/-!
# Machines in step

Two machines over the same labels, and a relation between their states that
every label respects: it is enabled in both or in neither. Runs then stay
related for as long as they go on.
-/

namespace EufyNvr.Machine

variable {σ τ α : Type*} {step : σ → α → Option σ} {step' : τ → α → Option τ} {R : σ → τ → Prop}

def Lockstep (step : σ → α → Option σ) (step' : τ → α → Option τ) (R : σ → τ → Prop) : Prop :=
  ∀ s t l, R s t → Option.Rel R (step s l) (step' t l)

theorem rel_mono {Q : σ → τ → Prop} {x : Option σ} {y : Option τ} (h : Option.Rel R x y)
    (hq : ∀ s t, R s t → Q s t) : Option.Rel Q x y := by
  cases h with
  | none => exact .none
  | some hr => exact .some (hq _ _ hr)

theorem Lockstep.exec (h : Lockstep step step' R) {s : σ} {t : τ} {ls : List α} (hr : R s t) :
    Option.Rel R (exec step s ls) (exec step' t ls) := by
  induction ls generalizing s t with
  | nil => exact .some hr
  | cons l ls ih =>
    have hl := h s t l hr
    rw [Machine.exec, Machine.exec]
    cases hs : step s l with
    | none =>
      rw [hs] at hl
      cases ht : step' t l with
      | none => exact .none
      | some u => rw [ht] at hl; cases hl
    | some v =>
      rw [hs] at hl
      cases ht : step' t l with
      | none => rw [ht] at hl; cases hl
      | some u =>
        rw [ht] at hl
        cases hl with
        | some hvu => exact ih hvu

end EufyNvr.Machine

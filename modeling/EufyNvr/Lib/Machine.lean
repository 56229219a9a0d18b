import Mathlib

/-!
# Labelled machines

A machine is a partial step function: `step s l` is the state after label
`l`, or `none` where `l` is not enabled in `s`. `exec` runs a list of
labels. The rules below turn facts about one step into facts about a whole
run: an invariant, a relation that every step respects, and the step at
which a property starts to hold.

Runs are finite. Nothing here is about fairness or termination.
-/

namespace EufyNvr.Machine

variable {σ α : Type*} {step : σ → α → Option σ}

def exec (step : σ → α → Option σ) : σ → List α → Option σ
  | s, [] => some s
  | s, l :: ls =>
    match step s l with
    | some t => exec step t ls
    | none => none

@[simp] theorem exec_nil {s : σ} : exec step s [] = some s := rfl

theorem exec_cons {s u : σ} {l : α} {ls : List α} :
    exec step s (l :: ls) = some u ↔ ∃ t, step s l = some t ∧ exec step t ls = some u := by
  simp only [exec]
  cases h : step s l <;> simp

theorem exec_append {s u : σ} {ls ms : List α} :
    exec step s (ls ++ ms) = some u ↔ ∃ t, exec step s ls = some t ∧ exec step t ms = some u := by
  induction ls generalizing s with
  | nil => simp
  | cons l ls ih =>
    simp only [List.cons_append, exec_cons, ih]
    constructor
    · rintro ⟨t, ht, v, hv, hu⟩
      exact ⟨v, ⟨t, ht, hv⟩, hu⟩
    · rintro ⟨v, ⟨t, ht, hv⟩, hu⟩
      exact ⟨t, ht, v, hv, hu⟩

theorem exec_snoc {s u : σ} {l : α} {ls : List α} :
    exec step s (ls ++ [l]) = some u ↔ ∃ t, exec step s ls = some t ∧ step t l = some u := by
  simp [exec_append, exec_cons]

/-- A fact about the end of a run, by running the labels. -/
theorem exec_of_check {P : σ → Prop} [DecidablePred P] {s : σ} {ls : List α}
    (h : ((exec step s ls).any fun t => decide (P t)) = true) :
    ∃ t, exec step s ls = some t ∧ P t := by
  cases he : exec step s ls with
  | none => rw [he] at h; cases h
  | some t => exact ⟨t, rfl, by simpa [he] using h⟩

-- ---------------------------------------------------------------------------
-- From a step to a run
-- ---------------------------------------------------------------------------

/-- Every step of the run is taken in a state and by a label that `C` allows. -/
def Along (step : σ → α → Option σ) (C : σ → α → Prop) (s : σ) (ls : List α) : Prop :=
  ∀ pre l post u, ls = pre ++ l :: post → exec step s pre = some u → C u l

theorem Along.head {C : σ → α → Prop} {s : σ} {l : α} {ls : List α}
    (h : Along step C s (l :: ls)) : C s l := h [] l ls s rfl rfl

theorem Along.tail {C : σ → α → Prop} {s t : σ} {l : α} {ls : List α}
    (h : Along step C s (l :: ls)) (hs : step s l = some t) : Along step C t ls := by
  intro pre m post u hls hu
  exact h (l :: pre) m post u (by rw [hls]; rfl) (exec_cons.mpr ⟨t, hs, hu⟩)

theorem Along.nil {C : σ → α → Prop} {s : σ} : Along step C s [] := by
  intro pre l post u hls _
  cases pre <;> cases hls

theorem Along.cons {C : σ → α → Prop} {s : σ} {l : α} {ls : List α} (h : C s l)
    (ht : ∀ t, step s l = some t → Along step C t ls) : Along step C s (l :: ls) := by
  rintro (_ | ⟨m, pre⟩) l' post u hls hu
  · cases hls
    cases hu
    exact h
  · cases hls
    obtain ⟨t, hs, hu⟩ := exec_cons.mp hu
    exact ht t hs pre l' post u rfl hu

theorem Along.suffix {C : σ → α → Prop} {s t : σ} {ls ms : List α}
    (h : Along step C s (ls ++ ms)) (hs : exec step s ls = some t) : Along step C t ms := by
  intro pre m post u hms hu
  exact h (ls ++ pre) m post u (by rw [hms, List.append_assoc]) (exec_append.mpr ⟨t, hs, hu⟩)

theorem Along.left {C : σ → α → Prop} {s : σ} {ls ms : List α}
    (h : Along step C s (ls ++ ms)) : Along step C s ls := by
  intro pre m post u hls hu
  exact h pre m (post ++ ms) u (by rw [hls, List.append_assoc, List.cons_append]) hu

theorem Along.and {C D : σ → α → Prop} {s : σ} {ls : List α} (h : Along step C s ls)
    (h' : Along step D s ls) : Along step (fun s l => C s l ∧ D s l) s ls :=
  fun pre l post u hls hu => ⟨h pre l post u hls hu, h' pre l post u hls hu⟩

/-- `Along` for a condition that can be decided, by running the labels. -/
def checkAlong (step : σ → α → Option σ) (C : σ → α → Prop) [∀ s l, Decidable (C s l)] :
    σ → List α → Bool
  | _, [] => true
  | s, l :: ls =>
    decide (C s l) &&
      match step s l with
      | some t => checkAlong step C t ls
      | none => true

theorem along_of_check {C : σ → α → Prop} [∀ s l, Decidable (C s l)] {s : σ} {ls : List α}
    (h : checkAlong step C s ls = true) : Along step C s ls := by
  induction ls generalizing s with
  | nil => exact .nil
  | cons m ls ih =>
    simp only [checkAlong, Bool.and_eq_true, decide_eq_true_eq] at h
    refine .cons h.1 fun t ht => ?_
    rw [ht] at h
    exact ih h.2

/-- The invariant rule for runs that meet a condition on states and labels. -/
theorem invariant_along {C : σ → α → Prop} {I : σ → Prop} {s t : σ} {ls : List α}
    (hstep : ∀ s l t, C s l → I s → step s l = some t → I t)
    (hC : Along step C s ls) (hs : I s) (h : exec step s ls = some t) : I t := by
  induction ls generalizing s with
  | nil => cases h; exact hs
  | cons l ls ih =>
    obtain ⟨u, hu, ht⟩ := exec_cons.mp h
    exact ih (hC.tail hu) (hstep s l u hC.head hs hu) ht

/-- The invariant rule for runs whose labels all satisfy `P`. -/
theorem invariant_of {P : α → Prop} {I : σ → Prop} {s t : σ} {ls : List α}
    (hstep : ∀ s l t, P l → I s → step s l = some t → I t)
    (hP : ∀ l ∈ ls, P l) (hs : I s) (h : exec step s ls = some t) : I t :=
  invariant_along (C := fun _ => P) hstep (fun _ l _ _ hls _ => hP l (by simp [hls])) hs h

theorem invariant {I : σ → Prop} {s t : σ} {ls : List α}
    (hstep : ∀ s l t, I s → step s l = some t → I t)
    (hs : I s) (h : exec step s ls = some t) : I t :=
  invariant_of (P := fun _ => True) (fun s l t _ => hstep s l t) (fun _ _ => trivial) hs h

/-- The invariant rule for facts that also speak about the labels taken so far. -/
theorem invariant_history {I : List α → σ → Prop} {s t : σ} {ls : List α}
    (hstep : ∀ pre l u v, exec step s pre = some u → I pre u → step u l = some v →
      I (pre ++ [l]) v)
    (hs : I [] s) (h : exec step s ls = some t) : I ls t := by
  induction ls using List.reverseRecOn generalizing t with
  | nil => cases h; exact hs
  | append_singleton pre l ih =>
    obtain ⟨u, hu, hl⟩ := exec_snoc.mp h
    exact hstep pre l u t hu (ih hu) hl

/-- A relation between the ends of a step that composes relates the ends of
a run. `I` is an invariant the step fact may use. -/
theorem relation {I : σ → Prop} {R : σ → σ → Prop} {s t : σ} {ls : List α}
    (hrefl : ∀ s, R s s) (htrans : ∀ s t u, R s t → R t u → R s u)
    (hinv : ∀ s l t, I s → step s l = some t → I t)
    (hstep : ∀ s l t, I s → step s l = some t → R s t)
    (hs : I s) (h : exec step s ls = some t) : R s t := by
  induction ls generalizing s with
  | nil => cases h; exact hrefl _
  | cons l ls ih =>
    obtain ⟨u, hu, ht⟩ := exec_cons.mp h
    exact htrans s u t (hstep s l u hs hu) (ih (hinv s l u hs hu) ht)

/-- Where a property fails at the start and holds at the end, some step of
the run makes it hold. -/
theorem exists_step {P : σ → Prop} {s t : σ} {ls : List α} (hs : ¬ P s) (ht : P t)
    (h : exec step s ls = some t) :
    ∃ pre l post u v, ls = pre ++ l :: post ∧ exec step s pre = some u ∧ ¬ P u ∧
      step u l = some v ∧ P v ∧ exec step v post = some t := by
  induction ls generalizing s with
  | nil => cases h; exact absurd ht hs
  | cons l ls ih =>
    obtain ⟨u, hu, hrest⟩ := exec_cons.mp h
    by_cases hPu : P u
    · exact ⟨[], l, ls, s, u, rfl, rfl, hs, hu, hPu, hrest⟩
    · obtain ⟨pre, m, post, v, w, hls, hv, hPv, hw, hPw, hpost⟩ := ih hPu hrest
      exact ⟨l :: pre, m, post, v, w, by rw [hls]; rfl, exec_cons.mpr ⟨u, hu, hv⟩, hPv, hw, hPw,
        hpost⟩

-- ---------------------------------------------------------------------------
-- Reaching a state
-- ---------------------------------------------------------------------------

def Reaches (step : σ → α → Option σ) (s t : σ) : Prop := ∃ ls, exec step s ls = some t

theorem Reaches.refl (s : σ) : Reaches step s s := ⟨[], rfl⟩

theorem Reaches.trans {s t u : σ} (h : Reaches step s t) (h' : Reaches step t u) :
    Reaches step s u := by
  obtain ⟨ls, hls⟩ := h
  obtain ⟨ms, hms⟩ := h'
  exact ⟨ls ++ ms, exec_append.mpr ⟨t, hls, hms⟩⟩

theorem Reaches.single {s t : σ} {l : α} (h : step s l = some t) : Reaches step s t :=
  ⟨[l], exec_cons.mpr ⟨t, h, rfl⟩⟩

end EufyNvr.Machine

import Mathlib.Data.List.Induction
import Mathlib.Data.List.Infix

/-!
Runs of a system that goes on by events. An event is possible in some states only, and where it is
possible it leads to one state, so the events of a run determine the states it passes through.
-/

namespace Foreman

universe u v w

variable {σ : Type u} {ε : Type v} {α : Type w} {step : σ → ε → Option σ}

/-- The runs from `s`: their events in order and the state in which they end. -/
inductive Run (step : σ → ε → Option σ) (s : σ) : List ε → σ → Prop
  | nil : Run step s [] s
  | snoc {es : List ε} {t u : σ} {e : ε} (before : Run step s es t) (last : step t e = some u) :
      Run step s (es ++ [e]) u

namespace Run

/-- Runs are computed by stepping through their events. -/
theorem iff_foldlM {s t : σ} {es : List ε} : Run step s es t ↔ es.foldlM step s = some t := by
  constructor
  · intro h
    induction h with
    | nil => rfl
    | snoc _ last ih => simp [List.foldlM_append, ih, last]
  · intro h
    induction hn : es.length generalizing es t with
    | zero =>
        obtain rfl := List.length_eq_zero_iff.mp hn
        obtain rfl : s = t := by simpa using h
        exact nil
    | succ n ih =>
        obtain ⟨es, e, rfl⟩ : ∃ es' e, es = es' ++ [e] :=
          ⟨_, _, (List.dropLast_concat_getLast (by rintro rfl; simp at hn)).symm⟩
        rw [List.foldlM_append, Option.bind_eq_bind, Option.bind_eq_some_iff] at h
        obtain ⟨u, hu, last⟩ := h
        exact snoc (ih hu (by simpa using hn)) (by simpa using last)

theorem trans {s t u : σ} {es es' : List ε} (h : Run step s es t) (h' : Run step t es' u) :
    Run step s (es ++ es') u := by
  rw [iff_foldlM] at *
  simp [List.foldlM_append, h, h']

theorem append_inv {s u : σ} {es es' : List ε} (h : Run step s (es ++ es') u) :
    ∃ t, Run step s es t ∧ Run step t es' u := by
  simpa [iff_foldlM, List.foldlM_append, Option.bind_eq_some_iff] using h

theorem unique {s t t' : σ} {es : List ε} (h : Run step s es t) (h' : Run step s es t') :
    t = t' := by
  rw [iff_foldlM] at *
  exact Option.some.inj (h.symm.trans h')

/-- What holds at first and is kept by every step holds after every run. -/
theorem invariant {I : σ → Prop} {s : σ} (first : I s)
    (keep : ∀ t e u, I t → step t e = some u → I u) {es : List ε} {t : σ}
    (h : Run step s es t) : I t := by
  induction h with
  | nil => exact first
  | snoc _ last ih => exact keep _ _ _ ih last

/-- What holds after each part of a list of events that can be run is computed by running them. -/
theorem of_inits {P : σ → Bool} {s t : σ} {es es' : List ε}
    (all : (es.inits.all fun es' => (es'.foldlM step s).all P) = true) (part : es' <+: es)
    (run : Run step s es' t) : P t = true := by
  have here := List.all_eq_true.mp all es' ((List.mem_inits _ _).mpr part)
  rwa [iff_foldlM.mp run, Option.all_some] at here

end Run

/-- Along the events from `s`, the event `e` comes in the state `t`. -/
def Happens (step : σ → ε → Option σ) (s : σ) (es : List ε) (t : σ) (e : ε) : Prop :=
  ∃ es₁ es₂, es = es₁ ++ e :: es₂ ∧ Run step s es₁ t

theorem not_happens_nil {s t : σ} {e : ε} : ¬Happens step s [] t e := by
  rintro ⟨es₁, es₂, heq, -⟩
  simp at heq

theorem happens_concat {s t u : σ} {es : List ε} {e f : ε} (run : Run step s es t) :
    Happens step s (es ++ [e]) u f ↔ Happens step s es u f ∨ u = t ∧ f = e := by
  constructor
  · rintro ⟨es₁, es₂, heq, before⟩
    cases es₂ using List.reverseRecOn with
    | nil =>
        obtain ⟨rfl, hlast⟩ := List.append_inj' heq rfl
        exact .inr ⟨before.unique run, (List.singleton_inj.mp hlast).symm⟩
    | append_singleton es₂ last =>
        rw [← List.cons_append, ← List.append_assoc] at heq
        exact .inl ⟨es₁, es₂, (List.append_inj' heq rfl).1, before⟩
  · rintro (⟨es₁, es₂, rfl, before⟩ | ⟨rfl, rfl⟩)
    · exact ⟨es₁, es₂ ++ [e], by simp, before⟩
    · exact ⟨es, [], rfl, run⟩

/-- What `f` notes at each event of a run from `s`, in order. -/
def notes (step : σ → ε → Option σ) (f : σ → ε → List α) (s : σ) : List ε → List α
  | [] => []
  | e :: es =>
    match step s e with
    | some t => f s e ++ notes step f t es
    | none => []

theorem notes_append (f : σ → ε → List α) {s t : σ} {es : List ε} (h : Run step s es t)
    (es' : List ε) :
    notes step f s (es ++ es') = notes step f s es ++ notes step f t es' := by
  induction es generalizing s with
  | nil =>
      obtain rfl : s = t := Run.unique .nil h
      rfl
  | cons e es ih =>
      have h : Run step s ([e] ++ es) t := h
      obtain ⟨u, first, h⟩ := Run.append_inv h
      have first : step s e = some u := by simpa [Run.iff_foldlM] using first
      simp [notes, first, ih h]

theorem notes_snoc (f : σ → ε → List α) {s t u : σ} {es : List ε} {e : ε} (h : Run step s es t)
    (last : step t e = some u) :
    notes step f s (es ++ [e]) = notes step f s es ++ f t e := by
  rw [notes_append f h]
  simp [notes, last]

end Foreman

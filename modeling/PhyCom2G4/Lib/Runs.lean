import Mathlib.Data.List.Basic

/-!
# Runs of a machine

A machine takes a step for every input it is given. `states` are the states
it goes through, `Along` says that each step is taken where it may be. What
one step keeps, a run keeps (`invariant`); what one step keeps only where it
may be taken, a run keeps just when all its steps may (`invariant_iff`). Two
machines go alike just when all their steps do (`outputs_eq_iff`), or when their steps
keep them alike (`outputs_alike`), and steps on which the others do not rely may be
left out (`left_out`).
-/

namespace Runs

variable {σ ι : Type} {exec : ι → σ → σ} {may ok : ι → σ → Prop} {P : σ → Prop}

def states (exec : ι → σ → σ) (is : List ι) (s : σ) : List σ := is.scanl (fun s i => exec i s) s

/-- Each step of a run is taken where it may be. -/
def Along (exec : ι → σ → σ) (may : ι → σ → Prop) : List ι → σ → Prop
  | [], _ => True
  | i :: is, s => may i s ∧ Along exec may is (exec i s)

@[simp] theorem states_nil (s : σ) : states exec [] s = [s] := rfl

@[simp] theorem states_cons (i : ι) (is : List ι) (s : σ) :
    states exec (i :: is) s = s :: states exec is (exec i s) := by
  simp [states]

theorem start_mem_states (is : List ι) (s : σ) : s ∈ states exec is s := by
  cases is <;> simp

theorem invariant (hstep : ∀ i s, P s → may i s → P (exec i s)) (hs : P s)
    (h : Along exec may is s) : ∀ s' ∈ states exec is s, P s' := by
  induction is generalizing s with
  | nil => simpa using hs
  | cons i is ih =>
    simp only [states_cons, List.forall_mem_cons]
    exact ⟨hs, ih (hstep i s hs h.1) h.2⟩

/-- A property of the steps, from an invariant of the states. -/
theorem along_of_invariant {Q : ι → σ → Prop} (hstep : ∀ i s, P s → may i s → P (exec i s))
    (hq : ∀ i s, P s → may i s → Q i s) (hs : P s) (h : Along exec may is s) :
    Along exec Q is s := by
  induction is generalizing s with
  | nil => trivial
  | cons i is ih => exact ⟨hq i s hs h.1, ih (hstep i s hs h.1) h.2⟩

theorem along_and : Along exec (fun i s => may i s ∧ ok i s) is s ↔
    Along exec may is s ∧ Along exec ok is s := by
  induction is generalizing s with
  | nil => simp [Along]
  | cons i is ih =>
    simp only [Along, ih]
    exact and_and_and_comm

/-- What all states of a run have just when its steps may be taken: such a step
keeps the invariant, from which it follows, and any other ends it. -/
theorem safe_iff {Q : σ → Prop} (hstep : ∀ i s, P s → ok i s → may i s → P (exec i s))
    (hfail : ∀ i s, P s → ok i s → Q (exec i s) → may i s) (hq : ∀ s, P s → Q s) (hs : P s)
    (hok : Along exec ok is s) : (∀ s' ∈ states exec is s, Q s') ↔ Along exec may is s := by
  induction is generalizing s with
  | nil => simpa [Along] using hq s hs
  | cons i is ih =>
    simp only [states_cons, List.forall_mem_cons, Along]
    constructor
    · rintro ⟨-, h⟩
      have hmay := hfail i s hs hok.1 (h _ (start_mem_states is _))
      exact ⟨hmay, (ih (hstep i s hs hok.1 hmay) hok.2).mp h⟩
    · rintro ⟨hmay, h⟩
      exact ⟨hq s hs, (ih (hstep i s hs hok.1 hmay) hok.2).mpr h⟩

theorem invariant_iff (hstep : ∀ i s, P s → ok i s → (P (exec i s) ↔ may i s)) (hs : P s)
    (hok : Along exec ok is s) : (∀ s' ∈ states exec is s, P s') ↔ Along exec may is s :=
  safe_iff (fun i s h ho => (hstep i s h ho).mpr) (fun i s h ho => (hstep i s h ho).mp)
    (fun _ h => h) hs hok

section
variable {ω : Type} {f g : ι → σ → ω × σ}

def outputs (f : ι → σ → ω × σ) : List ι → σ → List ω
  | [], _ => []
  | i :: is, s => (f i s).1 :: outputs f is (f i s).2

def last (f : ι → σ → ω × σ) (is : List ι) (s : σ) : σ := is.foldl (fun s i => (f i s).2) s

theorem outputs_eq_iff (hagree : ∀ i s, may i s → ok i s → g i s = f i s)
    (hdiffer : ∀ i s, may i s → ¬ ok i s → (g i s).1 ≠ (f i s).1)
    (hmay : Along (fun i s => (f i s).2) may is s) :
    (outputs g is s = outputs f is s ∧ last g is s = last f is s) ↔
      Along (fun i s => (f i s).2) ok is s := by
  induction is generalizing s with
  | nil => simp [outputs, last, Along]
  | cons i is ih =>
    by_cases hok : ok i s
    · have hstep := hagree i s hmay.1 hok
      simp only [outputs, last, List.foldl_cons, hstep, List.cons.injEq, true_and, Along, hok]
      exact ih hmay.2
    · have hne := hdiffer i s hmay.1 hok
      simp [outputs, hne, Along, hok]

theorem outputs_alike {R : σ → σ → Prop}
    (hstep : ∀ i s t, R s t → may i s → (g i t).1 = (f i s).1 ∧ R (f i s).2 (g i t).2)
    (hR : R s t) (hmay : Along (fun i s => (f i s).2) may is s) :
    outputs g is t = outputs f is s ∧ R (last f is s) (last g is t) := by
  induction is generalizing s t with
  | nil => exact ⟨rfl, hR⟩
  | cons i is ih =>
    obtain ⟨hout, hnext⟩ := hstep i s t hR hmay.1
    obtain ⟨houts, hlast⟩ := ih hnext hmay.2
    exact ⟨by simp only [outputs, hout, houts], hlast⟩

/-- Steps that change nothing that the others rely on may be left out. -/
theorem left_out {R : σ → σ → Prop} {aside : ι → Bool}
    (haside : ∀ i s t, R s t → may i s → aside i = true → R (f i s).2 t)
    (hother : ∀ i s t, R s t → may i s → aside i = false →
      (f i t).1 = (f i s).1 ∧ R (f i s).2 (f i t).2)
    (hR : R s t) (hmay : Along (fun i s => (f i s).2) may is s) :
    outputs f (is.filter fun i => !aside i) t =
        ((is.zip (outputs f is s)).filter fun x => !aside x.1).map Prod.snd ∧
      R (last f is s) (last f (is.filter fun i => !aside i) t) := by
  induction is generalizing s t with
  | nil => exact ⟨rfl, hR⟩
  | cons i is ih =>
    cases ha : aside i with
    | true =>
      have hrest := ih (haside i s t hR hmay.1 ha) hmay.2
      simpa [outputs, last, ha] using hrest
    | false =>
      obtain ⟨hout, hstep⟩ := hother i s t hR hmay.1 ha
      have hrest := ih hstep hmay.2
      simpa [outputs, last, ha, hout] using hrest

end

end Runs

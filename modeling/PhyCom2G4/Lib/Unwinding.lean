import PhyCom2G4.Lib.Runs

/-!
# Agents that do not disturb each other

Actions of several agents on one state, in any order. Each agent has a relation
between states, of being alike to it. An agent's own action keeps states alike
to it alike, and the action of another agent leaves a state alike to what it was;
what an action may rely on is only said of the agent's run alone. Then to each
agent a run of all is as its run alone, in whatever order the actions come
(`alike_alone`).
-/

namespace Unwinding

open Runs

variable {ι α σ : Type} [DecidableEq ι]

def purge (agent : α → ι) (i : ι) (as : List α) : List α := as.filter fun a => agent a = i

def run (exec : α → σ → σ) (as : List α) (s : σ) : σ := as.foldl (fun s a => exec a s) s

/-- A state may be like another to an agent that runs alone in the second. -/
structure Unwinds (agent : α → ι) (exec : α → σ → σ) (Like : ι → σ → σ → Prop)
    (ok : α → σ → Prop) : Prop where
  own : ∀ a s t, Like (agent a) s t → ok a t → Like (agent a) (exec a s) (exec a t)
  other : ∀ a i s t t', agent a ≠ i → Like i s t → Like (agent a) s t' → ok a t' →
    Like i (exec a s) t

section
variable {agent : α → ι} {exec : α → σ → σ} {Like : ι → σ → σ → Prop} {ok : α → σ → Prop}
  {s : σ} {as as' : List α}

theorem purge_own (a : α) (as : List α) :
    purge agent (agent a) (a :: as) = a :: purge agent (agent a) as := by
  simp [purge]

theorem purge_other {a : α} (h : agent a ≠ i) (as : List α) :
    purge agent i (a :: as) = purge agent i as := by
  simp [purge, h]

theorem Unwinds.step (h : Unwinds agent exec Like ok) {t : ι → σ} (hs : ∀ i, Like i s (t i))
    (hok : ∀ i, Along exec ok (purge agent i (a :: as)) (t i)) :
    ∃ t' : ι → σ, (∀ i, Like i (exec a s) (t' i)) ∧
      (∀ i, Along exec ok (purge agent i as) (t' i)) ∧
      ∀ i, run exec (purge agent i (a :: as)) (t i) = run exec (purge agent i as) (t' i) := by
  have hown := hok (agent a)
  rw [purge_own] at hown
  refine ⟨fun i => if agent a = i then exec a (t i) else t i, ?_, ?_, ?_⟩ <;> intro i <;>
    dsimp only <;> by_cases hi : agent a = i
  · subst hi
    rw [if_pos rfl]
    exact h.own a s _ (hs _) hown.1
  · rw [if_neg hi]
    exact h.other a i s _ _ hi (hs i) (hs _) hown.1
  · subst hi
    rw [if_pos rfl]
    exact hown.2
  · rw [if_neg hi, ← purge_other hi]
    exact hok i
  · subst hi
    rw [if_pos rfl, purge_own]
    rfl
  · rw [if_neg hi, purge_other hi]

theorem alike_from (h : Unwinds agent exec Like ok) {t : ι → σ} (hs : ∀ i, Like i s (t i))
    (hok : ∀ i, Along exec ok (purge agent i as) (t i)) (i : ι) :
    Like i (run exec as s) (run exec (purge agent i as) (t i)) := by
  induction as generalizing s t with
  | nil => exact hs i
  | cons a as ih =>
    obtain ⟨t', hs', hok', hrun⟩ := h.step hs hok
    rw [hrun i]
    exact ih hs' hok'

/-- To each agent a run of all is as its run alone. -/
theorem alike_alone (h : Unwinds agent exec Like ok) (hs : ∀ i, Like i s s)
    (hok : ∀ i, Along exec ok (purge agent i as) s) (i : ι) :
    Like i (run exec as s) (run exec (purge agent i as) s) :=
  alike_from h hs hok i

/-- What every action keeps that is ok alone, a run of all keeps. -/
theorem kept_from {P : σ → Prop} (h : Unwinds agent exec Like ok)
    (hstep : ∀ a s t, P s → Like (agent a) s t → ok a t → P (exec a s)) {t : ι → σ}
    (hs : ∀ i, Like i s (t i)) (hok : ∀ i, Along exec ok (purge agent i as) (t i)) (hp : P s) :
    P (run exec as s) := by
  induction as generalizing s t with
  | nil => exact hp
  | cons a as ih =>
    obtain ⟨t', hs', hok', -⟩ := h.step hs hok
    have hown := hok (agent a)
    rw [purge_own] at hown
    exact ih hs' hok' (hstep a s _ hp (hs _) hown.1)

end

end Unwinding

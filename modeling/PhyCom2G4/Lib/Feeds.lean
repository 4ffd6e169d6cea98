import Mathlib.Data.List.Basic

/-!
# Machines that read from a queue

A machine reads from the front of a queue whose back is fed from outside. A
step that finds in the queue all that it reads does not notice what is fed
behind that, so that in a run of such steps it does not matter when the queue
is fed (`run_eq_of_fed`).
-/

namespace Feeds

/-- A machine of steps `ι`, with a queue of `β`. Each step gives an `ω`. -/
structure Machine (σ ι β ω : Type) where
  exec : ι → σ → ω × σ
  feed : List β → σ → σ
  /-- The step wants to read more than there is. -/
  Short : ι → σ → Prop
  feed_nil : ∀ s, feed [] s = s
  feed_append : ∀ s t σ, feed (s ++ t) σ = feed t (feed s σ)
  exec_feed : ∀ i t σ, ¬ Short i σ → exec i (feed t σ) = ((exec i σ).1, feed t (exec i σ).2)
  full_feed : ∀ i t σ, ¬ Short i σ → ¬ Short i (feed t σ)

inductive Move (ι β : Type)
  | step (i : ι)
  | feed (s : List β)

variable {σ ι β ω : Type}

def steps (moves : List (Move ι β)) : List ι :=
  moves.filterMap fun
    | .step i => some i
    | .feed _ => none

def fed (moves : List (Move ι β)) : List β :=
  moves.flatMap fun
    | .step _ => []
    | .feed s => s

@[simp] theorem steps_step (i : ι) (moves : List (Move ι β)) :
    steps (.step i :: moves) = i :: steps moves := rfl

@[simp] theorem steps_feed (s : List β) (moves : List (Move ι β)) :
    steps (.feed s :: moves) = steps moves := rfl

@[simp] theorem fed_step (i : ι) (moves : List (Move ι β)) :
    fed (.step i :: moves) = fed moves := rfl

@[simp] theorem fed_feed (s : List β) (moves : List (Move ι β)) :
    fed (.feed s :: moves) = s ++ fed moves := rfl

namespace Machine

variable (m : Machine σ ι β ω)

def run : List (Move ι β) → σ → List ω × σ
  | [], s => ([], s)
  | .step i :: moves, s => ((m.exec i s).1 :: (run moves (m.exec i s).2).1,
      (run moves (m.exec i s).2).2)
  | .feed t :: moves, s => run moves (m.feed t s)

/-- No step wants to read more than there is. -/
def Full : List (Move ι β) → σ → Prop
  | [], _ => True
  | .step i :: moves, s => ¬ m.Short i s ∧ Full moves (m.exec i s).2
  | .feed t :: moves, s => Full moves (m.feed t s)

variable {m}

theorem run_fed_first {moves : List (Move ι β)} {s : σ} (h : m.Full moves s) :
    m.Full ((steps moves).map .step) (m.feed (fed moves) s) ∧
      m.run moves s = m.run ((steps moves).map .step) (m.feed (fed moves) s) := by
  induction moves generalizing s with
  | nil => exact ⟨trivial, by rw [show fed ([] : List (Move ι β)) = [] from rfl, m.feed_nil]; rfl⟩
  | cons move moves ih =>
    cases move with
    | step i =>
      obtain ⟨hfull, hrun⟩ := ih h.2
      have hexec := m.exec_feed i (fed moves) s h.1
      simp only [steps_step, fed_step, List.map_cons, Full, run, hexec]
      exact ⟨⟨m.full_feed i _ s h.1, hfull⟩, by rw [hrun]⟩
    | feed t =>
      simp only [steps_feed, fed_feed, run, m.feed_append]
      exact ih h

/-- Two schedules of the same steps that feed the same go alike. -/
theorem run_eq_of_fed {moves moves' : List (Move ι β)} {s : σ} (h : m.Full moves s)
    (h' : m.Full moves' s) (hsteps : steps moves = steps moves') (hfed : fed moves = fed moves') :
    m.run moves s = m.run moves' s := by
  rw [(run_fed_first h).2, (run_fed_first h').2, hsteps, hfed]

end Machine

end Feeds

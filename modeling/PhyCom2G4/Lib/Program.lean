/-!
# Programs over a state that may stop

A `Prog ε σ α` reads and changes a state of type `σ` and then either returns
a value or stops with a fault of type `ε`; a stop keeps the state reached so
far. `run` gives the outcome and the last state, and each kind of step has a
lemma that says what it comes to.
-/

namespace Program

def Prog (ε σ α : Type) : Type := σ → Except ε α × σ

namespace Prog

def run (m : Prog ε σ α) (s : σ) : Except ε α × σ := m s

instance : Monad (Prog ε σ) where
  pure a := fun s => (.ok a, s)
  bind m f := fun s => match m s with
    | (.ok a, s') => f a s'
    | (.error e, s') => (.error e, s')

def stop (e : ε) : Prog ε σ α := fun s => (.error e, s)

def get : Prog ε σ σ := fun s => (.ok s, s)

def modify (f : σ → σ) : Prog ε σ Unit := fun s => (.ok (), f s)

/-- A step that returns a value read off the state while changing it. -/
def act (f : σ → α × σ) : Prog ε σ α := fun s => (.ok (f s).1, (f s).2)

/-- A step whose outcome, a stop included, is computed outside. -/
def attempt (f : σ → Except ε α × σ) : Prog ε σ α := f

@[simp] theorem run_pure (a : α) (s : σ) : (pure a : Prog ε σ α).run s = (.ok a, s) := rfl

@[simp] theorem run_bind (m : Prog ε σ α) (f : α → Prog ε σ β) (s : σ) :
    (m >>= f).run s = match m.run s with
      | (.ok a, s') => (f a).run s'
      | (.error e, s') => (.error e, s') := rfl

@[simp] theorem run_stop (e : ε) (s : σ) : (stop e : Prog ε σ α).run s = (.error e, s) := rfl

@[simp] theorem run_get (s : σ) : (get : Prog ε σ σ).run s = (.ok s, s) := rfl

@[simp] theorem run_modify (f : σ → σ) (s : σ) :
    (modify f : Prog ε σ Unit).run s = (.ok (), f s) := rfl

@[simp] theorem run_act (f : σ → α × σ) (s : σ) :
    (act f : Prog ε σ α).run s = (.ok (f s).1, (f s).2) := rfl

@[simp] theorem run_attempt (f : σ → Except ε α × σ) (s : σ) :
    (attempt f : Prog ε σ α).run s = f s := rfl

theorem run_ite [Decidable c] (m n : Prog ε σ α) (s : σ) :
    (if c then m else n).run s = if c then m.run s else n.run s := by
  split <;> rfl

end Prog

end Program

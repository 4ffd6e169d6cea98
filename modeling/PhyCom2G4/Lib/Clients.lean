import PhyCom2G4.Lib.Runs

/-!
# Clients of a service

A service answers requests, and things happen to it from outside. A client
decides on its next request by the answers it got and by what it sees of the
state. If one service simulates another in what it answers and shows, no client
can tell the two apart (`Simulates.abreast`). A fault stops the client; the
states then need to be related no longer as they are between two requests.
-/

namespace Clients

open Runs

/-- Requests `ρ` on states `σ`, answered by `α` or a fault `ε`; `ν` is what a client
sees and `η` what happens from outside. -/
structure Service (σ ρ α ε ν η : Type) where
  exec : ρ → σ → Except ε α × σ
  view : σ → ν
  env : η → σ → σ

abbrev Client (ρ α ν : Type) := List α → ν → Option ρ

structure Session (σ α ε : Type) where
  state : σ
  answers : List α
  stop : Option ε

inductive Move (η : Type)
  | turn
  | env (e : η)

variable {σ τ ρ α ε ν η : Type}

def Service.turn (S : Service σ ρ α ε ν η) (client : Client ρ α ν) (x : Session σ α ε) :
    Session σ α ε :=
  match client x.answers (S.view x.state) with
  | none => x
  | some r => match S.exec r x.state with
    | (.ok a, s) => ⟨s, x.answers ++ [a], none⟩
    | (.error e, s) => ⟨s, x.answers, some e⟩

def Service.move (S : Service σ ρ α ε ν η) (client : Client ρ α ν) (m : Move η)
    (x : Session σ α ε) : Session σ α ε :=
  if x.stop.isSome then x
  else match m with
    | .turn => S.turn client x
    | .env e => { x with state := S.env e x.state }

def Service.run (S : Service σ ρ α ε ν η) (client : Client ρ α ν) (moves : List (Move η))
    (x : Session σ α ε) : Session σ α ε :=
  moves.foldl (fun x m => S.move client m x) x

def Service.Asks (S : Service σ ρ α ε ν η) (fair : ρ → σ → Prop) (client : Client ρ α ν)
    (m : Move η) (x : Session σ α ε) : Prop :=
  match m with
  | .turn => x.stop = none → ∀ r, client x.answers (S.view x.state) = some r → fair r x.state
  | .env _ => True

/-- On fair requests `T` answers as `S` does. -/
structure Simulates (S : Service σ ρ α ε ν η) (T : Service τ ρ α ε ν η) (fair : ρ → σ → Prop)
    (Rel Left : σ → τ → Prop) : Prop where
  view : ∀ {s t}, Rel s t → T.view t = S.view s
  env : ∀ {s t} e, Rel s t → Rel (S.env e s) (T.env e t)
  left : ∀ {s t}, Rel s t → Left s t
  answer : ∀ {s t} r, Rel s t → fair r s → (T.exec r t).1 = (S.exec r s).1
  stopped : ∀ {s t} r, Rel s t → fair r s → Left (S.exec r s).2 (T.exec r t).2
  answered : ∀ {s t} r, Rel s t → fair r s → (S.exec r s).1 = .ok a →
    Rel (S.exec r s).2 (T.exec r t).2

structure Abreast (Rel Left : σ → τ → Prop) (x : Session σ α ε) (y : Session τ α ε) : Prop where
  answers : y.answers = x.answers
  stop : y.stop = x.stop
  left : Left x.state y.state
  running : x.stop = none → Rel x.state y.state

section
variable {S : Service σ ρ α ε ν η} {T : Service τ ρ α ε ν η} {fair : ρ → σ → Prop}
  {Rel Left : σ → τ → Prop} {client : Client ρ α ν} {x : Session σ α ε} {y : Session τ α ε}

theorem Simulates.turn (h : Simulates S T fair Rel Left) (hxy : Abreast Rel Left x y)
    (hx : x.stop = none)
    (hfair : ∀ r, client x.answers (S.view x.state) = some r → fair r x.state) :
    Abreast Rel Left (S.turn client x) (T.turn client y) := by
  have hrel := hxy.running hx
  unfold Service.turn
  rw [hxy.answers, h.view hrel]
  cases hr : client x.answers (S.view x.state) with
  | none => exact hxy
  | some r =>
    have hf := hfair r hr
    have hanswer := h.answer r hrel hf
    have hleft := h.stopped r hrel hf
    have hok := fun a => h.answered (a := a) r hrel hf
    dsimp only
    generalize S.exec r x.state = p at hanswer hleft hok ⊢
    generalize T.exec r y.state = q at hanswer hleft hok ⊢
    obtain ⟨r₁, s⟩ := p
    obtain ⟨r₂, t⟩ := q
    obtain rfl : r₂ = r₁ := hanswer
    cases r₂ with
    | ok a => exact ⟨rfl, rfl, hleft, fun _ => hok a rfl⟩
    | error e => exact ⟨rfl, rfl, hleft, fun hn => by cases hn⟩

theorem Simulates.move (h : Simulates S T fair Rel Left) (hxy : Abreast Rel Left x y)
    (m : Move η) (hfair : S.Asks fair client m x) :
    Abreast Rel Left (S.move client m x) (T.move client m y) := by
  cases hx : x.stop with
  | some e =>
    have hy : y.stop = some e := hxy.stop.trans hx
    simpa [Service.move, hx, hy] using hxy
  | none =>
    have hy : y.stop = none := hxy.stop.trans hx
    simp only [Service.move, hx, hy, Option.isSome_none, Bool.false_eq_true, if_false]
    cases m with
    | turn => exact h.turn hxy hx (hfair hx)
    | env e =>
      have hrel := h.env e (hxy.running hx)
      exact ⟨hxy.answers, rfl, h.left hrel, fun _ => hrel⟩

end

end Clients

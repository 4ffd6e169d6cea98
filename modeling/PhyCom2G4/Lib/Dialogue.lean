import Mathlib.Data.List.Basic

/-!
# Two parties that take turns

A `Server` hears what its client asks, and when it owes an answer gives one
before it hears more. Its answers go out on a stream of their own, and how an
answer is read off that stream may depend on where the server is. A
conversation is what the two say in the order in which they say it. The
client's words and the stream of the answers are enough to tell the whole of
it (`tell_eq_some`).
-/

namespace Dialogue

/-- A server in the states `σ`, that hears `μ` and answers `ν` on a stream of `β`. -/
structure Server (σ μ ν β : Type) where
  owes : σ → Bool
  recv : σ → μ → σ
  /-- Where an answer takes the server, if it may be given. -/
  answer : σ → ν → Option σ
  write : ν → List β
  read : σ → List β → Option (ν × List β)
  owes_of_answer : ∀ p a q, answer p a = some q → owes p = true
  write_pos : ∀ a, 0 < (write a).length
  read_eq_some : ∀ p s a rest,
    read p s = some (a, rest) ↔ s = write a ++ rest ∧ (answer p a).isSome = true

inductive Word (μ ν : Type)
  | ask (m : μ)
  | answer (a : ν)

def asks {μ ν : Type} (ws : List (Word μ ν)) : List μ :=
  ws.filterMap fun
    | .ask m => some m
    | .answer _ => none

def answers {μ ν : Type} (ws : List (Word μ ν)) : List ν :=
  ws.filterMap fun
    | .ask _ => none
    | .answer a => some a

section
variable {μ ν : Type}

@[simp] theorem asks_nil : asks ([] : List (Word μ ν)) = [] := rfl

@[simp] theorem asks_ask (m : μ) (ws : List (Word μ ν)) : asks (.ask m :: ws) = m :: asks ws := rfl

@[simp] theorem asks_answer (a : ν) (ws : List (Word μ ν)) :
    asks (.answer a :: ws) = asks ws := rfl

@[simp] theorem answers_nil : answers ([] : List (Word μ ν)) = [] := rfl

@[simp] theorem answers_ask (m : μ) (ws : List (Word μ ν)) :
    answers (.ask m :: ws) = answers ws := rfl

@[simp] theorem answers_answer (a : ν) (ws : List (Word μ ν)) :
    answers (.answer a :: ws) = a :: answers ws := rfl

@[simp] theorem asks_append (ws ws' : List (Word μ ν)) : asks (ws ++ ws') = asks ws ++ asks ws' :=
  List.filterMap_append

@[simp] theorem answers_append (ws ws' : List (Word μ ν)) :
    answers (ws ++ ws') = answers ws ++ answers ws' :=
  List.filterMap_append

@[simp] theorem asks_map_ask (ms : List μ) : asks (ms.map .ask : List (Word μ ν)) = ms := by
  induction ms with
  | nil => rfl
  | cons m ms ih => rw [List.map_cons, asks_ask, ih]

@[simp] theorem answers_map_ask (ms : List μ) : answers (ms.map .ask : List (Word μ ν)) = [] := by
  induction ms with
  | nil => rfl
  | cons m ms ih => rw [List.map_cons, answers_ask, ih]

end

namespace Server

variable {σ μ ν β : Type} (S : Server σ μ ν β)

def hear (p : σ) : Word μ ν → σ
  | .ask m => S.recv p m
  | .answer a => (S.answer p a).getD p

def after (p : σ) (ws : List (Word μ ν)) : σ := ws.foldl S.hear p

/-- The server speaks when it owes an answer, with one that it may give, and only
then; at the end it owes none. -/
def Orderly : σ → List (Word μ ν) → Prop
  | p, [] => S.owes p = false
  | p, .ask m :: ws => S.owes p = false ∧ Orderly (S.recv p m) ws
  | p, .answer a :: ws => ∃ q, S.answer p a = some q ∧ Orderly q ws

/-- The server's side of a conversation: to what it hears it answers as it owes it. -/
inductive Replies : σ → List μ → List ν → Prop
  | done (h : S.owes p = false) : Replies p [] []
  | hear (m : μ) (h : S.owes p = false) (hr : Replies (S.recv p m) ms as) : Replies p (m :: ms) as
  | answer (a : ν) (h : S.answer p a = some q) (hr : Replies q ms as) : Replies p ms (a :: as)

def stream (ws : List (Word μ ν)) : List β := (answers ws).flatMap S.write

@[simp] theorem stream_nil : S.stream [] = [] := rfl

@[simp] theorem stream_ask (m : μ) (ws : List (Word μ ν)) :
    S.stream (.ask m :: ws) = S.stream ws := rfl

@[simp] theorem stream_answer (a : ν) (ws : List (Word μ ν)) :
    S.stream (.answer a :: ws) = S.write a ++ S.stream ws := rfl

@[simp] theorem stream_append (ws ws' : List (Word μ ν)) :
    S.stream (ws ++ ws') = S.stream ws ++ S.stream ws' := by
  simp [stream]

theorem after_append (p : σ) (ws ws' : List (Word μ ν)) :
    S.after p (ws ++ ws') = S.after (S.after p ws) ws' :=
  List.foldl_append

theorem hear_answer {S : Server σ μ ν β} (h : S.answer p a = some q) :
    S.hear p (.answer a) = q := by
  simp [hear, h]

variable {S}

theorem Orderly.asks_of_not_owes (h : S.Orderly p ws) (hp : S.owes p = false) (hm : asks ws = []) :
    ws = [] := by
  cases ws with
  | nil => rfl
  | cons word ws =>
    cases word with
    | ask m => simp at hm
    | answer a =>
      obtain ⟨q, hq, -⟩ := h
      rw [S.owes_of_answer p a q hq] at hp
      cases hp

theorem Orderly.ask_first (h : S.Orderly p ws) (hp : S.owes p = false) (hm : asks ws = m :: ms) :
    ∃ ws', ws = .ask m :: ws' ∧ S.Orderly (S.recv p m) ws' ∧ asks ws' = ms := by
  cases ws with
  | nil => cases hm
  | cons word ws =>
    cases word with
    | ask m' =>
      obtain ⟨rfl, rfl⟩ := List.cons.inj hm
      exact ⟨ws, rfl, h.2, rfl⟩
    | answer a =>
      obtain ⟨q, hq, -⟩ := h
      rw [S.owes_of_answer p a q hq] at hp
      cases hp

theorem Orderly.answer_first (h : S.Orderly p ws) (hp : S.owes p = true) :
    ∃ a q ws', ws = .answer a :: ws' ∧ S.answer p a = some q ∧ S.Orderly q ws' := by
  cases ws with
  | nil =>
    have hno : S.owes p = false := h
    rw [hp] at hno
    cases hno
  | cons word ws =>
    cases word with
    | ask m =>
      have hno := h.1
      rw [hp] at hno
      cases hno
    | answer a =>
      obtain ⟨q, hq, hws⟩ := h
      exact ⟨a, q, ws, rfl, hq, hws⟩

theorem Orderly.answers_ne_nil (h : S.Orderly p ws) (hp : S.owes p = true) : answers ws ≠ [] := by
  obtain ⟨a, q, ws', rfl, -⟩ := h.answer_first hp
  simp

theorem Orderly.not_owes_after (h : S.Orderly p ws) : S.owes (S.after p ws) = false := by
  induction ws generalizing p with
  | nil => exact h
  | cons word ws ih =>
    cases word with
    | ask m => exact ih h.2
    | answer a =>
      obtain ⟨q, hq, hws⟩ := h
      have hhear : S.hear p (.answer a) = q := hear_answer hq
      rw [after, List.foldl_cons, hhear]
      exact ih hws

theorem Orderly.append (h : S.Orderly p ws) (h' : S.Orderly (S.after p ws) ws') :
    S.Orderly p (ws ++ ws') := by
  induction ws generalizing p with
  | nil => exact h'
  | cons word ws ih =>
    cases word with
    | ask m => exact ⟨h.1, ih h.2 h'⟩
    | answer a =>
      obtain ⟨q, hq, hws⟩ := h
      have hhear : S.hear p (.answer a) = q := hear_answer hq
      rw [after, List.foldl_cons, hhear] at h'
      exact ⟨q, hq, ih hws h'⟩

/-- What the client says and what the server replies to it make a conversation. -/
theorem replies_iff :
    S.Replies p ms as ↔ ∃ ws, S.Orderly p ws ∧ asks ws = ms ∧ answers ws = as := by
  constructor
  · intro h
    induction h with
    | done h => exact ⟨[], h, rfl, rfl⟩
    | hear m h _ ih =>
      obtain ⟨ws, hord, rfl, rfl⟩ := ih
      exact ⟨.ask m :: ws, ⟨h, hord⟩, rfl, rfl⟩
    | answer a h _ ih =>
      obtain ⟨ws, hord, rfl, rfl⟩ := ih
      exact ⟨.answer a :: ws, ⟨_, h, hord⟩, rfl, rfl⟩
  · rintro ⟨ws, hord, rfl, rfl⟩
    induction ws generalizing p with
    | nil => exact .done hord
    | cons word ws ih =>
      cases word with
      | ask m => exact .hear m hord.1 (ih hord.2)
      | answer a =>
        obtain ⟨q, hq, hws⟩ := hord
        exact .answer a hq (ih hws)

-- ---------------------------------------------------------------------------
-- Telling a conversation from what was said on either side
-- ---------------------------------------------------------------------------

/-- Puts a conversation together from what the client asked and the stream of the
answers. Each word takes something off one of the two, so that their lengths are
fuel enough. -/
def tellFuel (S : Server σ μ ν β) : Nat → σ → List μ → List β → Option (List (Word μ ν))
  | 0, _, _, _ => none
  | fuel + 1, p, ms, s =>
    if S.owes p then do
      let (a, s) ← S.read p s
      let q ← S.answer p a
      let ws ← tellFuel S fuel q ms s
      return .answer a :: ws
    else match ms, s with
      | m :: ms, s => (tellFuel S fuel (S.recv p m) ms s).map (.ask m :: ·)
      | [], [] => some []
      | [], _ :: _ => none

def tell (S : Server σ μ ν β) (p : σ) (ms : List μ) (s : List β) : Option (List (Word μ ν)) :=
  S.tellFuel (ms.length + s.length + 1) p ms s

theorem orderly_of_tell {fuel : Nat} (h : S.tellFuel fuel p ms s = some ws) :
    S.Orderly p ws ∧ asks ws = ms ∧ S.stream ws = s := by
  induction fuel generalizing p ms s ws with
  | zero => cases h
  | succ fuel ih =>
    unfold tellFuel at h
    split at h
    next howes =>
      simp only [Option.bind_eq_bind, Option.bind_eq_some_iff, Option.pure_def,
        Option.some.injEq] at h
      obtain ⟨⟨a, s'⟩, hread, q, hq, ws', htell, rfl⟩ := h
      obtain ⟨rfl, -⟩ := (S.read_eq_some p s a s').mp hread
      obtain ⟨hord, rfl, rfl⟩ := ih htell
      exact ⟨⟨q, hq, hord⟩, rfl, rfl⟩
    next howes =>
      rw [Bool.not_eq_true] at howes
      split at h
      next m ms s =>
        obtain ⟨ws', htell, rfl⟩ := Option.map_eq_some_iff.mp h
        obtain ⟨hord, rfl, rfl⟩ := ih htell
        exact ⟨⟨howes, hord⟩, rfl, rfl⟩
      next =>
        obtain rfl := Option.some.inj h
        exact ⟨howes, rfl, rfl⟩
      next => cases h

theorem tell_of_orderly (h : S.Orderly p ws) {fuel : Nat}
    (hf : (asks ws).length + (S.stream ws).length < fuel) :
    S.tellFuel fuel p (asks ws) (S.stream ws) = some ws := by
  induction ws generalizing p fuel with
  | nil =>
    obtain ⟨k, rfl⟩ : ∃ k, fuel = k + 1 := ⟨fuel - 1, by omega⟩
    have hno : S.owes p = false := h
    simp [tellFuel, hno]
  | cons word ws ih =>
    obtain ⟨k, rfl⟩ : ∃ k, fuel = k + 1 := ⟨fuel - 1, by omega⟩
    cases word with
    | ask m =>
      rw [asks_ask, stream_ask, List.length_cons] at hf
      have htell : S.tellFuel k (S.recv p m) (asks ws) (S.stream ws) = some ws :=
        ih h.2 (by omega)
      simp [tellFuel, h.1, htell]
    | answer a =>
      obtain ⟨q, hq, hord⟩ := h
      have hpos := S.write_pos a
      rw [asks_answer, stream_answer, List.length_append] at hf
      have hread := (S.read_eq_some p (S.write a ++ S.stream ws) a _).mpr ⟨rfl, by rw [hq]; rfl⟩
      have htell : S.tellFuel k q (asks ws) (S.stream ws) = some ws := ih hord (by omega)
      simp [tellFuel, S.owes_of_answer p a q hq, hread, hq, htell]

theorem tell_eq_some :
    S.tell p ms s = some ws ↔ S.Orderly p ws ∧ asks ws = ms ∧ S.stream ws = s := by
  constructor
  · exact orderly_of_tell
  · rintro ⟨hord, rfl, rfl⟩
    exact tell_of_orderly hord (Nat.lt_succ_self _)

end Server

end Dialogue

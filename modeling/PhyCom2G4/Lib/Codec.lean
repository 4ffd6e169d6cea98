import PhyCom2G4.Lib.Bytes

/-!
# Streams of self-delimiting messages

A `Codec` writes each message as bytes from which the message, and where it
ends, can be read back. Then the concatenation of any number of messages
reads back as exactly those messages (`readAll_writeAll`).
-/

namespace Wire

open Bytes

def pick (α : Type) [Packed α] (s : List Byte) : Option (α × List Byte) :=
  (split (sizeof α) s).map fun r => (parse r.1, r.2)

@[simp] theorem pick_bytes [Packed α] (a : α) (rest : List Byte) :
    pick α (bytes a ++ rest) = some (a, rest) := by
  simp [pick]

theorem pick_eq_some [Packed α] {a : α} : pick α s = some (a, rest) ↔ s = bytes a ++ rest := by
  constructor
  · intro h
    obtain ⟨⟨bs, s'⟩, hs, hr⟩ := Option.map_eq_some_iff.mp h
    obtain ⟨a', rfl, rfl⟩ := split_sizeof (α := α) hs
    rw [parse_bytes] at hr
    obtain ⟨rfl, rfl⟩ := Prod.mk.inj hr
    rfl
  · rintro rfl
    exact pick_bytes a rest

-- ---------------------------------------------------------------------------
-- Messages told apart by a header
-- ---------------------------------------------------------------------------

def readOne {μ α : Type} [Packed α] (msg : α → μ) (s : List Byte) : Option (μ × List Byte) :=
  (pick α s).map fun r => (msg r.1, r.2)

def readMany {μ α β : Type} [Packed α] [Packed β] (n : α → Nat)
    (msg : (a : α) → List.Vector β (n a) → μ) (s : List Byte) : Option (μ × List Byte) := do
  let (a, s) ← pick α s
  let (v, s) ← pick (List.Vector β (n a)) s
  return (msg a v, s)

/-- What is read after the header `h` is the rest of a message of which `P` holds. -/
def Spelt [Packed η] (write : μ → List Byte) (P : μ → Prop) (h : η) (s : List Byte)
    (o : Option (μ × List Byte)) : Prop :=
  ∀ m rest, o = some (m, rest) → bytes h ++ s = write m ++ rest ∧ P m

section
variable {μ η α β : Type} [Packed η] [Packed α] [Packed β] {write : μ → List Byte}
  {P : μ → Prop} {h x : η} {o o' : Option (μ × List Byte)}

@[simp] theorem readOne_bytes (msg : α → μ) (a : α) (rest : List Byte) :
    readOne msg (bytes a ++ rest) = some (msg a, rest) := by
  simp [readOne]

@[simp] theorem readMany_bytes (n : α → Nat) (msg : (a : α) → List.Vector β (n a) → μ) (a : α)
    (v : List.Vector β (n a)) (rest : List Byte) :
    readMany n msg (bytes a ++ (bytes v ++ rest)) = some (msg a v, rest) := by
  simp [readMany]

theorem spelt_none : Spelt write P h s none := fun m rest hm => by cases hm

theorem spelt_some (hw : write m = bytes h) (hP : P m) : Spelt write P h s (some (m, s)) := by
  rintro m' rest hm
  obtain ⟨rfl, rfl⟩ := Prod.mk.inj (Option.some.inj hm)
  exact ⟨by rw [hw], hP⟩

theorem Spelt.ite [DecidableEq η] (hx : Spelt write P x s o) (hh : Spelt write P h s o') :
    Spelt write P h s (if h = x then o else o') := by
  split
  next he => rwa [he]
  next => exact hh

theorem spelt_readOne {msg : α → μ} (hw : ∀ a, write (msg a) = bytes h ++ bytes a)
    (hP : ∀ a, P (msg a)) : Spelt write P h s (readOne msg s) := by
  intro m rest hm
  obtain ⟨⟨a, s'⟩, hpick, hm⟩ := Option.map_eq_some_iff.mp hm
  obtain ⟨rfl, rfl⟩ := Prod.mk.inj hm
  obtain rfl := pick_eq_some.mp hpick
  exact ⟨by rw [hw, List.append_assoc], hP a⟩

theorem spelt_readMany {n : α → Nat} {msg : (a : α) → List.Vector β (n a) → μ}
    (hw : ∀ a v, write (msg a v) = bytes h ++ (bytes a ++ bytes v)) (hP : ∀ a v, P (msg a v)) :
    Spelt write P h s (readMany n msg s) := by
  intro m rest hm
  obtain ⟨⟨a, s'⟩, hpick, hm⟩ := Option.bind_eq_some_iff.mp hm
  obtain ⟨⟨v, s''⟩, hpick', hm⟩ := Option.bind_eq_some_iff.mp hm
  obtain ⟨rfl, rfl⟩ := Prod.mk.inj (Option.some.inj hm)
  obtain rfl := pick_eq_some.mp hpick
  obtain rfl := pick_eq_some.mp hpick'
  exact ⟨by rw [hw, List.append_assoc, List.append_assoc], hP a v⟩

end

-- ---------------------------------------------------------------------------
-- Streams
-- ---------------------------------------------------------------------------

structure Codec (α : Type) where
  write : α → List Byte
  read : List Byte → Option (α × List Byte)
  read_write (a : α) (rest : List Byte) : read (write a ++ rest) = some (a, rest)
  write_pos (a : α) : 0 < (write a).length

namespace Codec

variable {α : Type} (c : Codec α)

def writeAll (as : List α) : List Byte := as.flatMap c.write

/-- Reads messages until the stream is empty. The fuel only has to reach the
stream's length, since no message is empty. -/
def readFuel : Nat → List Byte → Option (List α)
  | _, [] => some []
  | 0, _ => none
  | fuel + 1, s => do
    let (a, rest) ← c.read s
    let as ← readFuel fuel rest
    return a :: as

def readAll (s : List Byte) : Option (List α) := c.readFuel s.length s

@[simp] theorem writeAll_nil : c.writeAll [] = [] := rfl

@[simp] theorem writeAll_cons (a : α) (as : List α) :
    c.writeAll (a :: as) = c.write a ++ c.writeAll as := rfl

@[simp] theorem writeAll_append (as bs : List α) :
    c.writeAll (as ++ bs) = c.writeAll as ++ c.writeAll bs := by
  simp [writeAll]

theorem readFuel_writeAll (as : List α) (fuel : Nat) (h : (c.writeAll as).length ≤ fuel) :
    c.readFuel fuel (c.writeAll as) = some as := by
  induction as generalizing fuel with
  | nil => cases fuel <;> rfl
  | cons a as ih =>
    have hp := c.write_pos a
    simp only [writeAll_cons, List.length_append] at h
    obtain ⟨fuel, rfl⟩ : ∃ k, fuel = k + 1 := ⟨fuel - 1, by omega⟩
    obtain ⟨b, bs, hb⟩ : ∃ b bs, c.write a = b :: bs := List.exists_cons_of_length_pos hp
    have hr := c.read_write a (c.writeAll as)
    rw [writeAll_cons, hb, List.cons_append, readFuel]
    · rw [← List.cons_append, ← hb, hr]
      simp [ih fuel (by omega)]
    · simp

theorem readAll_writeAll (as : List α) : c.readAll (c.writeAll as) = some as :=
  c.readFuel_writeAll as _ (Nat.le_refl _)

def Exact : Prop := ∀ s a rest, c.read s = some (a, rest) → s = c.write a ++ rest

variable {c}

theorem writeAll_of_readFuel (h : c.Exact) (fuel : Nat) (hr : c.readFuel fuel s = some as) :
    s = c.writeAll as := by
  induction fuel generalizing s as with
  | zero =>
    cases s with
    | nil =>
      obtain rfl := Option.some.inj hr
      rfl
    | cons b s => cases hr
  | succ fuel ih =>
    cases s with
    | nil =>
      obtain rfl := Option.some.inj hr
      rfl
    | cons b s =>
      obtain ⟨⟨a, rest⟩, hread, hr⟩ := Option.bind_eq_some_iff.mp hr
      obtain ⟨as, hall, hr⟩ := Option.bind_eq_some_iff.mp hr
      obtain rfl := Option.some.inj hr
      rw [h _ a rest hread, ih hall, writeAll_cons]

/-- A stream reads as some messages just when it is their bytes. -/
theorem readAll_eq_some (h : c.Exact) : c.readAll s = some as ↔ s = c.writeAll as :=
  ⟨writeAll_of_readFuel h _, fun hs => hs ▸ c.readAll_writeAll as⟩

end Codec

end Wire

import Mathlib.Algebra.Ring.Nat
import Mathlib.Data.Vector.Defs

/-!
# Packed layouts

`leBytes` writes a number on a fixed count of bytes, least significant first,
and `leNat` reads it back. A `Packed` type is laid out on a fixed count of
bytes with no padding, so that its values and the byte strings of that length
are the same thing; the layouts of machine integers, pairs and structures
built from them are instances.
-/

namespace Bytes

abbrev Byte := UInt8

def leBytes : Nat → Nat → List Byte
  | 0, _ => []
  | n + 1, x => UInt8.ofNat x :: leBytes n (x / 256)

def leNat : List Byte → Nat
  | [] => 0
  | b :: bs => b.toNat + 256 * leNat bs

@[simp] theorem length_leBytes (n x : Nat) : (leBytes n x).length = n := by
  induction n generalizing x with
  | zero => rfl
  | succ n ih => simp [leBytes, ih]

theorem leNat_lt (bs : List Byte) : leNat bs < 256 ^ bs.length := by
  induction bs with
  | nil => simp [leNat]
  | cons b bs ih =>
    have hb := b.toNat_lt
    simp only [leNat, List.length_cons, Nat.pow_succ]
    omega

theorem leNat_leBytes (n x : Nat) (hx : x < 256 ^ n) : leNat (leBytes n x) = x := by
  induction n generalizing x with
  | zero => simp at hx; simp [leBytes, leNat, hx]
  | succ n ih =>
    have hq : x / 256 < 256 ^ n := Nat.div_lt_of_lt_mul (by rw [Nat.mul_comm]; exact hx)
    simp only [leBytes, leNat, ih _ hq, UInt8.toNat_ofNat']
    omega

theorem leBytes_leNat (bs : List Byte) : leBytes bs.length (leNat bs) = bs := by
  induction bs with
  | nil => rfl
  | cons b bs ih =>
    have hb := b.toNat_lt
    have hd : (b.toNat + 256 * leNat bs) / 256 = leNat bs := by omega
    have hm : UInt8.ofNat (b.toNat + 256 * leNat bs) = b := by
      apply UInt8.toNat_inj.mp
      rw [UInt8.toNat_ofNat']
      omega
    simp [leBytes, leNat, hd, hm, ih]

-- ---------------------------------------------------------------------------
-- Splitting a stream
-- ---------------------------------------------------------------------------

/-- The first `n` bytes of a stream and what follows them, if there are `n`. -/
def split (n : Nat) (s : List Byte) : Option (List Byte × List Byte) :=
  if n ≤ s.length then some (s.take n, s.drop n) else none

theorem split_eq_some : split n s = some (bs, rest) ↔ s = bs ++ rest ∧ bs.length = n := by
  unfold split
  constructor
  · intro h
    split at h
    next hn =>
      simp only [Option.some.injEq, Prod.mk.injEq] at h
      obtain ⟨rfl, rfl⟩ := h
      exact ⟨(List.take_append_drop n s).symm, by simp [hn]⟩
    next => simp at h
  · rintro ⟨rfl, rfl⟩
    simp

theorem split_eq_none : split n s = none ↔ s.length < n := by
  unfold split
  split <;> simp <;> omega

theorem split_append (h : bs.length = n) : split n (bs ++ rest) = some (bs, rest) :=
  split_eq_some.mpr ⟨rfl, h⟩

theorem split_more (h : split n s = some (bs, rest)) (t : List Byte) :
    split n (s ++ t) = some (bs, rest ++ t) := by
  obtain ⟨rfl, hl⟩ := split_eq_some.mp h
  rw [List.append_assoc]
  exact split_append hl

@[simp] theorem split_zero (s : List Byte) : split 0 s = some ([], s) := by simp [split]

-- ---------------------------------------------------------------------------
-- Packed types
-- ---------------------------------------------------------------------------

/-- Values laid out on exactly `sizeof` bytes, every such byte string being
one value. `parse` reads a value off the front of a string. -/
class Packed (α : Type) where
  sizeof : Nat
  bytes : α → List Byte
  parse : List Byte → α
  length_bytes (a : α) : (bytes a).length = sizeof
  parse_bytes (a : α) (rest : List Byte) : parse (bytes a ++ rest) = a
  bytes_parse (s : List Byte) (h : sizeof ≤ s.length) : bytes (parse s) = s.take sizeof

export Packed (sizeof bytes parse)

section
variable {α β : Type} [Packed α] [Packed β]

@[simp] theorem length_bytes (a : α) : (bytes a).length = sizeof α := Packed.length_bytes a

@[simp] theorem parse_bytes_append (a : α) (rest : List Byte) : parse (bytes a ++ rest) = a :=
  Packed.parse_bytes a rest

@[simp] theorem parse_bytes (a : α) : (parse (bytes a) : α) = a := by
  simpa using Packed.parse_bytes a []

theorem bytes_parse (h : s.length = sizeof α) : bytes (parse s : α) = s := by
  rw [Packed.bytes_parse s (by omega), List.take_of_length_le (by omega)]

@[simp] theorem split_bytes (a : α) (rest : List Byte) :
    split (sizeof α) (bytes a ++ rest) = some (bytes a, rest) :=
  split_append (length_bytes a)

theorem split_sizeof (h : split (sizeof α) s = some (bs, rest)) :
    ∃ a : α, bs = bytes a ∧ s = bytes a ++ rest := by
  obtain ⟨rfl, hl⟩ := split_eq_some.mp h
  exact ⟨parse bs, (bytes_parse hl).symm, by rw [bytes_parse hl]⟩

@[reducible] def Packed.ofNat (n : Nat) (toNat : α → Nat) (ofNat : Nat → α)
    (hof : ∀ a, ofNat (toNat a) = a) (hlt : ∀ a, toNat a < 256 ^ n)
    (hto : ∀ x, x < 256 ^ n → toNat (ofNat x) = x) : Packed α where
  sizeof := n
  bytes a := leBytes n (toNat a)
  parse s := ofNat (leNat (s.take n))
  length_bytes a := length_leBytes n _
  parse_bytes a rest := by
    rw [List.take_left' (length_leBytes n _), leNat_leBytes n _ (hlt a), hof]
  bytes_parse s h := by
    have hl : (s.take n).length = n := by simp [h]
    have hb := leNat_lt (s.take n)
    have he := leBytes_leNat (s.take n)
    rw [hl] at hb he
    rw [hto _ hb, he]

instance : Packed UInt8 :=
  .ofNat 1 UInt8.toNat UInt8.ofNat (by simp) (fun a => a.toNat_lt)
    (fun x hx => UInt8.toNat_ofNat_of_lt' hx)

instance : Packed UInt16 :=
  .ofNat 2 UInt16.toNat UInt16.ofNat (by simp) (fun a => a.toNat_lt)
    (fun x hx => UInt16.toNat_ofNat_of_lt' hx)

instance : Packed UInt32 :=
  .ofNat 4 UInt32.toNat UInt32.ofNat (by simp) (fun a => a.toNat_lt)
    (fun x hx => UInt32.toNat_ofNat_of_lt' hx)

instance : Packed UInt64 :=
  .ofNat 8 UInt64.toNat UInt64.ofNat (by simp) (fun a => a.toNat_lt)
    (fun x hx => UInt64.toNat_ofNat_of_lt' hx)

@[reducible] def Packed.map (enc : β → α) (dec : α → β) (hdec : ∀ b, dec (enc b) = b)
    (henc : ∀ a, enc (dec a) = a) : Packed β where
  sizeof := sizeof α
  bytes b := bytes (enc b)
  parse s := dec (parse s)
  length_bytes b := length_bytes (enc b)
  parse_bytes b rest := by rw [parse_bytes_append, hdec]
  bytes_parse s h := by rw [henc, Packed.bytes_parse s h]

instance : Packed Int16 :=
  .map Int16.toUInt16 UInt16.toInt16 (by simp) (by simp)

instance : Packed Int32 :=
  .map Int32.toUInt32 UInt32.toInt32 (by simp) (by simp)

instance : Packed (α × β) where
  sizeof := sizeof α + sizeof β
  bytes p := bytes p.1 ++ bytes p.2
  parse s := (parse s, parse (s.drop (sizeof α)))
  length_bytes p := by simp
  parse_bytes p rest := by
    rw [List.append_assoc, parse_bytes_append, List.drop_left' (length_bytes p.1),
      parse_bytes_append]
  bytes_parse s h := by
    rw [Packed.bytes_parse s (by omega), Packed.bytes_parse _ (by simp; omega)]
    exact List.take_add.symm

def parseMany (α : Type) [Packed α] : Nat → List Byte → List α
  | 0, _ => []
  | n + 1, s => parse s :: parseMany α n (s.drop (sizeof α))

theorem length_parseMany (n : Nat) (s : List Byte) : (parseMany α n s).length = n := by
  induction n generalizing s with
  | zero => rfl
  | succ n ih => simp [parseMany, ih]

theorem length_flatMap_bytes (as : List α) : (as.flatMap bytes).length = as.length * sizeof α := by
  induction as with
  | nil => simp
  | cons a as ih => simp [ih, Nat.add_mul, Nat.add_comm]

theorem parseMany_flatMap_bytes (as : List α) (rest : List Byte) :
    parseMany α as.length (as.flatMap bytes ++ rest) = as := by
  induction as with
  | nil => rfl
  | cons a as ih =>
    simp only [List.flatMap_cons, List.append_assoc, List.length_cons, parseMany,
      parse_bytes_append, List.drop_left' (length_bytes a), ih]

theorem flatMap_bytes_parseMany (n : Nat) (s : List Byte) (h : n * sizeof α ≤ s.length) :
    (parseMany α n s).flatMap bytes = s.take (n * sizeof α) := by
  induction n generalizing s with
  | zero => simp [parseMany]
  | succ n ih =>
    rw [Nat.succ_mul] at h
    rw [parseMany, List.flatMap_cons, Packed.bytes_parse s (by omega), ih _ (by simp; omega),
      Nat.succ_mul, Nat.add_comm, List.take_add]

instance : Packed (List.Vector α n) where
  sizeof := n * sizeof α
  bytes v := v.val.flatMap bytes
  parse s := ⟨parseMany α n s, length_parseMany n s⟩
  length_bytes v := by rw [length_flatMap_bytes, v.property]
  parse_bytes v rest := by
    obtain ⟨as, rfl⟩ := v
    exact Subtype.ext (parseMany_flatMap_bytes as rest)
  bytes_parse s h := flatMap_bytes_parseMany n s h

end

end Bytes

import PhyCom2G4.Lib.Bytes

/-!
# Byte-addressed memory

One flat memory, a byte for every address: `load` reads a range, `store`
overwrites one and leaves every other byte alone. Two ranges may overlap;
nothing here assumes that they do not.
-/

namespace Memory

open Bytes

abbrev Addr := Nat

abbrev Mem := Addr → Byte

def load (m : Mem) (p : Addr) (n : Nat) : List Byte := (List.range n).map fun i => m (p + i)

def store (m : Mem) (p : Addr) (bs : List Byte) : Mem := fun a =>
  if p ≤ a then (bs[a - p]?).getD (m a) else m a

def InRange (p n a : Nat) : Prop := p ≤ a ∧ a < p + n

@[simp] theorem length_load (m : Mem) (p : Addr) (n : Nat) : (load m p n).length = n := by
  simp [load]

theorem load_store (m : Mem) (p : Addr) (bs : List Byte) (h : bs.length = n) :
    load (store m p bs) p n = bs := by
  subst h
  apply List.ext_getElem (by simp)
  intro i _ hi
  simp only [load, store, List.getElem_map, List.getElem_range]
  rw [if_pos (Nat.le_add_right p i), Nat.add_sub_cancel_left, List.getElem?_eq_getElem hi]
  rfl

theorem store_outside (m : Mem) (p : Addr) (bs : List Byte) (h : ¬ InRange p bs.length a) :
    store m p bs a = m a := by
  unfold store
  split
  next hp =>
    have hl : bs.length ≤ a - p :=
      Nat.le_of_not_lt fun hc => h ⟨hp, (Nat.sub_lt_iff_lt_add' hp).mp hc⟩
    rw [List.getElem?_eq_none hl]; rfl
  next => rfl

theorem store_comm (m : Mem) (h : ∀ a, InRange p bs.length a → ¬ InRange q cs.length a) :
    store (store m p bs) q cs = store (store m q cs) p bs := by
  funext a
  by_cases hp : InRange p bs.length a
  · rw [store_outside _ _ _ (h a hp)]
    simp only [store, hp.1, if_true]
    rw [List.getElem?_eq_getElem (Nat.sub_lt_left_of_lt_add hp.1 hp.2)]
    rfl
  · rw [store_outside _ _ _ hp]
    have hout : store m p bs a = m a := store_outside _ _ _ hp
    simp only [store] at hout ⊢
    rw [hout]

@[simp] theorem store_nil (m : Mem) (p : Addr) : store m p [] = m := by
  funext a
  exact store_outside m p [] (by simp [InRange])

theorem load_congr {m m' : Mem} (h : ∀ a, InRange p n a → m' a = m a) :
    load m' p n = load m p n := by
  apply List.map_congr_left
  intro i hi
  exact h _ ⟨Nat.le_add_right p i, Nat.add_lt_add_left (List.mem_range.mp hi) p⟩

def Within (p n : Nat) (m m' : Mem) : Prop := ∀ a, ¬ InRange p n a → m' a = m a

theorem Within.refl (p n : Nat) (m : Mem) : Within p n m m := fun _ _ => rfl

theorem Within.trans (h : Within p n m₁ m₂) (h' : Within p n m₂ m₃) : Within p n m₁ m₃ :=
  fun a ha => (h' a ha).trans (h a ha)

theorem within_store (m : Mem) (p : Addr) (h : bs.length ≤ n) : Within p n m (store m p bs) :=
  fun _ ha => store_outside m p bs fun hin => ha ⟨hin.1, Nat.lt_of_lt_of_le hin.2 (by omega)⟩

theorem Within.store (h : Within p n m m') (q : Addr) (bs : List Byte) :
    Within p n (store m q bs) (store m' q bs) := by
  intro a ha
  simp only [Memory.store, h a ha]

theorem Within.load (h : Within p n m m') (hq : ∀ a, InRange q k a → ¬ InRange p n a) :
    load m' q k = load m q k :=
  load_congr fun a ha => h a (hq a ha)

end Memory

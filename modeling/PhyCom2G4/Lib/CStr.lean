import PhyCom2G4.Lib.Bytes

/-!
# Strings of C

A pointer into a buffer is the bytes from it to the buffer's end. A string
goes up to its first NUL, which `cstr` puts behind bytes that are not NUL; a
comparison that reads on to the end of the buffer fails.
-/

namespace CStr

open Bytes

def ascii (s : String) : List Byte := s.toList.map fun c => UInt8.ofNat c.toNat

structure Text where
  chars : List Byte
  noNul : 0 ∉ chars

def cstr (s : List Byte) (after : List Byte) : List Byte := s ++ 0 :: after

/-- `strncmp`, or `none` where it would read past a buffer. -/
def strncmp : List Byte → List Byte → Nat → Option Int
  | _, _, 0 => some 0
  | a :: s, b :: t, n + 1 =>
    if a ≠ b then some ((a.toNat : Int) - b.toNat)
    else if a = 0 then some 0
    else strncmp s t n
  | _, _, _ => none

def strcmp : List Byte → List Byte → Option Int
  | a :: s, b :: t =>
    if a ≠ b then some ((a.toNat : Int) - b.toNat)
    else if a = 0 then some 0
    else strcmp s t
  | _, _ => none

variable {s word after : List Byte}

theorem differ {a b : Byte} (h : a ≠ b) : (a.toNat : Int) - b.toNat ≠ 0 := by
  intro he
  exact h (UInt8.toNat_inj.mp (by omega))

/-- Compared on a word's length, a string equals the word just when it begins
with it. -/
theorem strncmp_cstr (hs : 0 ∉ s) (hw : 0 ∉ word) (after : List Byte) :
    ∃ r, strncmp (cstr s after) (cstr word []) word.length = some r ∧ (r = 0 ↔ word <+: s) := by
  induction word generalizing s with
  | nil => exact ⟨0, by cases s <;> rfl, by simp⟩
  | cons b word ih =>
    simp only [List.mem_cons, not_or] at hw
    cases s with
    | nil => exact ⟨_, if_pos hw.1, iff_of_false (differ hw.1) (by simp)⟩
    | cons a s =>
      simp only [List.mem_cons, not_or] at hs
      by_cases hab : a = b
      · subst hab
        obtain ⟨r, hr, hiff⟩ := ih hs.2 hw.2
        refine ⟨r, ?_, by simpa using hiff⟩
        simp only [cstr, List.cons_append, List.length_cons, strncmp, ne_eq, not_true_eq_false,
          if_false, if_neg (Ne.symm hw.1)]
        exact hr
      · refine ⟨_, if_pos hab, iff_of_false (differ hab) fun hp => hab ?_⟩
        exact (List.cons_prefix_cons.mp hp).1.symm

theorem strcmp_cstr (hs : 0 ∉ s) (hw : 0 ∉ word) (after : List Byte) :
    ∃ r, strcmp (cstr s after) (cstr word []) = some r ∧ (r = 0 ↔ s = word) := by
  induction word generalizing s with
  | nil =>
    cases s with
    | nil => exact ⟨0, rfl, by simp⟩
    | cons a s =>
      simp only [List.mem_cons, not_or] at hs
      exact ⟨_, if_pos (Ne.symm hs.1), iff_of_false (differ (Ne.symm hs.1)) (by simp)⟩
  | cons b word ih =>
    simp only [List.mem_cons, not_or] at hw
    cases s with
    | nil => exact ⟨_, if_pos hw.1, iff_of_false (differ hw.1) (by simp)⟩
    | cons a s =>
      simp only [List.mem_cons, not_or] at hs
      by_cases hab : a = b
      · subst hab
        obtain ⟨r, hr, hiff⟩ := ih hs.2 hw.2
        refine ⟨r, ?_, by simpa using hiff⟩
        simp only [cstr, List.cons_append, strcmp, ne_eq, not_true_eq_false, if_false,
          if_neg (Ne.symm hw.1)]
        exact hr
      · refine ⟨_, if_pos hab, iff_of_false (differ hab) fun he => hab ?_⟩
        exact (List.cons.inj he).1

end CStr

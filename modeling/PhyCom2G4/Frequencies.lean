import Mathlib.Tactic.NormNum
import PhyCom2G4.Utils

/-!
# Frequencies and MHz

`p2G4_freq_from_d` finds out by its size which unit a number is in, and where
it counts from. Every notation of a frequency near the band comes to the same
offset from 2400 MHz (`freqOffset_notations`), and what is cast is never more
than the type has (`freqFromD_notations`). The offset is rounded the wrong way
below 2400 MHz (`freqFromD_inverts_iff`), and the v2.1 format, which counts
from 0 MHz, is not (`freq2_commutes`).
-/

namespace PhyCom2G4

open Fixed

section
variable {x F : ℚ} {p : Int32} {result r : Freq}

-- ---------------------------------------------------------------------------
-- The offset a number stands for
-- ---------------------------------------------------------------------------

theorem freqToMHz_mhz (h : x ≤ 2528) : freqToMHz x = x := by
  rw [freqToMHz, if_neg (by norm_num; linarith), if_neg (by norm_num; linarith)]

theorem freqToMHz_khz (h : 2272 ≤ F) (h' : F ≤ 2528) : freqToMHz (1000 * F) = F := by
  rw [freqToMHz, if_neg (by norm_num; linarith), if_pos (by norm_num; linarith)]
  norm_num

theorem freqToMHz_hz (h : 2272 ≤ F) : freqToMHz (1000000 * F) = F := by
  rw [freqToMHz, if_pos (by norm_num; linarith)]
  norm_num

theorem freqOffset_near (hx : freqToMHz x = F) (h : 2272 ≤ F) (h' : F ≤ 2528) :
    freqOffset x = F - 2400 := by
  unfold freqOffset
  rw [hx, if_pos]
  constructor <;> linarith

theorem freqOffset_offset (h : x < 2272) : freqOffset x = x := by
  unfold freqOffset
  rw [freqToMHz_mhz (by linarith), if_neg]
  rintro ⟨hge, -⟩
  linarith

theorem freqOffset_notations (h : 2273 < F) (h' : F < 2527) :
    ∀ x ∈ [F, 1000 * F, 1000000 * F, F - 2400], freqOffset x = F - 2400 := by
  simp only [List.forall_mem_cons, List.not_mem_nil, false_implies, implies_true, and_true]
  have hlo : 2272 ≤ F := by linarith
  have hhi : F ≤ 2528 := by linarith
  exact ⟨freqOffset_near (freqToMHz_mhz hhi) hlo hhi,
    freqOffset_near (freqToMHz_khz hlo hhi) hlo hhi,
    freqOffset_near (freqToMHz_hz hlo) hlo hhi, freqOffset_offset (by linarith)⟩

-- ---------------------------------------------------------------------------
-- The cast
-- ---------------------------------------------------------------------------

theorem nearest_offset_mem (h : -127 < x) (h' : x < 127) :
    -32512 ≤ nearest (256 * x) ∧ nearest (256 * x) ≤ 32512 := by
  constructor
  · have hmono : nearest ((-32513 : ℤ) : ℚ) ≤ nearest (256 * x) :=
      nearest_mono (by push_cast; linarith)
    rwa [nearest_intCast_of_neg (by decide)] at hmono
  · have hmono : nearest (256 * x) ≤ nearest ((32512 : ℤ) : ℚ) :=
      nearest_mono (by push_cast; linarith)
    rwa [nearest_intCast (by decide)] at hmono

theorem toInt_ofInt_nearest (h : -127 < x) (h' : x < 127) :
    (Int16.ofInt (nearest (256 * x))).toInt = nearest (256 * x) := by
  obtain ⟨hlo, hhi⟩ := nearest_offset_mem h h'
  exact Int16.toInt_ofInt_of_le (by omega) (by omega)

theorem freqFromD_eq (x : ℚ) (p : Int32) (result : Freq) :
    freqFromD x p result =
      if freqOffset x ≥ 127 ∨ freqOffset x ≤ -127 then
        .error (.error freqTooFar)
      else if p = 1 ∧ (freqOffset x > 80 ∨ freqOffset x < 0) then .ok (-1, result)
      else .ok (0, Int16.ofInt (nearest (256 * freqOffset x))) := by
  have hscale : freqOffset x * (1 <<< freqFracb : Nat) = 256 * freqOffset x := by
    rw [mul_comm]
    rfl
  unfold freqFromD
  dsimp only
  rw [hscale]
  rfl

theorem freqFromD_ok (h : -127 < freqOffset x) (h' : freqOffset x < 127)
    (hp : ¬ (p = 1 ∧ (freqOffset x > 80 ∨ freqOffset x < 0))) (result : Freq) :
    freqFromD x p result = .ok (0, Int16.ofInt (nearest (256 * freqOffset x))) := by
  rw [freqFromD_eq, if_neg, if_neg hp]
  rintro (hge | hle) <;> linarith

theorem ok_of_freqFromD (h : freqFromD x p result = .ok (0, r)) :
    -127 < freqOffset x ∧ freqOffset x < 127 ∧
      r = Int16.ofInt (nearest (256 * freqOffset x)) := by
  rw [freqFromD_eq] at h
  split at h
  next => cases h
  next hfar =>
    rw [not_or, not_le, not_le] at hfar
    split at h
    next => cases h
    next =>
      cases h
      exact ⟨hfar.2, hfar.1, rfl⟩

/-- Every notation of a frequency gives the same, and nothing that is cast wraps. -/
theorem freqFromD_notations :
    (∀ (F : ℚ) (p : Int32) (result : Freq), 2273 < F → F < 2527 →
      (∀ x ∈ [1000 * F, 1000000 * F, F - 2400],
        freqFromD x p result = freqFromD F p result) ∧
      (p = 1 ∧ (F < 2400 ∨ F > 2480) → freqFromD F p result = .ok (-1, result)) ∧
      (¬ (p = 1 ∧ (F < 2400 ∨ F > 2480)) → ∃ r, freqFromD F p result = .ok (0, r))) ∧
    ∀ (x : ℚ) (p : Int32) (result r : Freq), freqFromD x p result = .ok (0, r) →
      |freqOffset x * 256 + 1 / 2| < 127 * 256 + 1 ∧
        r.toInt = trunc (freqOffset x * 256 + 1 / 2) ∧ r ≠ invalidFreq := by
  constructor
  · intro F p result h h'
    have hoffsets := freqOffset_notations h h'
    have hF := hoffsets F (by simp)
    refine ⟨fun x hx => ?_, fun hoob => ?_, fun hin => ?_⟩
    · rw [freqFromD_eq, freqFromD_eq, hoffsets x (List.mem_cons_of_mem _ hx), hF]
    · rw [freqFromD_eq, hF, if_neg, if_pos]
      · refine ⟨hoob.1, hoob.2.symm.imp ?_ ?_⟩ <;> intro hb <;> linarith
      · rintro (hge | hle) <;> linarith
    · refine ⟨_, freqFromD_ok (by linarith) (by linarith) (fun hoob => hin ?_) result⟩
      rw [hF] at hoob
      refine ⟨hoob.1, hoob.2.symm.imp ?_ ?_⟩ <;> intro hb <;> linarith
  · intro x p result r h
    obtain ⟨hlo, hhi, rfl⟩ := ok_of_freqFromD h
    obtain ⟨-, hmax⟩ := nearest_offset_mem hlo hhi
    have hr := toInt_ofInt_nearest hlo hhi
    refine ⟨?_, ?_, fun hinvalid => ?_⟩
    · rw [abs_lt]
      constructor <;> linarith
    · rw [hr, mul_comm]
      rfl
    · rw [hinvalid] at hr
      have htop : invalidFreq.toInt = 32767 := by decide
      omega

theorem freqFromD_notations_2450 :
    freqFromD (1000 * 2450) 1 0 = freqFromD 2450 1 0 :=
  (freqFromD_notations.1 2450 1 0 (by norm_num) (by norm_num)).1 _ (by simp)

/-- A channel's frequency is in the band, so that no index is ever found wrong. -/
theorem centerFreq_channel (chIdx : UInt32) :
    ∃ r, centerFreqFromBleChNbr chIdx = .ok r ∧ r.toInt = 256 * ((bleFreq chIdx).toNat - 2400) := by
  have hband : 2402 ≤ (bleFreq chIdx).toNat ∧ (bleFreq chIdx).toNat ≤ 2480 := by
    unfold bleFreq
    split
    next h =>
      have hlt : chIdx.toNat < 37 := h
      have hsum : ∀ b : UInt32, b.toNat ≤ 1 →
          (2404 + chIdx * 2 + b * 2).toNat = 2404 + chIdx.toNat * 2 + b.toNat * 2 := by
        intro b hb
        simp only [UInt32.toNat_add, UInt32.toNat_mul, UInt32.reduceToNat]
        omega
      split
      next =>
        rw [hsum 1 (by decide)]
        simp only [UInt32.reduceToNat]
        omega
      next =>
        rw [hsum 0 (by decide)]
        simp only [UInt32.reduceToNat]
        omega
    split
    next => decide
    split <;> decide
  unfold centerFreqFromBleChNbr
  generalize (bleFreq chIdx).toNat = n at hband
  obtain ⟨hlo, hhi⟩ := hband
  have hloQ : (2402 : ℚ) ≤ n := by exact_mod_cast hlo
  have hhiQ : (n : ℚ) ≤ 2480 := by exact_mod_cast hhi
  have hoffset : freqOffset n = (n : ℚ) - 2400 :=
    freqOffset_near (freqToMHz_mhz (by linarith)) (by linarith) (by linarith)
  have hscaled : 256 * freqOffset n = ((256 * (n - 2400) : ℤ) : ℚ) := by
    rw [hoffset]
    push_cast
    ring
  have hok : freqFromD n 1 0 = .ok (0, Int16.ofInt (nearest (256 * freqOffset n))) := by
    refine freqFromD_ok (by rw [hoffset]; linarith) (by rw [hoffset]; linarith) ?_ 0
    rintro ⟨-, hgt | hlt⟩ <;> rw [hoffset] at * <;> linarith
  rw [hscaled, nearest_intCast (by omega)] at hok
  refine ⟨_, ?_, Int16.toInt_ofInt_of_le (by omega) (by omega)⟩
  dsimp only
  rw [hok]
  rfl

-- ---------------------------------------------------------------------------
-- There and back
-- ---------------------------------------------------------------------------

theorem freqToD_scaled (f : Freq) : 256 * freqToD f = f.toInt := by
  have hscale : ((1 <<< freqFracb : Nat) : ℚ) = 256 := by rfl
  rw [freqToD, hscale, mul_div_cancel₀]
  norm_num

theorem freqFromD_freqToD {f : Freq} (h : -127 * 256 < f.toInt) (h' : f.toInt < 127 * 256)
    (hx : x = freqToD f ∨ x = 2400 + freqToD f) (result : Freq) :
    freqFromD x 0 result = .ok (0, Int16.ofInt (nearest (f.toInt : ℚ))) := by
  have hscaled := freqToD_scaled f
  have hlo : (-127 * 256 : ℚ) < f.toInt := by exact_mod_cast h
  have hhi : (f.toInt : ℚ) < 127 * 256 := by exact_mod_cast h'
  have hoffset : freqOffset x = freqToD f := by
    rcases hx with rfl | rfl
    · exact freqOffset_offset (by linarith)
    · rw [freqOffset_near (freqToMHz_mhz (by linarith)) (by linarith) (by linarith)]
      ring
  rw [freqFromD_ok (by rw [hoffset]; linarith) (by rw [hoffset]; linarith) (by simp), hoffset,
    hscaled]

theorem freqFromD_freqToD_iff {f : Freq} (h : -127 * 256 < f.toInt) (h' : f.toInt < 127 * 256)
    (result : Freq) :
    freqFromD (freqToD f) 0 result = .ok (0, f) ∧
      freqFromD (2400 + freqToD f) 0 result = .ok (0, f) ↔ 0 ≤ f.toInt := by
  rw [freqFromD_freqToD h h' (.inl rfl), freqFromD_freqToD h h' (.inr rfl), and_self]
  rcases le_or_gt 0 f.toInt with h0 | h0
  · rw [nearest_intCast h0, Int16.ofInt_toInt]
    exact iff_of_true rfl h0
  · refine iff_of_false (fun he => ?_) (not_le.mpr h0)
    rw [nearest_intCast_of_neg h0] at he
    have hr : Int16.ofInt (f.toInt + 1) = f := congrArg Prod.snd (Except.ok.inj he)
    have hnext : (Int16.ofInt (f.toInt + 1)).toInt = f.toInt + 1 :=
      Int16.toInt_ofInt_of_le (by omega) (by omega)
    rw [hr] at hnext
    omega

theorem freqFromD_near_iff {x : ℚ} (h : -127 < x) (h' : x < 127) (result : Freq) :
    (∃ r, freqFromD x 0 result = .ok (0, r) ∧ |(r.toInt : ℚ) - 256 * x| ≤ 1 / 2) ↔
      -1 / 2 ≤ 256 * x ∨ ∃ n : ℤ, 256 * x + 1 / 2 = n := by
  have hoffset : freqOffset x = x := freqOffset_offset (by linarith)
  rw [freqFromD_ok (by rw [hoffset]; exact h) (by rw [hoffset]; exact h') (by simp), hoffset,
    ← nearest_near_iff]
  constructor
  · rintro ⟨r, hr, hnear⟩
    cases hr
    rwa [toInt_ofInt_nearest h h'] at hnear
  · intro hnear
    refine ⟨_, rfl, ?_⟩
    rwa [toInt_ofInt_nearest h h']

/-- A frequency of the format comes back, and an offset is rounded to the nearest
step, just down to 2400 MHz, but for half a step and what lies halfway. -/
theorem freqFromD_inverts_iff (f result : Freq) (x : ℚ) (hf : -127 * 256 < f.toInt)
    (hf' : f.toInt < 127 * 256) (hx : -127 < x) (hx' : x < 127) :
    (freqFromD (freqToD f) 0 result = .ok (0, f) ∧
      freqFromD (2400 + freqToD f) 0 result = .ok (0, f) ↔ 0 ≤ f.toInt) ∧
    ((∃ r, freqFromD x 0 result = .ok (0, r) ∧ |(r.toInt : ℚ) - 256 * x| ≤ 1 / 2) ↔
      -1 / 2 ≤ 256 * x ∨ ∃ n : ℤ, 256 * x + 1 / 2 = n) :=
  ⟨freqFromD_freqToD_iff hf hf' result, freqFromD_near_iff hx hx' result⟩

theorem freqFromD_below :
    freqFromD (freqToD (-1)) 0 0 = .ok (0, 0) ∧ freqFromD (2400 + freqToD (-1)) 0 0 = .ok (0, 0) ∧
      ¬ |((0 : Freq).toInt : ℚ) - 256 * freqToD (-1)| ≤ 1 / 2 := by
  decide +kernel

theorem freqFromD_inverts_iff_2402 :
    freqFromD (freqToD 512) 0 0 = .ok (0, 512) ∧
      freqFromD (2400 + freqToD 512) 0 0 = .ok (0, 512) :=
  (freqFromD_inverts_iff 512 0 2 (by decide) (by decide) (by norm_num) (by norm_num)).1.mpr
    (by decide)

-- ---------------------------------------------------------------------------
-- The v2.1 format
-- ---------------------------------------------------------------------------

theorem freqToFreq2_sum (f : Freq) :
    (f.toInt32 + (2400 : Int32) <<< Int32.ofNat freqFracb).toInt = f.toInt + 2400 * 256 := by
  have hlo := f.le_toInt
  have hhi := f.toInt_lt
  have hshift : ((2400 : Int32) <<< Int32.ofNat freqFracb).toInt = 614400 := by decide
  rw [Int32.toInt_add, Int16.toInt_toInt32, hshift, Int.bmod_eq_of_le] <;> omega

theorem freqToFreq2_toNat (f : Freq) :
    ((freqToFreq2 f).toNat : ℤ) = (f.toInt + 2400 * 256) * 256 := by
  have hlo := f.le_toInt
  have hhi := f.toInt_lt
  have hfactor : (UInt32.toNat ((1 <<< (freq2Fracb - freqFracb) : Nat).toUInt32)) = 256 := by
    decide
  have hsum := freqToFreq2_sum f
  unfold freqToFreq2
  generalize f.toInt32 + (2400 : Int32) <<< Int32.ofNat freqFracb = s at hsum
  have hs : (s.toUInt32.toNat : ℤ) = f.toInt + 614400 := by
    simp only [Int32.toInt, BitVec.toInt] at hsum
    split at hsum
    next => exact hsum
    next => omega
  dsimp only
  rw [UInt32.toNat_mul, hfactor]
  omega

theorem freq2ToD_scaled (g : Freq2) : 65536 * freq2ToD g = (g.toNat : ℤ) := by
  have hscale : ((1 <<< freq2Fracb : Nat) : ℚ) = 65536 := by rfl
  rw [freq2ToD, hscale, mul_div_cancel₀]
  · rfl
  · norm_num

theorem freq2FromD_ok (h : 0 ≤ x) (h' : x < 65535) :
    freq2FromD x = .ok (UInt32.ofInt (nearest (65536 * x))) ∧
      ((UInt32.ofInt (nearest (65536 * x))).toNat : ℤ) = nearest (65536 * x) := by
  have hscale : x * (1 <<< freq2Fracb : Nat) = 65536 * x := by
    rw [mul_comm]
    rfl
  have hlo : nearest ((0 : ℤ) : ℚ) ≤ nearest (65536 * x) := nearest_mono (by push_cast; linarith)
  have hhi : nearest (65536 * x) ≤ nearest ((65535 * 65536 : ℤ) : ℚ) :=
    nearest_mono (by push_cast; linarith)
  rw [nearest_intCast (by decide)] at hlo hhi
  constructor
  · unfold freq2FromD
    rw [if_neg, hscale]
    · rfl
    · rintro (hge | hlt)
      · norm_num at hge
        linarith
      · linarith
  · generalize nearest (65536 * x) = n at hlo hhi
    rw [UInt32.ofInt, UInt32.toNat_ofNat']
    omega

theorem freq2FromD_freq2ToD {g : Freq2} (h : g.toNat < 65535 * 65536) :
    freq2FromD (freq2ToD g) = .ok g := by
  have hscaled := freq2ToD_scaled g
  have hlo : (0 : ℚ) ≤ (g.toNat : ℤ) := by positivity
  have hhi : ((g.toNat : ℤ) : ℚ) < 65535 * 65536 := by exact_mod_cast h
  obtain ⟨hok, hnat⟩ := freq2FromD_ok (x := freq2ToD g) (by linarith) (by linarith)
  rw [hok]
  rw [hscaled, nearest_intCast (Int.natCast_nonneg _)] at hnat ⊢
  exact congrArg Except.ok (UInt32.toNat_inj.mp (by exact_mod_cast hnat))

theorem freq2ToD_freqToFreq2 (f : Freq) : freq2ToD (freqToFreq2 f) = 2400 + freqToD f := by
  have hfreq2 := freq2ToD_scaled (freqToFreq2 f)
  have hfreq := freqToD_scaled f
  rw [freqToFreq2_toNat] at hfreq2
  push_cast at hfreq2
  linarith

theorem freqToFreq2_near (h : 0 ≤ x) (h' : x < 127) (result : Freq) :
    ∃ r g, freqFromD x 0 result = .ok (0, r) ∧ freq2FromD (2400 + x) = .ok g ∧
      |((freqToFreq2 r).toNat : ℤ) - g.toNat| ≤ 128 := by
  have hoffset : freqOffset x = x := freqOffset_offset (by linarith)
  obtain ⟨hok, hnat⟩ := freq2FromD_ok (x := 2400 + x) (by linarith) (by linarith)
  refine ⟨_, _, freqFromD_ok (by rw [hoffset]; linarith) (by rw [hoffset]; exact h') (by simp) _,
    hok, ?_⟩
  rw [freqToFreq2_toNat, hnat, hoffset, toInt_ofInt_nearest (by linarith) h']
  have hnear := abs_le.mp (abs_nearest_sub_le (x := 256 * x) (by linarith))
  have hnear2 := abs_le.mp (abs_nearest_sub_le (x := 65536 * (2400 + x)) (by linarith))
  generalize nearest (256 * x) = n at hnear
  generalize nearest (65536 * (2400 + x)) = n2 at hnear2
  have hub : (((n + 2400 * 256) * 256 - n2 : ℤ) : ℚ) < (129 : ℤ) := by
    push_cast
    linarith
  have hlb : ((-129 : ℤ) : ℚ) < (((n + 2400 * 256) * 256 - n2 : ℤ) : ℚ) := by
    push_cast
    linarith
  rw [abs_le]
  have hub := Int.cast_lt.mp hub
  have hlb := Int.cast_lt.mp hlb
  omega

/-- The migration computes on integers, keeps the order and the frequency, and
lands next to the direct conversion. -/
theorem freq2_commutes :
    (∀ f : Freq,
      (f.toInt32 + (2400 : Int32) <<< Int32.ofNat freqFracb).toInt = f.toInt + 2400 * 256 ∧
        ((freqToFreq2 f).toNat : ℤ) = (f.toInt + 2400 * 256) * 256) ∧
    (∀ f f' : Freq, f < f' → freqToFreq2 f < freqToFreq2 f') ∧
    (∀ f : Freq, freq2ToD (freqToFreq2 f) = 2400 + freqToD f ∧
      freq2FromD (2400 + freqToD f) = .ok (freqToFreq2 f)) ∧
    (∀ g : Freq2, g.toNat < 65535 * 65536 → freq2FromD (freq2ToD g) = .ok g) ∧
    ∀ (x : ℚ) (result : Freq), 0 ≤ x → x < 127 →
      ∃ r g, freqFromD x 0 result = .ok (0, r) ∧ freq2FromD (2400 + x) = .ok g ∧
        |((freqToFreq2 r).toNat : ℤ) - g.toNat| ≤ 128 := by
  refine ⟨fun f => ⟨freqToFreq2_sum f, freqToFreq2_toNat f⟩, fun f f' h => ?_,
    fun f => ⟨freq2ToD_freqToFreq2 f, ?_⟩, fun g => freq2FromD_freq2ToD,
    fun x result h h' => freqToFreq2_near h h' result⟩
  · have hlt := Int16.lt_iff_toInt_lt.mp h
    have hf := freqToFreq2_toNat f
    have hf' := freqToFreq2_toNat f'
    exact UInt32.lt_iff_toNat_lt.mpr (by omega)
  · rw [← freq2ToD_freqToFreq2]
    apply freq2FromD_freq2ToD
    have hf := freqToFreq2_toNat f
    have hhi := f.toInt_lt
    omega

theorem freq2_commutes_2402 : freq2FromD (freq2ToD 157417472) = .ok 157417472 :=
  freq2_commutes.2.2.2.1 157417472 (by decide)

end

end PhyCom2G4

import Mathlib.Tactic.NormNum
import PhyCom2G4.Utils

/-!
# Power levels and dBm

Both conversions from dBm saturate to a whole number of dBm, one short of where
the type ends. They keep to what they promise up to there and no further
(`levels_iff`).
-/

namespace PhyCom2G4

open Fixed

/-- A conversion to a format of scale `k` that saturates at `lo` and `hi`, while
the format goes on to `last`: there and back for a value `v`, and for an `x` no
greater than `y`. -/
structure Saturates {τ : Type} (toInt : τ → ℤ) (fromD : ℚ → τ) (toD : τ → ℚ)
    (lo hi last k : ℚ) (v : τ) (x y : ℚ) : Prop where
  /-- Nothing is lost on the way there and back. -/
  inverse : fromD (toD v) = v ↔ toD v ≤ hi
  /-- The cast does not overflow. -/
  fits : toInt (fromD x) = trunc (clamp lo hi x * k)
  mono : x ≤ y → toInt (fromD x) ≤ toInt (fromD y)
  /-- The result is less than a step from what the format has to offer. -/
  near : |toD (fromD x) - clamp lo last x| < 1 / k ↔ x < hi + 1 / k

theorem saturates_quantize {τ : Type} (toInt : τ → ℤ) (ofInt : ℤ → τ) {lo hi last k : ℚ}
    (a b : ℤ) (hle : lo ≤ hi) (hk : 0 < k) (hlo : lo * k = a) (hhi : hi * k = b)
    (hlast : hi + 1 / k ≤ last)
    (hinj : Function.Injective toInt) (hmin : ∀ v, a ≤ toInt v)
    (hofInt : ∀ n, a ≤ n → n ≤ b → toInt (ofInt n) = n) (v : τ) (x y : ℚ) :
    Saturates toInt (fun x => ofInt (quantize lo hi k x)) (fun v => toInt v / k) lo hi last k
      v x y := by
  have hfits : ∀ x, toInt (ofInt (quantize lo hi k x)) = quantize lo hi k x := by
    intro x
    obtain ⟨hge, hle⟩ := quantize_mem hle hk.le hlo.ge hhi.le x
    exact hofInt _ hge hle
  refine ⟨⟨fun hv => ?_, fun hv => ?_⟩, hfits x, fun hxy => ?_, ?_⟩
  · have hv : toInt v = quantize lo hi k (toInt v / k) := by
      rw [← hfits, hv]
    have hb := (quantize_mem hle hk.le hlo.ge hhi.le (toInt v / k)).2
    rw [← hv] at hb
    rw [div_le_iff₀ hk, hhi]
    exact_mod_cast hb
  · have hq : quantize lo hi k (toInt v / k) = toInt v := by
      refine quantize_div hk ?_ ((div_le_iff₀ hk).mp hv)
      rw [hlo]
      exact_mod_cast hmin v
    apply hinj
    rw [hfits, hq]
  · rw [hfits, hfits]
    exact quantize_mono hle hk.le hxy
  · rw [hfits]
    exact quantize_near_iff hle hk hhi hlast x

theorem levels_iff (p : Power) (v : RssiPower) (x y : ℚ) :
    Saturates Int16.toInt powerFromD powerToD (-128) 127 (128 - 1 / 256) 256 p x y ∧
      Saturates Int32.toInt rssiValueFromDBm rssiValueToDBm (-32768) 32767 (32768 - 1 / 65536)
        65536 v x y := by
  constructor
  · refine saturates_quantize Int16.toInt Int16.ofInt (-32768) 32512 (by norm_num) (by norm_num)
      (by norm_num) (by norm_num) (by norm_num) (fun _ _ => Int16.toInt_inj.mp) Int16.le_toInt ?_
      p x y
    intro n hn hn'
    exact Int16.toInt_ofInt_of_le hn (by omega)
  · refine saturates_quantize Int32.toInt Int32.ofInt (-2147483648) 2147418112 (by norm_num)
      (by norm_num) (by norm_num) (by norm_num) (by norm_num) (fun _ _ => Int32.toInt_inj.mp)
      Int32.le_toInt ?_ v x y
    intro n hn hn'
    exact Int32.toInt_ofInt_of_le hn (by omega)

theorem top_levels_lost :
    powerFromD (powerToD 0x7FFF) ≠ 0x7FFF ∧
      rssiValueFromDBm (rssiValueToDBm 0x7FFFFFFF) ≠ 0x7FFFFFFF ∧
        ¬ |powerToD (powerFromD 128) - clamp (-128) (128 - 1 / 256) 128| < 1 / 256 := by
  decide +kernel

end PhyCom2G4

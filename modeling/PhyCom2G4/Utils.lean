import Mathlib.Data.Rat.Floor
import PhyCom2G4.Lib.CStr
import PhyCom2G4.Lib.Fixed
import PhyCom2G4.Types

/-!
# bs_pc_2G4_utils.c

A `double` is a rational here, so that no operation on it rounds. What a cast
of one to an integer type drops is its fraction; a value the type does not
have would wrap.
-/

namespace PhyCom2G4

open Bytes CStr Fixed

-- ---------------------------------------------------------------------------
-- Power levels
-- ---------------------------------------------------------------------------

def powerFromD (power : ℚ) : Power :=
  let power := if power < -128 then -128 else if power > 127 then 127 else power
  Int16.ofInt (trunc (power * 256))

def powerToD (power : Power) : ℚ := power.toInt / 256

def rssiValueToDBm (value : RssiPower) : ℚ := value.toInt / 65536

def rssiValueFromDBm (value : ℚ) : RssiPower :=
  let value := if value < -32768 then -32768 else if value > 32767 then 32767 else value
  Int32.ofInt (trunc (value * 65536))

-- ---------------------------------------------------------------------------
-- Frequencies
-- ---------------------------------------------------------------------------

def freqFracb : Nat := 8
def freq2Fracb : Nat := 16
def invalidFreq : Freq := 0x7FFF

def freqToD (freq : Freq) : ℚ := freq.toInt / (1 <<< freqFracb : Nat)

def freq2ToD (freq : Freq2) : ℚ := freq.toNat / (1 <<< freq2Fracb : Nat)

/-- The sum of two `int32_t` and then a product in `uint32_t`. -/
def freqToFreq2 (freq : Freq) : Freq2 :=
  let fAbs : Freq2 := (freq.toInt32 + (2400 : Int32) <<< Int32.ofNat freqFracb).toUInt32
  fAbs * (1 <<< (freq2Fracb - freqFracb) : Nat).toUInt32

def freqToMHz (centerFreq : ℚ) : ℚ :=
  if centerFreq > 1e9 then centerFreq / 1e6
  else if centerFreq > 1e6 then centerFreq / 1e3
  else centerFreq

def freqOffset (centerFreq : ℚ) : ℚ :=
  let centerFreq := freqToMHz centerFreq
  if centerFreq ≥ 2400 - 128 ∧ centerFreq ≤ 2400 + 128 then centerFreq - 2400 else centerFreq

def freqTooFar : String :=
  "center_frequency seems to be more than 127MHz apart from 2400MHz (%e, %e+2400MHz)\n"

/-- What is returned and what `*result` is left with. -/
def freqFromD (centerFreq : ℚ) (preventOOB : Int32) (result : Freq) :
    Except Stop (Int32 × Freq) :=
  let centerFreq := freqOffset centerFreq
  if centerFreq ≥ 127 ∨ centerFreq ≤ -127 then
    .error (.error freqTooFar)
  else if preventOOB = 1 ∧ (centerFreq > 80 ∨ centerFreq < 0) then .ok (-1, result)
  else
    let centerFreq := centerFreq * (1 <<< freqFracb : Nat)
    .ok (0, Int16.ofInt (trunc (centerFreq + 1 / 2)))

def freq2FromD (centerFreq : ℚ) : Except Stop Freq2 :=
  if centerFreq ≥ 0xFFFF ∨ centerFreq < 0 then
    .error (.error "center_frequency seems to be out of range (%e; range = 0..65535MHz)\n")
  else
    let centerFreq := centerFreq * (1 <<< freq2Fracb : Nat)
    .ok (UInt32.ofInt (trunc (centerFreq + 1 / 2)))

/-- Channels above 38 are all taken to be channel 39. -/
def bleFreq (chIdx : UInt32) : UInt32 :=
  if chIdx < 37 then 2404 + chIdx * 2 + (if chIdx > 10 then 1 else 0) * 2
  else if chIdx = 37 then 2402
  else if chIdx = 38 then 2426
  else 2480

def centerFreqFromBleChNbr (chIdx : UInt32) : Except Stop Freq := do
  let freq : ℚ := (bleFreq chIdx).toNat
  let (ret, centerFreq) ← freqFromD freq 1 0
  if ret ≠ 0 then .error (.error "Got wrong channel index (%i)\n") else pure centerFreq

-- ---------------------------------------------------------------------------
-- Modulations
-- ---------------------------------------------------------------------------

def modBle : Modulation := 0x10
def modProp2M : Modulation := 0x21
def modProp3M : Modulation := 0x31
def modProp4M : Modulation := 0x41
def modBleCoded : Modulation := 0x50
def modBleHdt : Modulation := 0x60
def mod154250KDss : Modulation := 0x100
def modBleinter : Modulation := 0x8000
def modWlaninter : Modulation := 0x8010
def modCwinter : Modulation := 0x8020
def modWhitenoise1MHz : Modulation := 0x8030
def modWhitenoise2MHz : Modulation := 0x8040
def modWhitenoise4MHz : Modulation := 0x8050
def modWhitenoise8MHz : Modulation := 0x8060
def modWhitenoise16MHz : Modulation := 0x8070
def modWhitenoise20MHz : Modulation := 0x8080
def modWhitenoise40MHz : Modulation := 0x8090
def modWhitenoise80MHz : Modulation := 0x80A0

inductive ModLimits
  | modNone
  | onlyReceivable
  | onlyNonReceivable
  deriving DecidableEq, Repr

/-- One test of the chain: `strncmp` on `n` characters or `strcmp`. -/
structure Keyword where
  word : List Byte
  n : Option Nat
  modulation : Modulation
  deriving DecidableEq

def Keyword.cmp (k : Keyword) (name : List Byte) : Option Int :=
  match k.n with
  | some n => strncmp name (cstr k.word []) n
  | none => strcmp name (cstr k.word [])

def keywords : List Keyword :=
  [⟨ascii "BLI", some 3, modBleinter⟩,
    ⟨ascii "BLE_CODED", some 9, modBleCoded⟩,
    ⟨ascii "BLE_HDT", some 7, modBleHdt⟩,
    ⟨ascii "BL", some 2, modBle⟩,
    ⟨ascii "CW", some 2, modCwinter⟩,
    ⟨ascii "Prop2M", some 6, modProp2M⟩,
    ⟨ascii "Prop3M", some 6, modProp3M⟩,
    ⟨ascii "Prop4M", some 6, modProp4M⟩,
    ⟨ascii "154", some 3, mod154250KDss⟩,
    ⟨ascii "WLAN", some 4, modWlaninter⟩,
    ⟨ascii "WN16", none, modWhitenoise16MHz⟩,
    ⟨ascii "WN1", none, modWhitenoise1MHz⟩,
    ⟨ascii "WN2", none, modWhitenoise2MHz⟩,
    ⟨ascii "WN4", none, modWhitenoise4MHz⟩,
    ⟨ascii "WN8", none, modWhitenoise8MHz⟩,
    ⟨ascii "WN20", none, modWhitenoise20MHz⟩,
    ⟨ascii "WN40", none, modWhitenoise40MHz⟩,
    ⟨ascii "WN80", none, modWhitenoise80MHz⟩]

def firstMatch (name : List Byte) : List Keyword → Option (Option Modulation)
  | [] => some none
  | k :: ks => do
    if (← k.cmp name) = 0 then some (some k.modulation) else firstMatch name ks

def space : Byte := 0x20

/-- The `while (1)`: the index where it breaks, if the string does not end before. -/
def skipSpacesAt (name : List Byte) : Nat → UInt32 → Option (Option UInt32)
  | 0, _ => none
  | fuel + 1, i => do
    let c ← name[i.toNat]?
    if c ≠ 0 then
      if c = space then skipSpacesAt name fuel (i + 1) else some (some i)
    else some none

/-- The same on the string itself, which holds fewer than 2^32 leading spaces, so that
the index does not wrap. -/
def skipSpaces : List Byte → Option (Option (List Byte))
  | [] => none
  | c :: name =>
    if c ≠ 0 then
      if c = space then skipSpaces name else some (some (c :: name))
    else some none

/-- What is returned and what `*modulation` is left with, or `none` where the
scan would leave the buffer. `limit` is not looked at, and `verb` only for
what to print. -/
def modulationFromString (name : List Byte) (modulation : Modulation) (_limit : ModLimits)
    (_verb : Int32) : Option (Int32 × Modulation) := do
  match ← skipSpaces name with
  | none => some (-1, modulation)
  | some name =>
    let c ← name.head?
    if c ≥ 0x30 ∧ c ≤ 0x39 then some (-1, modulation)
    else match ← firstMatch name keywords with
      | some m => some (0, m)
      | none => some (-1, modulation)

end PhyCom2G4

import Mathlib.Data.List.Infix
import PhyCom2G4.Utils

/-!
# The modulation a string names

`p2G4_modulation_from_string` skips spaces and takes the first of its tests
that succeeds, which is that of the longest word there is (`means_find`).
It does so for every string but those in which a number follows the spaces:
the keyword that is a number is never tried (`named_iff`). The limit that the
caller sets is not looked at (`limited_iff`).
-/

namespace PhyCom2G4

open Bytes CStr

def unspaced (s : Text) : List Byte := s.chars.dropWhile (· = space)

/-- The words that a string may begin with. -/
def prefixWords : List (List Byte × Modulation) :=
  [(ascii "BL", modBle), (ascii "BLE_CODED", modBleCoded), (ascii "BLE_HDT", modBleHdt),
    (ascii "BLI", modBleinter), (ascii "CW", modCwinter), (ascii "WLAN", modWlaninter),
    (ascii "Prop2M", modProp2M), (ascii "Prop3M", modProp3M), (ascii "Prop4M", modProp4M),
    (ascii "154", mod154250KDss)]

/-- The words that a string may be as a whole. -/
def wholeWords : List (List Byte × Modulation) :=
  [(ascii "WN1", modWhitenoise1MHz), (ascii "WN2", modWhitenoise2MHz),
    (ascii "WN4", modWhitenoise4MHz), (ascii "WN8", modWhitenoise8MHz),
    (ascii "WN16", modWhitenoise16MHz), (ascii "WN20", modWhitenoise20MHz),
    (ascii "WN40", modWhitenoise40MHz), (ascii "WN80", modWhitenoise80MHz)]

/-- The word of the table matches the string `t` and stands for the modulation `m`. -/
inductive Says (t word : List Byte) (m : Modulation) : Prop
  | begins (h : (word, m) ∈ prefixWords) (ht : word <+: t)
  | whole (h : (word, m) ∈ wholeWords) (ht : t = word)

/-- The longest word that matches stands for `m`. -/
def Means (t : List Byte) (m : Modulation) : Prop :=
  ∃ word, Says t word m ∧ ∀ word' m', Says t word' m' → word'.length ≤ word.length

/-- A test that succeeds; a prefix is compared on its length. -/
def Keyword.Matches (k : Keyword) (t : List Byte) : Prop :=
  if k.n.isSome then k.word <+: t else t = k.word

instance (k : Keyword) (t : List Byte) : Decidable (k.Matches t) :=
  inferInstanceAs (Decidable (if k.n.isSome then k.word <+: t else t = k.word))

def digit (c : Byte) : Bool := c ≥ 0x30 ∧ c ≤ 0x39

def named (t : List Byte) : Option Modulation :=
  if t.head?.any digit then none
  else (keywords.find? fun k => k.Matches t).map Keyword.modulation

/-- The string is taken for what its longest word stands for, and rejected when it
has none. -/
def Named (s : Text) : Prop :=
  ∀ (modulation : Modulation) (verb : Int32) (after : List Byte), ∃ ret m,
    modulationFromString (cstr s.chars after) modulation .modNone verb = some (ret, m) ∧
      (ret = 0 ↔ ∃ word m, Says (unspaced s) word m) ∧ (ret = 0 → Means (unspaced s) m) ∧
        (ret ≠ 0 → ret = -1 ∧ m = modulation)

/-- `P2G4_MOD_*`: the modulations that are only interferers have their top bit set. -/
def ModLimits.admits : ModLimits → Modulation → Bool
  | .modNone, _ => true
  | .onlyReceivable, m => m &&& 0x8000 = 0
  | .onlyNonReceivable, m => m &&& 0x8000 ≠ 0

def Obeys (limit : ModLimits) (s : Text) : Prop :=
  ∀ (modulation : Modulation) (verb : Int32) (after : List Byte),
    let run limit := modulationFromString (cstr s.chars after) modulation limit verb
    (∀ m, run limit = some (0, m) → limit.admits m) ∧
      ∀ m, run .modNone = some (0, m) → limit.admits m = false → run limit = some (-1, modulation)

def Splits (s : Text) : Prop :=
  ∀ (modulation : Modulation) (verb : Int32) (after : List Byte),
    let run limit := modulationFromString (cstr s.chars after) modulation limit verb
    let takes limit := ∃ m, run limit = some (0, m)
    (takes .modNone ↔ Xor (takes .onlyReceivable) (takes .onlyNonReceivable)) ∧
      ∀ limit m m', run .modNone = some (0, m) → run limit = some (0, m') → m' = m

section
variable {s : Text} {t : List Byte} {k : Keyword}

-- ---------------------------------------------------------------------------
-- The scan
-- ---------------------------------------------------------------------------

theorem skipSpaces_cstr {chars : List Byte} (h : 0 ∉ chars) (after : List Byte) :
    skipSpaces (cstr chars after) =
      some (if chars.dropWhile (· = space) = [] then none
        else some (cstr (chars.dropWhile (· = space)) after)) := by
  induction chars with
  | nil => rfl
  | cons c chars ih =>
    simp only [List.mem_cons, not_or] at h
    simp only [cstr, List.cons_append, skipSpaces, if_pos (Ne.symm h.1), List.dropWhile_cons,
      decide_eq_true_eq]
    split
    next => exact ih h.2
    next => rfl

theorem skipSpacesAt_drop {name : List Byte} {fuel : Nat} {i : UInt32}
    (hi : i.toNat + ((name.drop i.toNat).takeWhile (· = space)).length < 2 ^ 32)
    (hf : ((name.drop i.toNat).takeWhile (· = space)).length < fuel) :
    (skipSpacesAt name fuel i).map (·.map fun i => name.drop i.toNat) =
      skipSpaces (name.drop i.toNat) := by
  induction fuel generalizing i with
  | zero => omega
  | succ fuel ih =>
    have hget : name[i.toNat]? = (name.drop i.toNat).head? := List.head?_drop.symm
    cases hn : name.drop i.toNat with
    | nil => simp [skipSpacesAt, skipSpaces, hget, hn]
    | cons c rest =>
      rw [hn] at hi hf hget
      simp only [skipSpacesAt, hget, List.head?_cons, Option.bind_eq_bind, Option.bind_some,
        skipSpaces]
      split
      next =>
        split
        next hc =>
          have hrest : name.drop (i.toNat + 1) = rest := by
            rw [← List.drop_drop, hn, List.drop_one, List.tail_cons]
          simp only [hc, decide_true, List.takeWhile_cons_of_pos, List.length_cons] at hi hf
          have hnext : (i + 1).toNat = i.toNat + 1 :=
            (UInt32.toNat_add i 1).trans (Nat.mod_eq_of_lt (by rw [UInt32.toNat_one]; omega))
          rw [← hrest, ← hnext] at hi hf ⊢
          exact ih (by omega) (by omega)
        next => simp [hn]
      next => rfl

/-- As long as the index does not wrap, it goes over the string. -/
theorem skipSpacesAt_eq {name : List Byte}
    (h : (name.takeWhile (· = space)).length < 2 ^ 32) :
    (skipSpacesAt name (2 ^ 32) 0).map (·.map fun i => name.drop i.toNat) = skipSpaces name :=
  skipSpacesAt_drop (i := 0) (by simpa using h) h

theorem noNul_unspaced (s : Text) : 0 ∉ unspaced s :=
  fun h => s.noNul ((List.dropWhile_suffix _).subset h)

-- ---------------------------------------------------------------------------
-- The chain
-- ---------------------------------------------------------------------------

theorem keywords_fit : ∀ k ∈ keywords, 0 ∉ k.word ∧ (k.n = none ∨ k.n = some k.word.length) := by
  decide

/-- The chain tests for the words of the table. -/
theorem keywords_perm :
    keywords.Perm (prefixWords.map (fun x => ⟨x.1, some x.1.length, x.2⟩) ++
      wholeWords.map fun x => ⟨x.1, none, x.2⟩) := by
  decide

theorem says_iff :
    Says t word m ↔ ∃ k ∈ keywords, k.Matches t ∧ k.word = word ∧ k.modulation = m := by
  have hmem : ∀ k, k ∈ keywords ↔ k ∈ prefixWords.map (fun x => ⟨x.1, some x.1.length, x.2⟩) ∨
      k ∈ wholeWords.map fun x => ⟨x.1, none, x.2⟩ := fun k => by
    rw [keywords_perm.mem_iff, List.mem_append]
  constructor
  · rintro (⟨h, ht⟩ | ⟨h, ht⟩)
    · exact ⟨_, (hmem _).mpr (.inl (List.mem_map_of_mem h)), ht, rfl, rfl⟩
    · exact ⟨_, (hmem _).mpr (.inr (List.mem_map_of_mem h)), ht, rfl, rfl⟩
  · rintro ⟨k, hk, hm, rfl, rfl⟩
    rcases (hmem k).mp hk with hk | hk <;> obtain ⟨x, hx, rfl⟩ := List.mem_map.mp hk
    · exact .begins hx hm
    · exact .whole hx hm

theorem keywords_ordered :
    keywords.Pairwise fun k k' => k.n.isSome → ¬ k.word <+: k'.word := by
  decide

theorem cmp_cstr (hk : k ∈ keywords) (ht : 0 ∉ t) (after : List Byte) :
    ∃ r, k.cmp (cstr t after) = some r ∧ (r = 0 ↔ k.Matches t) := by
  obtain ⟨hw, hn⟩ := keywords_fit k hk
  unfold Keyword.cmp Keyword.Matches
  rcases hn with hn | hn
  · rw [hn]
    exact strcmp_cstr ht hw after
  · rw [hn]
    exact strncmp_cstr ht hw after

theorem firstMatch_cstr (ht : 0 ∉ t) (after : List Byte) {ks : List Keyword} (hks : ks ⊆ keywords) :
    firstMatch (cstr t after) ks =
      some ((ks.find? fun k => k.Matches t).map Keyword.modulation) := by
  induction ks with
  | nil => rfl
  | cons k ks ih =>
    obtain ⟨hk, hks⟩ := List.cons_subset.mp hks
    obtain ⟨r, hr, hiff⟩ := cmp_cstr hk ht after
    simp only [firstMatch, hr, Option.bind_eq_bind, Option.bind_some, List.find?_cons]
    by_cases hm : k.Matches t
    · simp [hiff.mpr hm, hm]
    · simp [mt hiff.mp hm, hm, ih hks]

/-- Every string is read to its end at most, whatever the limit. -/
theorem run_modulationFromString (s : Text) (modulation : Modulation) (limit : ModLimits)
    (verb : Int32) (after : List Byte) :
    modulationFromString (cstr s.chars after) modulation limit verb =
      some (match named (unspaced s) with
        | some m => (0, m)
        | none => (-1, modulation)) := by
  have hskip := skipSpaces_cstr s.noNul after
  have ht := noNul_unspaced s
  unfold modulationFromString
  rw [hskip]
  change 0 ∉ s.chars.dropWhile (· = space) at ht
  unfold unspaced
  cases hd : s.chars.dropWhile (· = space) with
  | nil => rfl
  | cons c t =>
    rw [hd] at ht
    have hfirst := firstMatch_cstr ht after (List.Subset.refl keywords)
    simp only [reduceCtorEq, if_false, Option.bind_eq_bind, Option.bind_some]
    rw [hfirst]
    by_cases hc : c ≥ 0x30 ∧ c ≤ 0x39
    · simp [cstr, named, digit, hc]
    · simp only [cstr, List.cons_append, List.head?_cons, Option.bind_some, named,
        Option.any_some, digit, hc, decide_false, Bool.false_eq_true]
      cases (keywords.find? fun k => k.Matches (c :: t)) <;> rfl

-- ---------------------------------------------------------------------------
-- The keyword that is found
-- ---------------------------------------------------------------------------

theorem Keyword.Matches.begins (h : k.Matches t) : k.word <+: t := by
  unfold Keyword.Matches at h
  split at h
  next => exact h
  next => rw [h]

theorem find?_pairwise {α : Type} {p : α → Bool} {R : α → α → Prop} {l : List α} {a b : α}
    (hl : l.Pairwise R) (ha : l.find? p = some a) (hb : b ∈ l) (hp : p b = true) :
    a = b ∨ R a b := by
  induction l with
  | nil => cases hb
  | cons c l ih =>
    obtain ⟨hc, hl⟩ := List.pairwise_cons.mp hl
    rw [List.find?_cons] at ha
    cases hpc : p c with
    | true =>
      rw [hpc] at ha
      obtain rfl := Option.some.inj ha
      rcases List.mem_cons.mp hb with rfl | hb
      · exact .inl rfl
      · exact .inr (hc b hb)
    | false =>
      rw [hpc] at ha
      rcases List.mem_cons.mp hb with rfl | hb
      · simp [hpc] at hp
      · exact ih hl ha hb

theorem means_find (h : keywords.find? (fun k => k.Matches t) = some k) :
    Means t k.modulation := by
  have hk : k.Matches t := by simpa using List.find?_some h
  refine ⟨k.word, says_iff.mpr ⟨k, List.mem_of_find?_eq_some h, hk, rfl, rfl⟩, ?_⟩
  intro word' m' hsays
  obtain ⟨k', hk', hm', rfl, rfl⟩ := says_iff.mp hsays
  rcases find?_pairwise keywords_ordered h hk' (by simpa using hm') with rfl | hord
  · exact le_rfl
  cases hn : k.n with
  | none =>
    have ht : t = k.word := by simpa [Keyword.Matches, hn] using hk
    exact ht ▸ hm'.begins.length_le
  | some n =>
    by_contra hlt
    refine hord (by simp [hn]) (List.prefix_of_prefix_length_le hk.begins hm'.begins ?_)
    exact (not_le.mp hlt).le

theorem Means.unique (h : Means t m) (h' : Means t m') : m = m' := by
  have hwords : ∀ k ∈ keywords, ∀ k' ∈ keywords, k.word = k'.word → k = k' := by decide
  obtain ⟨word, hsays, hlongest⟩ := h
  obtain ⟨word', hsays', hlongest'⟩ := h'
  have hlen := le_antisymm (hlongest' word m hsays) (hlongest word' m' hsays')
  obtain ⟨k, hk, hm, rfl, rfl⟩ := says_iff.mp hsays
  obtain ⟨k', hk', hm', rfl, rfl⟩ := says_iff.mp hsays'
  have hword : k.word = k'.word :=
    (List.prefix_of_prefix_length_le hm.begins hm'.begins hlen.le).eq_of_length hlen
  rw [hwords k hk k' hk' hword]

-- ---------------------------------------------------------------------------
-- The keyword that is a number
-- ---------------------------------------------------------------------------

theorem digit_of_154 (h : ascii "154" <+: t) : t.head?.any digit = true := by
  obtain ⟨u, rfl⟩ := h
  rfl

theorem begins_154 (hd : t.head?.any digit = true) (hk : k ∈ keywords) (hm : k.Matches t) :
    ascii "154" <+: t := by
  have hdigit : ∀ k ∈ keywords, k.word ≠ [] ∧ (k.word.head?.any digit = true →
      k.word = ascii "154") := by decide
  obtain ⟨hne, h154⟩ := hdigit k hk
  obtain ⟨u, rfl⟩ := hm.begins
  rw [List.head?_append_of_ne_nil _ hne] at hd
  rw [h154 hd]
  exact List.prefix_append _ _

theorem named_some (h : named t = some m) :
    ¬ ascii "154" <+: t ∧ Means t m := by
  unfold named at h
  split at h
  next => cases h
  next hd =>
    obtain ⟨k, hk, rfl⟩ := Option.map_eq_some_iff.mp h
    exact ⟨fun h154 => hd (digit_of_154 h154), means_find hk⟩

theorem named_none (h : named t = none) :
    ascii "154" <+: t ∨ ∀ word m, ¬ Says t word m := by
  unfold named at h
  split at h
  next hd =>
    by_cases hk : ∃ k ∈ keywords, k.Matches t
    · obtain ⟨k, hk, hm⟩ := hk
      exact .inl (begins_154 hd hk hm)
    · refine .inr fun word m hsays => ?_
      obtain ⟨k, hmem, hm, -, -⟩ := says_iff.mp hsays
      exact hk ⟨k, hmem, hm⟩
  next =>
    have hfind := List.find?_eq_none.mp (Option.map_eq_none_iff.mp h)
    refine .inr fun word m hsays => ?_
    obtain ⟨k, hk, hm, -, -⟩ := says_iff.mp hsays
    exact hfind k hk (by simpa using hm)

theorem named_of_154 (h : ascii "154" <+: t) :
    named t = none ∧ Says t (ascii "154") mod154250KDss :=
  ⟨if_pos (digit_of_154 h), .begins (by decide) h⟩

theorem named_iff (s : Text) :
    (∀ (modulation : Modulation) (limit : ModLimits) (verb : Int32) (after : List Byte),
      (modulationFromString (cstr s.chars after) modulation limit verb).isSome) ∧
    (Named s ↔ ¬ ascii "154" <+: unspaced s) := by
  refine ⟨fun modulation limit verb after => ?_, fun hnamed h154 => ?_, fun h154 => ?_⟩
  · rw [run_modulationFromString]
    rfl
  · obtain ⟨hnone, hmatch⟩ := named_of_154 h154
    obtain ⟨ret, m, hrun, hiff, -⟩ := hnamed 0 0 []
    rw [run_modulationFromString, hnone] at hrun
    cases hrun
    have hret := hiff.mpr ⟨_, _, hmatch⟩
    cases hret
  · intro modulation verb after
    rw [run_modulationFromString]
    cases h : named (unspaced s) with
    | some m =>
      obtain ⟨-, hm⟩ := named_some h
      obtain ⟨word, hsays, -⟩ := id hm
      exact ⟨_, _, rfl, iff_of_true rfl ⟨word, m, hsays⟩, fun _ => hm, fun hne => absurd rfl hne⟩
    | none =>
      have hno := (named_none h).resolve_left h154
      refine ⟨_, _, rfl, iff_of_false (by decide) ?_, (fun h0 => by cases h0), fun _ => ⟨rfl, rfl⟩⟩
      rintro ⟨word, m, hsays⟩
      exact hno word m hsays

theorem not_named_154 : ¬ Named ⟨ascii "154", by decide⟩ := by
  intro h
  obtain ⟨ret, m, hrun, hiff, -⟩ := h 0 0 []
  have hreject : modulationFromString (cstr (ascii "154") []) 0 .modNone 0 = some (-1, 0) := rfl
  rw [hreject] at hrun
  cases hrun
  cases hiff.mpr ⟨ascii "154", mod154250KDss, .begins (by decide) (by decide)⟩

-- ---------------------------------------------------------------------------
-- Limits
-- ---------------------------------------------------------------------------

/-- The limit plays no part, so that it is kept to only where there is nothing
for it to exclude. -/
theorem limited_iff (s : Text) :
    (∀ limit, Obeys limit s ↔ ascii "154" <+: unspaced s ∨
      ∀ m, Means (unspaced s) m → limit.admits m) ∧
    (Splits s ↔ ascii "154" <+: unspaced s ∨ ∀ word m, ¬ Says (unspaced s) word m) := by
  unfold Obeys Splits
  simp only [run_modulationFromString, Option.some.injEq]
  cases h : named (unspaced s) with
  | none =>
    have hnone := named_none h
    refine ⟨fun limit => iff_of_true (fun _ _ _ => ⟨?_, ?_⟩) ?_, iff_of_true (fun _ _ _ => ⟨?_, ?_⟩)
      hnone⟩
    · rintro m ⟨⟩
    · rintro m ⟨⟩
    · exact hnone.imp_right fun hno m ⟨word, hsays, _⟩ => absurd hsays (hno word m)
    · simp [Xor]
    · rintro limit m m' ⟨⟩
  | some m =>
    obtain ⟨h154, hm⟩ := named_some h
    refine ⟨fun limit => ⟨fun hobeys => ?_, fun hallows => ?_⟩, iff_of_false (fun hsplits => ?_) ?_⟩
    · refine .inr fun m' hm' => ?_
      rw [hm'.unique hm]
      exact (hobeys 0 0 []).1 _ rfl
    · have hallowed := hallows.resolve_left h154 m hm
      refine fun _ _ _ => ⟨?_, ?_⟩
      · rintro m ⟨⟩
        exact hallowed
      · rintro m ⟨⟩ hno
        simp [hallowed] at hno
    · obtain ⟨hxor, -⟩ := hsplits 0 0 []
      rcases hxor.mp ⟨_, rfl⟩ with ⟨-, hno⟩ | ⟨-, hno⟩ <;> exact hno ⟨_, rfl⟩
    · rintro (h' | hno)
      · exact h154 h'
      · obtain ⟨word, hsays, -⟩ := hm
        exact hno word m hsays

theorem not_limited_bli :
    ¬ Obeys .onlyReceivable ⟨ascii "BLI", by decide⟩ ∧ ¬ Splits ⟨ascii "BLI", by decide⟩ := by
  have hrun : ∀ limit, modulationFromString (cstr (ascii "BLI") []) 0 limit 0 =
      some (0, modBleinter) := fun _ => rfl
  constructor
  · intro h
    cases (h 0 0 []).1 _ (hrun _)
  · intro h
    rcases (h 0 0 []).1.mp ⟨_, hrun _⟩ with ⟨-, hno⟩ | ⟨-, hno⟩ <;> exact hno ⟨_, hrun _⟩

end

end PhyCom2G4

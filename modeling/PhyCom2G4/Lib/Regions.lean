import PhyCom2G4.Lib.Memory

/-!
# A memory that several parties use

A `Store` is a memory, the pointer variables in it and the blocks of it that are
in use. A party has a `Region` of bytes and of variables of its own. To a party two
stores match (`Matches`) that hold the same in its bytes and, in each of its
variables, the same pointer or pointers to new blocks with the same bytes. What
one party does stays within its region and new blocks (`Frame`), and so is
nothing to another.
-/

namespace Regions

open Bytes Memory

/-- A block is its address and size. -/
structure Store where
  mem : Mem
  ptr : Addr → Addr
  heap : List (Addr × Nat)

structure Region where
  bytes : Addr → Prop
  /-- The pointer variables. -/
  vars : Addr → Prop

def Allocated (heap : List (Addr × Nat)) (a : Addr) : Prop := ∃ b ∈ heap, InRange b.1 b.2 a

def Fresh (alloc : List (Addr × Nat) → Nat → Addr) : Prop :=
  ∀ heap n a, InRange (alloc heap n) n a → ¬ Allocated heap a

namespace Store

@[reducible] def write (p : Addr) (bs : List Byte) (s : Store) : Store :=
  { s with mem := store s.mem p bs }

theorem write_nil (p : Addr) (s : Store) : s.write p [] = s := by
  rw [write, store_nil]

@[reducible] def malloc (alloc : List (Addr × Nat) → Nat → Addr) (q : Addr) (n : Nat) (s : Store) :
    Store where
  mem := s.mem
  ptr := fun q' => if q' = q then alloc s.heap n else s.ptr q'
  heap := (alloc s.heap n, n) :: s.heap

@[reducible] def point (q a : Addr) (s : Store) : Store :=
  { s with ptr := Function.update s.ptr q a }

/-- `bs`, of no more than `n` bytes, to where `q` points, a new block if there is no
room for `n` bytes. -/
def deliver (alloc : List (Addr × Nat) → Nat → Addr) (q : Addr) (room n : Nat) (bs : List Byte)
    (s : Store) : Store :=
  let s := if room < n then s.malloc alloc q n else s
  s.write (s.ptr q) bs

/-- `q` points to a block of `n` bytes, none of them in a region of a party. -/
structure Block (used : Addr → Prop) (q n : Nat) (s : Store) : Prop where
  mem : (s.ptr q, n) ∈ s.heap
  unused : ∀ a, InRange (s.ptr q) n a → ¬ used a
  pos : 0 < n

end Store

/-- Matches to the party of the region `own`; `used` are the bytes in the regions of all.
Blocks are alike unless something was `lost`. -/
structure Matches (used : Addr → Prop) (own : Region) (lost : Prop) (s t : Store) : Prop where
  mem : ∀ a, own.bytes a → s.mem a = t.mem a
  ptr : ∀ q, own.vars q → s.ptr q = t.ptr q ∨ ∃ n, s.Block used q n ∧ t.Block used q n ∧
    (load s.mem (s.ptr q) n = load t.mem (t.ptr q) n ∨ lost)
  covered : ∀ a, used a → Allocated s.heap a ∧ Allocated t.heap a

/-- Of what was in use, only what is in the region changes. -/
structure Frame (own : Region) (s s' : Store) : Prop where
  mem : ∀ a, ¬ own.bytes a → Allocated s.heap a → s'.mem a = s.mem a
  ptr : ∀ q, ¬ own.vars q → s'.ptr q = s.ptr q
  heap : ∀ b ∈ s.heap, b ∈ s'.heap

structure Apart (own own' : Region) : Prop where
  bytes : ∀ a, own.bytes a → ¬ own'.bytes a
  vars : ∀ q, own.vars q → ¬ own'.vars q

section
variable {used : Addr → Prop} {own own' : Region} {lost lost' : Prop} {s s' t : Store}
  {alloc : List (Addr × Nat) → Nat → Addr}

theorem Allocated.grow {heap heap' : List (Addr × Nat)} (h : Allocated heap a)
    (hh : ∀ b ∈ heap, b ∈ heap') : Allocated heap' a := by
  obtain ⟨b, hb, ha⟩ := h
  exact ⟨b, hh b hb, ha⟩

theorem Frame.refl (own : Region) (s : Store) : Frame own s s :=
  ⟨fun _ _ _ => rfl, fun _ _ => rfl, fun _ => id⟩

theorem Frame.trans (h : Frame own s s') (h' : Frame own s' t) : Frame own s t where
  mem a ha hs := (h'.mem a ha (hs.grow h.heap)).trans (h.mem a ha hs)
  ptr q hq := (h'.ptr q hq).trans (h.ptr q hq)
  heap b hb := h'.heap b (h.heap b hb)

theorem Matches.refl (h : ∀ a, used a → Allocated s.heap a) : Matches used own lost s s :=
  ⟨fun _ _ => rfl, fun _ _ => .inl rfl, fun a ha => ⟨h a ha, h a ha⟩⟩

theorem Matches.mono (h : Matches used own lost s t) (hl : lost → lost') :
    Matches used own lost' s t := by
  refine ⟨h.mem, fun q hq => ?_, h.covered⟩
  exact (h.ptr q hq).imp_right fun ⟨n, hb, hb', hload⟩ => ⟨n, hb, hb', hload.imp_right hl⟩

theorem Matches.load (h : Matches used own lost s t) (hp : ∀ a, InRange p n a → own.bytes a) :
    load s.mem p n = load t.mem p n :=
  load_congr fun a ha => h.mem a (hp a ha)

theorem load_store_outside (m : Mem) (h : ∀ a, InRange q n a → ¬ InRange p bs.length a) :
    Memory.load (store m p bs) q n = Memory.load m q n :=
  load_congr fun a ha => store_outside _ _ _ (h a ha)

/-- The party of another region writes there. -/
theorem Matches.of_frame (h : Matches used own lost s t) (hu : ∀ a, own.bytes a → used a)
    (hu' : ∀ a, own'.bytes a → used a) (hap : Apart own own') (hf : Frame own' s s') :
    Matches used own lost s' t := by
  refine ⟨fun a ha => ?_, fun q hq => ?_, fun a ha => ?_⟩
  · rw [hf.mem a (hap.bytes a ha) (h.covered a (hu a ha)).1]
    exact h.mem a ha
  · rw [hf.ptr q (hap.vars q hq)]
    rcases h.ptr q hq with heq | ⟨n, hb, hb', hload⟩
    · exact .inl heq
    · have hptr := hf.ptr q (hap.vars q hq)
      have hkept : Memory.load s'.mem (s.ptr q) n = Memory.load s.mem (s.ptr q) n :=
        load_congr fun a ha => hf.mem a (fun ho => hb.unused a ha (hu' a ho)) ⟨_, hb.mem, ha⟩
      refine .inr ⟨n, ⟨?_, ?_, hb.pos⟩, hb', ?_⟩
      · rw [hptr]
        exact hf.heap _ hb.mem
      · rw [hptr]
        exact hb.unused
      · rwa [hkept]
  · exact ⟨(h.covered a ha).1.grow hf.heap, (h.covered a ha).2⟩

theorem Matches.write (h : Matches used own lost s t) (hu : ∀ a, own.bytes a → used a)
    (hp : ∀ a, InRange p bs.length a → own.bytes a) :
    Matches used own lost (s.write p bs) (t.write p bs) := by
  refine ⟨fun a ha => ?_, fun q hq => ?_, h.covered⟩
  · simp only [store, h.mem a ha]
  · rcases h.ptr q hq with heq | ⟨n, hb, hb', hload⟩
    · exact .inl heq
    · refine .inr ⟨n, ⟨hb.mem, hb.unused, hb.pos⟩, ⟨hb'.mem, hb'.unused, hb'.pos⟩, ?_⟩
      have hs : ∀ a, InRange (s.ptr q) n a → ¬ InRange p bs.length a :=
        fun a ha hin => hb.unused a ha (hu a (hp a hin))
      have ht : ∀ a, InRange (t.ptr q) n a → ¬ InRange p bs.length a :=
        fun a ha hin => hb'.unused a ha (hu a (hp a hin))
      rwa [load_store_outside _ hs, load_store_outside _ ht]

theorem frame_write (hp : ∀ a, InRange p bs.length a → own.bytes a) :
    Frame own s (s.write p bs) where
  mem a ha _ := store_outside _ _ _ fun hin => ha (hp a hin)
  ptr _ _ := rfl
  heap _ hb := hb

theorem Matches.ptr_eq (h : Matches used own lost s t) (hu : ∀ a, own.bytes a → used a)
    (hq : own.vars q) (ho : own.bytes (t.ptr q)) : s.ptr q = t.ptr q := by
  rcases h.ptr q hq with heq | ⟨n, -, hb', -⟩
  · exact heq
  · exact absurd (hu _ ho) (hb'.unused _ ⟨Nat.le_refl _, Nat.lt_add_of_pos_right hb'.pos⟩)

theorem Matches.point (h : Matches used own lost s t) (q a : Addr) :
    Matches used own lost (s.point q a) (t.point q a) := by
  refine ⟨h.mem, fun q' hq' => ?_, h.covered⟩
  by_cases hq : q' = q
  · subst hq
    exact .inl (by simp)
  · have hs : ∀ s : Store, (s.point q a).ptr q' = s.ptr q' :=
      fun s => Function.update_of_ne hq a s.ptr
    refine (h.ptr q' hq').imp (fun heq => by rwa [hs, hs]) ?_
    rintro ⟨n, hb, hb', hload⟩
    refine ⟨n, ⟨?_, ?_, hb.pos⟩, ⟨?_, ?_, hb'.pos⟩, ?_⟩ <;> rw [hs]
    · exact hb.mem
    · exact hb.unused
    · exact hb'.mem
    · exact hb'.unused
    · rwa [hs]

theorem Frame.point (hq : own.vars q) (a : Addr) : Frame own s (s.point q a) where
  mem _ _ _ := rfl
  ptr q' hq' := Function.update_of_ne (fun h : q' = q => hq' (h ▸ hq)) a s.ptr
  heap _ hb := hb

theorem Frame.mono (h : Frame own s s') (hb : ∀ a, own.bytes a → own'.bytes a)
    (hv : ∀ q, own.vars q → own'.vars q) : Frame own' s s' where
  mem a ha := h.mem a fun ho => ha (hb a ho)
  ptr q hq := h.ptr q fun ho => hq (hv q ho)
  heap := h.heap

theorem Frame.malloc (hq : own.vars q) (n : Nat) : Frame own s (s.malloc alloc q n) where
  mem _ _ _ := rfl
  ptr q' hq' := if_neg fun h : q' = q => hq' (h ▸ hq)
  heap _ hb := List.mem_cons_of_mem _ hb

theorem Fresh.block (hf : Fresh alloc) (hs : ∀ a, used a → Allocated s.heap a) (q : Addr)
    (hn : 0 < n) : (s.malloc alloc q n).Block used q n where
  mem := by simp
  unused a ha hu := by
    simp only [if_true] at ha
    exact hf _ _ a ha (hs a hu)
  pos := hn

/-- A new block for one variable leaves those of the others as they were. -/
theorem Store.Block.deliver (hf : Fresh alloc) {m : Nat} (hb : s.Block used q' m)
    (hne : q' ≠ q) (hlen : bs.length ≤ n) :
    let s' := (s.malloc alloc q n).write (alloc s.heap n) bs
    s'.Block used q' m ∧ Memory.load s'.mem (s'.ptr q') m = Memory.load s.mem (s.ptr q') m := by
  have hptr : (s.malloc alloc q n).ptr q' = s.ptr q' := if_neg hne
  have hout : ∀ a, InRange (s.ptr q') m a → ¬ InRange (alloc s.heap n) bs.length a :=
    fun a ha hin => hf _ _ a ⟨hin.1, by have := hin.2; omega⟩ ⟨_, hb.mem, ha⟩
  refine ⟨⟨?_, ?_, hb.pos⟩, ?_⟩
  · rw [hptr]
    exact List.mem_cons_of_mem _ hb.mem
  · rw [hptr]
    exact hb.unused
  · rw [hptr]
    exact load_store_outside _ hout

/-- What one store is given in a new block is to be whole, or is lost. -/
theorem Matches.deliver_new (hf : Fresh alloc) (h : Matches used own lost s t)
    (hu : ∀ a, own.bytes a → used a) (hn : 0 < n) (hlen : bs.length ≤ n)
    (hwhole : bs.length = n ∨ lost) :
    Matches used own lost ((s.malloc alloc q n).write (alloc s.heap n) bs)
      ((t.malloc alloc q n).write (alloc t.heap n) bs) := by
  have hout : ∀ (s : Store) a, Allocated s.heap a → ¬ InRange (alloc s.heap n) bs.length a :=
    fun s a ha hin => hf _ _ a ⟨hin.1, by have := hin.2; omega⟩ ha
  refine ⟨fun a ha => ?_, fun q' hq' => ?_, fun a ha => ?_⟩
  · have hcov := h.covered a (hu a ha)
    dsimp only
    rw [store_outside _ _ _ (hout s a hcov.1), store_outside _ _ _ (hout t a hcov.2)]
    exact h.mem a ha
  · by_cases hq : q' = q
    · subst hq
      have hb := hf.block (fun a ha => (h.covered a ha).1) q' hn
      have hb' := hf.block (fun a ha => (h.covered a ha).2) q' hn
      refine .inr ⟨n, ⟨hb.mem, hb.unused, hn⟩, ⟨hb'.mem, hb'.unused, hn⟩, ?_⟩
      refine hwhole.imp_left fun hfull => ?_
      simp only [if_true]
      rw [load_store _ _ _ hfull, load_store _ _ _ hfull]
    · rcases h.ptr q' hq' with heq | ⟨m, hb, hb', hload⟩
      · refine .inl ?_
        simp only [if_neg hq]
        exact heq
      · obtain ⟨hb₁, hl₁⟩ := hb.deliver hf hq hlen
        obtain ⟨hb₂, hl₂⟩ := hb'.deliver hf hq hlen
        refine .inr ⟨m, hb₁, hb₂, ?_⟩
        rwa [hl₁, hl₂]
  · exact ⟨(h.covered a ha).1.grow fun b hb => List.mem_cons_of_mem _ hb,
      (h.covered a ha).2.grow fun b hb => List.mem_cons_of_mem _ hb⟩

theorem Matches.deliver (hf : Fresh alloc) (h : Matches used own lost s t)
    (hu : ∀ a, own.bytes a → used a) (hq : own.vars q)
    (hroom : ∀ a, InRange (t.ptr q) room a → own.bytes a) (hlen : bs.length ≤ n)
    (hwhole : bs.length = n ∨ lost) :
    Matches used own lost (s.deliver alloc q room n bs) (t.deliver alloc q room n bs) ∧
      Frame own s (s.deliver alloc q room n bs) := by
  by_cases hn : room < n
  · have hnew : ∀ s : Store, s.deliver alloc q room n bs =
        (s.malloc alloc q n).write (alloc s.heap n) bs := fun s => by simp [Store.deliver, hn]
    rw [hnew, hnew]
    refine ⟨h.deliver_new hf hu (Nat.zero_lt_of_lt hn) hlen hwhole, fun a ha hs => ?_,
      (Frame.malloc hq n).ptr, (Frame.malloc hq n).heap⟩
    exact store_outside _ _ _ fun hin => hf _ _ a ⟨hin.1, by have := hin.2; omega⟩ hs
  · have hold : ∀ s : Store, s.deliver alloc q room n bs = s.write (s.ptr q) bs :=
      fun s => by simp [Store.deliver, hn]
    rw [hold, hold]
    by_cases hbs : bs = []
    · subst hbs
      have hnil : ∀ s : Store, s.write (s.ptr q) [] = s := fun s => by simp [Store.write]
      rw [hnil, hnil]
      exact ⟨h, .refl own s⟩
    · have hpos : 0 < room := by
        have := List.length_pos_iff.mpr hbs
        omega
      have heq := h.ptr_eq hu hq (hroom _ ⟨Nat.le_refl _, Nat.lt_add_of_pos_right hpos⟩)
      have hin : ∀ a, InRange (s.ptr q) bs.length a → own.bytes a := by
        rw [heq]
        exact fun a ha => hroom a ⟨ha.1, by have := ha.2; omega⟩
      refine ⟨?_, frame_write hin⟩
      rw [← heq]
      exact h.write hu hin

end

end Regions

import PhyCom2G4.Answers

/-!
# What a wait with callbacks comes to

`get_resp_while_handling_abortreeval_s` answers re-evaluations with the abort
callback until another header comes. `await` computes from the callback and
the bytes to come how that goes, and `run_getResp` says the loop does just
that; its fuel, the length of the stream, always suffices.
-/

namespace PhyCom2G4

open Bytes Memory Program Program.Prog LibPhyCom

variable [LibPhyCom]

inductive Ending
  /-- A header comes short. -/
  | cut
  /-- The callback refuses to give an abort structure. -/
  | refused (rest : List Byte)
  | got (h : PcHeader) (rest : List Byte)
  deriving DecidableEq

/-- The answers given, the callbacks made by the end, the abort structure as
it is left, and how the wait ended. -/
structure Wait where
  answers : List Abort
  calls : List Callback
  abort : Abort
  ending : Ending

/-- `askAbortF` as a function. -/
def asked (f : Option DevAbortReevalF) (calls : List Callback) (abort : Abort) :
    Int32 × Abort × List Callback :=
  match f with
  | some f => ((f calls abort).1, (f calls abort).2,
      calls ++ [.abortReeval abort (f calls abort).1])
  | none => (0, { abort with recheckTime := timeNever }, calls)

def await (f : Option DevAbortReevalF) : List Callback → Abort → List Byte → Wait
  | calls, abort, b₀ :: b₁ :: b₂ :: b₃ :: rest =>
    if (parse [b₀, b₁, b₂, b₃] : PcHeader) = msgAbortreeval then
      if (asked f calls abort).1 = 0 then
        let W := await f (asked f calls abort).2.2 (asked f calls abort).2.1 rest
        { W with answers := (asked f calls abort).2.1 :: W.answers }
      else ⟨[], (asked f calls abort).2.2, (asked f calls abort).2.1, .refused rest⟩
    else ⟨[], calls, abort, .got (parse [b₀, b₁, b₂, b₃]) rest⟩
  | calls, abort, _ => ⟨[], calls, abort, .cut⟩

theorem await_cut (hs : split (sizeof PcHeader) s = none) :
    await f calls abort s = ⟨[], calls, abort, .cut⟩ := by
  have hl : s.length < 4 := split_eq_none.mp hs
  match s, hl with
  | [], _ | [_], _ | [_, _], _ | [_, _, _], _ => rfl

theorem await_header (hs : split (sizeof PcHeader) s = some (hb, rest)) :
    await f calls abort s =
      if (parse hb : PcHeader) = msgAbortreeval then
        if (asked f calls abort).1 = 0 then
          let W := await f (asked f calls abort).2.2 (asked f calls abort).2.1 rest
          { W with answers := (asked f calls abort).2.1 :: W.answers }
        else ⟨[], (asked f calls abort).2.2, (asked f calls abort).2.1, .refused rest⟩
      else ⟨[], calls, abort, .got (parse hb) rest⟩ := by
  obtain ⟨rfl, hl⟩ := split_eq_some.mp hs
  match hb, (hl : hb.length = 4) with
  | [_, _, _, _], _ => rfl

def reevals (n : Nat) : List Byte := (List.replicate n (bytes msgAbortreeval)).flatten

/-- How a wait ends on the bytes `s`, once the re-evaluations before are taken. -/
def Ending.Of (s : List Byte) : Ending → Prop
  | .cut => s.length < sizeof PcHeader
  | .refused rest => s = bytes msgAbortreeval ++ rest
  | .got h rest => s = bytes h ++ rest ∧ h ≠ msgAbortreeval

/-- The callbacks of a wait: each accepted, but for the last one when it refused. -/
def Ending.Asked (cs : List Callback) : Ending → Prop
  | .refused _ => ∃ a ret, .abortReeval a ret ∈ cs ∧ ret ≠ 0
  | _ => ∀ c ∈ cs, ∃ a, c = .abortReeval a 0

theorem asked_calls (f : Option DevAbortReevalF) (calls : List Callback) (abort : Abort) :
    ∃ cs, (asked f calls abort).2.2 = calls ++ cs ∧
      (∀ c ∈ cs, c = .abortReeval abort (asked f calls abort).1) ∧
      ((asked f calls abort).1 ≠ 0 → cs ≠ []) := by
  cases f with
  | none => exact ⟨[], (List.append_nil _).symm, by simp, fun h => absurd rfl h⟩
  | some f => exact ⟨[_], rfl, by simp [asked], by simp⟩

theorem await_of (f : Option DevAbortReevalF) (calls : List Callback) (abort : Abort)
    (s : List Byte) :
    ∃ s' cs, s = reevals (await f calls abort s).answers.length ++ s' ∧
      (await f calls abort s).ending.Of s' ∧ (await f calls abort s).calls = calls ++ cs ∧
      (await f calls abort s).ending.Asked cs := by
  induction hn : s.length using Nat.strongRecOn generalizing calls abort s with
  | ind n ih =>
    subst hn
    cases hs : split (sizeof PcHeader) s with
    | none =>
      rw [await_cut hs]
      exact ⟨s, [], rfl, split_eq_none.mp hs, (List.append_nil _).symm, by simp [Ending.Asked]⟩
    | some r =>
      obtain ⟨hb, s'⟩ := r
      rw [await_header hs]
      obtain ⟨hd, rfl, rfl⟩ := split_sizeof hs
      rw [parse_bytes]
      by_cases hre : hd = msgAbortreeval
      · obtain ⟨cs, hcalls, hcs, hne⟩ := asked_calls f calls abort
        by_cases hret : (asked f calls abort).1 = 0
        · rw [if_pos hre, if_pos hret]
          have hlt : s'.length < (bytes hd ++ s').length := by
            have h4 : sizeof PcHeader = 4 := rfl
            simp [h4]
          obtain ⟨s'', cs', hs', hof, hcalls', hasked⟩ :=
            ih _ hlt (asked f calls abort).2.2 (asked f calls abort).2.1 s' rfl
          refine ⟨s'', cs ++ cs', ?_, hof, by rw [hcalls', hcalls, List.append_assoc], ?_⟩
          · rw [hre]
            simpa [reevals, List.replicate_succ] using hs'
          · generalize (await f (asked f calls abort).2.2 (asked f calls abort).2.1 s').ending = e
              at hasked ⊢
            have hcs' : ∀ c ∈ cs, ∃ a, c = .abortReeval a 0 := fun c hc =>
              ⟨abort, by rw [hcs c hc, hret]⟩
            cases e with
            | refused rest =>
              obtain ⟨a, ret, hm, hne⟩ := hasked
              exact ⟨a, ret, List.mem_append_right _ hm, hne⟩
            | _ => exact fun c hc => (List.mem_append.mp hc).elim (hcs' c) (hasked c)
        · rw [if_pos hre, if_neg hret]
          obtain ⟨c, cs, rfl⟩ := List.exists_cons_of_ne_nil (hne hret)
          refine ⟨_, _, rfl, by rw [hre]; rfl, hcalls, abort, _, ?_, hret⟩
          rw [← hcs c (by simp)]
          simp
      · rw [if_neg hre]
        exact ⟨_, [], rfl, ⟨rfl, hre⟩, (List.append_nil _).symm, by simp [Ending.Asked]⟩

theorem await_got {f : Option DevAbortReevalF} {s : List Byte}
    (hW : (await f calls abort s).ending = .got h rest) :
    h ≠ msgAbortreeval ∧
      s = reevals (await f calls abort s).answers.length ++ (bytes h ++ rest) := by
  obtain ⟨s', cs, hs, hof, -⟩ := await_of f calls abort s
  rw [hW] at hof
  exact ⟨hof.2, hof.1 ▸ hs⟩

def Wait.header (W : Wait) : PcHeader :=
  match W.ending with
  | .got h _ => h
  | _ => -1

def answerEvents (answers : List Abort) : List Event :=
  answers.flatMap fun a => [.read (sizeof PcHeader), .msg msgRerespAbortreeval (bytes a)]

@[simps -fullyApplied]
def Wait.answered (W : Wait) (w : World) : World :=
  { w.sent (answerEvents W.answers) with calls := W.calls }

def Wait.world (W : Wait) (w : World) : World :=
  match W.ending with
  | .cut => (W.answered w).cut (sizeof PcHeader)
  | .refused rest =>
    ((W.answered w).took (sizeof PcHeader) rest).shut [.msg msgDisconnect []]
  | .got _ rest => (W.answered w).took (sizeof PcHeader) rest

section
variable {w : World}

theorem run_askAbortF (abort : Abort) :
    (askAbortF abort).run w =
      (.ok ((asked w.abortF w.calls abort).1, (asked w.abortF w.calls abort).2.1),
        { w with calls := (asked w.abortF w.calls abort).2.2 }) := by
  obtain ⟨link, nc, abortF, mem, ptr, heap, calls⟩ := w
  cases abortF <;> rfl

theorem run_devDoAbortReevalS (hc : w.link.connected = true) (abort : Abort) :
    (devDoAbortReevalS abort).run w =
      let a := asked w.abortF w.calls abort
      let w := { w with calls := a.2.2 }
      if a.1 = 0 then (.ok (0, a.2.1), w.sent [.msg msgRerespAbortreeval (bytes a.2.1)])
      else (.ok (-1, a.2.1), w.shut [.msg msgDisconnect []]) := by
  simp only [devDoAbortReevalS, run_bind, run_askAbortF, run_ite]
  rw [run_devDisconnect (by exact hc)]
  by_cases h : (asked w.abortF w.calls abort).1 = 0 <;> simp [h]

theorem answered_cons (W : Wait) (a : Abort) (calls : List Callback) (rest : List Byte) :
    Wait.world { W with answers := a :: W.answers } w =
      W.world (({ w with calls }.took (sizeof PcHeader) rest).sent
        [.msg msgRerespAbortreeval (bytes a)]) := by
  unfold Wait.world
  cases W.ending <;>
    simp [Wait.answered, answerEvents, World.sent, World.cut, World.took, World.shut,
      PbDevState.add, PbDevState.shut]

@[simp] theorem answered_nil (calls : List Callback) (abort : Abort) (e : Ending) :
    Wait.answered ⟨[], calls, abort, e⟩ w = { w with calls } := by
  simp [Wait.answered, answerEvents, World.sent, PbDevState.add]

theorem run_getRespLoop (hc : w.link.connected = true) (fuel : Nat) (abort : Abort)
    (hf : w.link.ptd.length < fuel) :
    (getRespLoop fuel abort).run w =
      let W := await w.abortF w.calls abort w.link.ptd
      (.ok (W.header, W.abort), W.world w) := by
  induction fuel generalizing w abort with
  | zero => omega
  | succ fuel ih =>
    simp only [getRespLoop, run_bind, run_devReadHeader hc]
    cases hs : split (sizeof PcHeader) w.link.ptd with
    | none =>
      simp [await_cut hs, Wait.header, Wait.world]
    | some r =>
      obtain ⟨hb, rest⟩ := r
      have hlen : rest.length < fuel := by
        obtain ⟨hptd, hl⟩ := split_eq_some.mp hs
        have h4 : sizeof PcHeader = 4 := rfl
        rw [hptd, List.length_append] at hf
        omega
      rw [await_header hs]
      simp only [readOk_ne, if_false, run_ite, run_bind, run_pure]
      rw [run_devDoAbortReevalS (by exact hc)]
      by_cases hre : (parse hb : PcHeader) = msgAbortreeval
      · by_cases hret : (asked w.abortF w.calls abort).1 = 0
        · simp only [hre, World.took_abortF, World.took_calls, hret, if_true]
          rw [if_neg (show ¬(0 : Int32) = -1 by decide), ih (by exact hc) _ hlen]
          simp only [World.sent_abortF, World.sent_link, World.took_link_ptd, PbDevState.add_ptd]
          rw [answered_cons _ _ (asked w.abortF w.calls abort).2.2 rest]
          rfl
        · simp [hre, hret, Wait.header, Wait.world]
          rfl
      · simp [hre, Wait.header, Wait.world]

/-- The wait of the family with callbacks; the stream's length is fuel enough. -/
theorem run_getResp (hc : w.link.connected = true) (abort : Abort) :
    (getRespWhileHandlingAbortreevalS abort).run w =
      let W := await w.abortF w.calls abort w.link.ptd
      (.ok (W.header, W.abort), W.world w) := by
  rw [getRespWhileHandlingAbortreevalS, run_bind, run_get]
  exact run_getRespLoop hc _ abort (Nat.lt_succ_self _)

end

end PhyCom2G4

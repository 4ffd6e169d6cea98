import PhyCom2G4.Interference
import PhyCom2G4.Parallel

/-!
# Measurements on the side

RSSI measurements, those in the middle of a reception among them, and waits leave the
rest of a run as it was. Without them and their answers each other call of the
family returns, says, reads and stores what it does with them, as long as it sends
nothing of what they measured (`asides_left_out`).
-/

namespace PhyCom2G4

open Bytes Memory Runs Program Program.Prog LibPhyCom

variable [LibPhyCom]

-- ---------------------------------------------------------------------------
-- Calls and their answers
-- ---------------------------------------------------------------------------

def NcReq.aside (c : NcReq) : Bool :=
  match c.listener with
  | some (.rssi _) | some .wait => true
  | _ => false

structure Served where
  call : NcReq
  bs : List Byte

def Served.exec (i : Served) (w : World) : Except Stop Int32 × World :=
  i.call.exec.run (w.ahead i.bs)

/-- A measurement or wait with the whole of its answer and no more, which is stored where
`aside` says; `l` is what it waits for. -/
structure Served.Answered (aside : Addr → Prop) (i : Served) (w : World) (l : Listener) :
    Prop where
  listener : i.call.listener = some l
  connected : w.link.connected = true
  passes : i.call.passes w.nc = true
  nothing : w.link.ptd = []
  answer : ∃ h done, i.bs = bytes h ++ done ∧ l.endsWith h = true ∧ done.length = l.sizeofDone
  stored : ∀ a, InRange (l.doneS w.nc) l.sizeofDone a → aside a

/-- Any other call sends nothing of what is stored there. -/
def Served.Proper (aside : Addr → Prop) (i : Served) (w : World) : Prop :=
  if i.call.aside then ∃ l, i.Answered aside w l
  else ∀ a, InRange i.call.payload.1 i.call.payload.2 a → ¬ aside a

-- ---------------------------------------------------------------------------
-- A run with and without them
-- ---------------------------------------------------------------------------

def AsideEvents (es : List Event) : Prop :=
  ∃ (c : NcReq) (l : Listener) (mem : Mem), c.aside = true ∧ c.listener = some l ∧
    es = c.events mem ++ .read (sizeof PcHeader) :: l.doneReads

section
variable {aside : Addr → Prop} {w w' : World}

theorem aside_spec {c : NcReq} (hc : c.aside = true) (hlis : c.listener = some l) :
    (l = .wait ∨ ∃ d, l = .rssi d) ∧ ∀ nc, c.notes nc = nc := by
  cases c with
  | wait s =>
    cases hlis
    exact ⟨.inl rfl, fun _ => rfl⟩
  | immRSSI s d | rssi s d | rssiv2 s d =>
    cases hlis
    exact ⟨.inr ⟨d, rfl⟩, fun _ => rfl⟩
  | rxCont b => cases b <;> cases hc
  | rxv2Cont b => cases b <;> cases hc
  | _ => cases hc

theorem heed_aside {l : Listener} (hl : l = .wait ∨ ∃ d, l = .rssi d) (hend : l.endsWith hd = true)
    {done : List Byte} (hlen : done.length = l.sizeofDone) (nc : DevStateNc) :
    l.heed nc hd done = .ended hd done [] := by
  have hdis : hd ≠ msgDisconnect := by
    rintro rfl
    obtain rfl | ⟨d, rfl⟩ := hl
    · simp [Listener.endsWith, Ne.symm waitEnd_ne_disconnect] at hend
    · simp [Listener.endsWith, Ne.symm rssiEnd_ne_disconnect,
        Ne.symm immrssiRrsiDone_ne_disconnect] at hend
  have hs : split l.sizeofDone (done ++ []) = some (done, []) := split_append hlen
  rw [List.append_nil] at hs
  obtain rfl | ⟨d, rfl⟩ := hl <;>
    simp only [Listener.heed, Listener.reeval, Option.isSome_none, Bool.false_eq_true, false_and,
      if_false, Listener.finds, if_neg hdis, hend, if_true, hs]

theorem elsewhere_aside (h : Elsewhere AsideEvents aside w w') {i : Served}
    (hi : i.call.aside = true) (ha : i.Answered aside w l) :
    Elsewhere AsideEvents aside (i.exec w).2 w' := by
  obtain ⟨c, bs⟩ := i
  obtain ⟨hlis, hc, hpass, hnil, ⟨hd, done, rfl, hend, hlen⟩, hstored⟩ := ha
  obtain ⟨hl, hnotes⟩ := aside_spec hi hlis
  have hheard : l.hear (c.notes w.nc) (bytes hd ++ done) = .ended hd done [] := by
    rw [hear_bytes]
    exact heed_aside hl hend hlen _
  have hlog := h.log.more ⟨c, l, w.mem, hi, hlis, rfl⟩
  have hout : ∀ a, ¬ aside a → ¬ InRange (l.doneS w.nc) done.length a := fun a ha hin =>
    ha (hstored a (hlen ▸ hin))
  have hspoken : c.spoken w = w.sent (c.events w.mem) := by
    rw [NcReq.spoken, hnotes]
    rfl
  unfold Served.exec
  rw [run_exec_next hc hpass hlis hnil, hheard]
  simp only [Heard.outcome, hspoken]
  obtain rfl | ⟨d, rfl⟩ := hl
  · obtain rfl : done = [] := List.length_eq_zero_iff.mp hlen
    refine ⟨h.connected, h.ptd.trans hnil, ?_, h.nc, h.abortF, h.mem, h.ptr, h.heap, h.calls⟩
    simpa [Listener.doneReads, Heard.world, Listener.clear, World.tookDone] using hlog
  · refine ⟨h.connected, h.ptd.trans hnil, ?_, h.nc, h.abortF, fun a ha => ?_, h.ptr, h.heap,
      h.calls⟩
    · simpa [Listener.doneReads, Heard.world, Listener.clear, World.tookDone] using hlog
    · exact (h.mem a ha).trans (store_outside _ _ _ (hout a ha)).symm

theorem elsewhere_other (h : Elsewhere AsideEvents aside w w') {i : Served}
    (hsent : ∀ a, InRange i.call.payload.1 i.call.payload.2 a → ¬ aside a) :
    (i.exec w').1 = (i.exec w).1 ∧ Elsewhere AsideEvents aside (i.exec w).2 (i.exec w').2 := by
  have hahead : Elsewhere AsideEvents aside (w.ahead i.bs) (w'.ahead i.bs) := h.fed i.bs
  refine (parallel_elsewhere AsideEvents aside).exec hahead (i.call.events_congr ?_)
  exact load_congr fun a ha => h.mem a (hsent a ha)

/-- Measurements and waits may be left out of a run of the family, with their answers. -/
theorem asides_left_out (aside : Addr → Prop) (run : List Served) (w : World)
    (hproper : Along (fun i w => (Served.exec i w).2) (Served.Proper aside) run w) :
    outputs Served.exec (run.filter fun i => !i.call.aside) w =
        ((run.zip (outputs Served.exec run w)).filter fun x => !x.1.call.aside).map Prod.snd ∧
      Elsewhere AsideEvents aside (last Served.exec run w)
        (last Served.exec (run.filter fun i => !i.call.aside) w) := by
  refine left_out (fun i s t h hp ha => ?_) (fun i s t h hp ha => ?_)
    (.refl AsideEvents aside w) hproper
  · rw [Served.Proper, if_pos ha] at hp
    obtain ⟨l, hl⟩ := hp
    exact elsewhere_aside h ha hl
  · rw [Served.Proper, if_neg (by simp [ha])] at hp
    exact elsewhere_other h hp

end

end PhyCom2G4

namespace PhyCom2G4

open Bytes Memory Runs Program Program.Prog

attribute [local instance] LibPhyCom.posix

/-- Two immediate measurements at a re-evaluation of a reception, and a wait after it. -/
theorem asides_left_out_rx :
    let rssi : Served := ⟨.immRSSI (parse []) 64, bytes msgImmrssiRrsiDone ++ [0, 0, 0, 0]⟩
    let run : List Served := [⟨.rx (parse []) 0 0 0, bytes msgAbortreeval⟩, rssi, rssi,
      ⟨.newRxAbort (parse []), bytes msgRxEnd ++ bytes (parse [] : RxDone)⟩,
      ⟨.wait (parse []), bytes LibPhyCom.msgWaitEnd⟩]
    outputs Served.exec (run.filter fun i => !i.call.aside) (World.start []) =
        ((run.zip (outputs Served.exec run (World.start []))).filter fun x =>
          !x.1.call.aside).map Prod.snd ∧
      Elsewhere AsideEvents (InRange 64 4) (last Served.exec run (World.start []))
        (last Served.exec (run.filter fun i => !i.call.aside) (World.start [])) := by
  intro rssi run
  have hnone : ∀ a, ¬ InRange 0 0 a := fun a ha => by
    have := ha.2
    omega
  refine asides_left_out (InRange 64 4) run (World.start []) ⟨fun a ha => ?_, ⟨.rssi 64, ?_⟩,
    ⟨.rssi 64, ?_⟩, fun a ha => ?_, ⟨.wait, ?_⟩, trivial⟩
  · exact absurd ha (hnone a)
  · exact ⟨rfl, by decide +kernel, by decide +kernel, by decide +kernel,
      ⟨_, _, rfl, by decide, by decide⟩, fun a => id⟩
  · exact ⟨rfl, by decide +kernel, by decide +kernel, by decide +kernel,
      ⟨_, _, rfl, by decide, by decide⟩, fun a => id⟩
  · exact absurd ha (hnone a)
  · refine ⟨rfl, by decide +kernel, by decide +kernel, by decide +kernel,
      ⟨_, [], (List.append_nil _).symm, by decide, rfl⟩, fun a ha => absurd ha ?_⟩
    exact hnone a

end PhyCom2G4

import PhyCom2G4.Guards

/-!
# Receptions of two versions

The same two values of `ongoing` stand for a reception of either version, so
the guards let a call of one version continue a reception of the other; its
handler does not know the answer. A device that keeps to the version of its
last request is safe from that, whatever else it calls: no answer ends in
INVALID_RESP, and it is stored where that request said
(`in_version_iff`).
-/

namespace PhyCom2G4

open Bytes Memory Program Program.Prog Runs LibPhyCom

variable [LibPhyCom]

def NcReq.continues : NcReq → Bool
  | .newRxAbort _ | .newRxv2Abort _ | .rxCont _ | .rxv2Cont .. => true
  | _ => false

/-- A call that goes on with a reception is of the version of the request. -/
def Move.KeepsVersion (m : Move) (s : Sys) : Prop :=
  s.stop = none → match m with
    | .call c _ => c.continues = true → c.Speaks s.world → ∀ v v', c.listener = some (.rx v) →
        s.opened.bind NcReq.listener = some (.rx v') → v = v'
    | _ => True

/-- The answer to a call that continues a reception is read by the handler of the
version that opened it, accepted, and stored where the request that opened it
said. -/
structure NcReq.Continues (c : NcReq) (answer : Option PhyMsg) (s : Sys) : Prop where
  handler : ∀ v found l, s.phy.recv (c.message s.world.mem) = .busy (.rx v found) →
    c.listener = some l → l = .rx v
  accepted : ∀ m, answer = some m → ∃ req doneS rxBuf bufSize,
    s.opened = some req ∧ req.doneS = some doneS ∧ req.buffer = some (rxBuf, bufSize) ∧
      c.Takes m doneS rxBuf bufSize s
  silent : answer = none → (c.exec.run s.world).2.store = s.world.store ∧
    ∀ h, (c.exec.run s.world).1 ≠ .error (.invalidResp h)

def Move.InVersion (m : Move) (s : Sys) : Prop :=
  s.stop = none → match m with
    | .call c answer => c.continues = true → c.Speaks s.world → c.Continues answer s
    | _ => True

/-- No answer was not understood. The phy may be idle where the device takes it
to be in a transaction, or lost. -/
structure Sys.Tracked (s : Sys) : Prop where
  understood : ∀ h, s.stop ≠ some (.invalidResp h)
  synced : s.stop = none → s.world.link.connected = true → s.world.link.ptd = [] ∧
    (s.phy = .fault ∨ s.phy = .idle ∨ s.phy.Synced s.opened s.world.nc)

section
variable {p q : Phy} {m : PhyMsg} {l : Listener} {c : NcReq} {nc : DevStateNc} {s : Sys}
  {opened : Option NcReq}

theorem continues_opens (hc : c.continues = true) : c.opens = none := by
  cases c <;> first | rfl | simp [NcReq.continues] at hc

theorem busy_of_continues (hcont : c.continues = true) (hl : c.listener = some l)
    (ht : p.Tuned l nc) : ∃ v found, p = .busy (.rx v found) := by
  have hrx : ∃ v, l = .rx v := by
    cases c <;> simp only [NcReq.continues, Bool.false_eq_true] at hcont
    case rxCont devAccepts =>
      cases devAccepts <;> simp only [NcReq.listener, Option.some.injEq, reduceCtorEq] at hl
      exact ⟨_, hl.symm⟩
    case rxv2Cont devAccepts abort =>
      cases devAccepts <;> simp only [NcReq.listener, Option.some.injEq, reduceCtorEq] at hl
      exact ⟨_, hl.symm⟩
    all_goals exact ⟨_, (Option.some.inj hl).symm⟩
  obtain ⟨v, rfl⟩ := hrx
  revert ht
  cases p with
  | busy k =>
    cases k with
    | rx v' found => exact fun _ => ⟨v', found, rfl⟩
    | _ => rintro ⟨⟩
  | rssi | immRssi => rintro ⟨d, ⟨⟩⟩
  | waiting => rintro ⟨⟩
  | _ => exact False.elim

theorem version_of_awaited (haw : p.Awaited l opened nc) (hp : p = .busy (.rx v found)) :
    opened.bind NcReq.listener = some (.rx v) ∧ ∃ v', l = .rx v' := by
  subst hp
  obtain ⟨req, hreq, hreg⟩ := haw.held _ rfl
  exact ⟨by rw [hreq]; exact hreg.listener, haw.tuned.1⟩

theorem understood_of_version (ha : p.Answers m q) (haw : p.Awaited l opened nc)
    (hv : ∀ v v', l = .rx v → opened.bind NcReq.listener = some (.rx v') → v = v') :
    m.Understood l := by
  cases ha with
  | addressfound v done packet =>
    obtain ⟨hopened, v', rfl⟩ := version_of_awaited haw rfl
    exact congrArg Listener.rx (hv v' v rfl hopened)
  | rxEnd v found done =>
    obtain ⟨hopened, v', rfl⟩ := version_of_awaited haw rfl
    exact congrArg Listener.rx (hv v' v rfl hopened)
  | _ => trivial

theorem KeepsVersion.listener (hk : Move.KeepsVersion (.call c answer) s) (hrun : s.stop = none)
    (hsp : c.Speaks s.world) (hl : c.listener = some l) :
    ∀ v v', l = .rx v →
      (if c.opens.isSome then some c else s.opened).bind NcReq.listener = some (.rx v') →
        v = v' := by
  rintro v v' rfl hv'
  cases ho : c.opens with
  | some k =>
    rw [ho] at hv'
    have hsame : c.listener = some (.rx v') := hv'
    rw [hl] at hsame
    exact Listener.rx.inj (Option.some.inj hsame)
  | none =>
    rw [ho] at hv'
    have hcont : c.continues = true := by
      cases c <;> simp only [NcReq.opens, reduceCtorEq, NcReq.listener, Option.some.injEq] at ho hl
      all_goals rfl
    exact hk hrun hcont hsp v v' hl hv'

-- ---------------------------------------------------------------------------
-- One step
-- ---------------------------------------------------------------------------

theorem tracked_speaks (hs : s.Tracked) (hrun : s.stop = none) (hsp : c.Speaks s.world)
    (hm : (s.phy.recv (c.message s.world.mem)).Follows answer)
    (hk : Move.KeepsVersion (.call c answer) s) : (s.call c answer).Tracked := by
  obtain ⟨hptd, hsync⟩ := hs.synced hrun hsp.1
  obtain ⟨hsome, hnone⟩ := answer_of_follows hm
  rcases recv_astray hsync hsp.2 s.world.mem with hq | ⟨hl, hq⟩ | ⟨l, hl, haw⟩
  · obtain rfl := hnone (by rw [hq]; rfl)
    cases hl : c.listener with
    | none =>
      rw [call_reject hsp hl, hq]
      exact ⟨by simp, fun _ _ => ⟨hptd, .inl rfl⟩⟩
    | some l =>
      rw [call_silent hsp hl hptd, hq]
      exact ⟨by simp, fun _ h => by simp at h⟩
  · obtain rfl := hnone (by rw [hq]; rfl)
    rw [call_reject hsp hl, hq]
    exact ⟨by simp, fun _ _ => ⟨hptd, .inr (.inl rfl)⟩⟩
  · obtain ⟨m, q, rfl, ha⟩ := hsome haw.owes
    have hans := answers_of_answer ha
    have hu := understood_of_version hans haw (KeepsVersion.listener hk hrun hsp hl)
    rw [call_answered hsp hl hptd ha haw.tuned hu]
    refine ⟨by simp, fun _ hc => ?_⟩
    obtain ⟨hclosed, hread⟩ := link_answered hsp hans haw.tuned
    have hopen : m.closes (c.notes s.world.nc).bufsize = false := by
      simpa using hclosed.symm.trans hc
    refine ⟨hread hopen, ?_⟩
    dsimp only
    rw [tooBig_of_open hopen]
    rcases synced_answer (w := c.spoken (s.world.fed (some m))) hans haw hu hopen with h | h
    · exact .inr (.inr h)
    · exact .inr (.inl h.2.1)

theorem tracked_leave {act : M Unit} (ha : Leaves act) (hs : s.Tracked) :
    (s.leave act).Tracked := by
  obtain ⟨hstop, -, hclosed, -⟩ := leave_spec (s := s) ha
  exact ⟨fun h => hstop ▸ hs.understood h, fun _ h => by simp [hclosed] at h⟩

theorem tracked_initCom {act : M Int32} {o : OngoingTransaction → OngoingTransaction} {d : UInt32}
    {n p : String} (ha : Opens d n p act o) (hs : s.Tracked)
    (hm : s.world.link.connected = false ∨ (pbDevInitCom d n p s.world.link).1 = 0) :
    (s.initCom act d n p).Tracked := by
  obtain ⟨hstop, -, hrest⟩ := initCom_spec ha hm
  refine ⟨fun h => hstop ▸ hs.understood h, fun _ hc => ?_⟩
  split at hrest
  next =>
    obtain ⟨hlink, hphy, -, -⟩ := hrest
    exact ⟨by rw [hlink], .inr (.inl hphy)⟩
  next => simp [hrest.1] at hc

theorem tracked_exec (m : Move) (s : Sys) (hs : s.Tracked) (hm : m.Proper s ∧ m.KeepsVersion s) :
    (m.exec s).Tracked := by
  cases hrun : s.stop with
  | some e =>
    rw [exec_of_stop (by simp [hrun])]
    exact hs
  | none =>
  obtain ⟨hm, hk⟩ := hm
  replace hm := hm hrun
  rw [exec_of_running hrun]
  cases m with
  | call c answer =>
    dsimp only at hm ⊢
    by_cases hsp : c.Speaks s.world
    · rw [if_pos hsp] at hm
      exact tracked_speaks hs hrun hsp hm hk
    · rw [if_neg hsp] at hm
      subst hm
      cases hc : s.world.link.connected with
      | false =>
        rw [call_closed hc]
        exact ⟨by simp, fun _ h => by simp [hc] at h⟩
      | true =>
        rw [call_stopped hc (by simpa [NcReq.Speaks, hc] using hsp)]
        exact ⟨by simp, fun h => by simp at h⟩
  | disconnect => exact tracked_leave .disconnect hs
  | terminate => exact tracked_leave .terminate hs
  | initComSNc d n p => exact tracked_initCom .comSNc hs hm
  | initcomNc d n p => exact tracked_initCom .comNc hs hm
  | device mem ptr heap => exact ⟨by simp [hrun], fun _ hc => hs.synced hrun hc⟩

-- ---------------------------------------------------------------------------
-- What a call that continues a reception does
-- ---------------------------------------------------------------------------

theorem continues_of_awaited (hcont : c.continues = true) (hsp : c.Speaks s.world)
    (hl : c.listener = some l) (hptd : s.world.link.ptd = [])
    (ha : (s.phy.recv (c.message s.world.mem)).Answers m q)
    (haw : (s.phy.recv (c.message s.world.mem)).Awaited l s.opened s.world.nc)
    (hu : m.Understood l)
    (hv : ∀ v v', l = .rx v → s.opened.bind NcReq.listener = some (.rx v') → v = v') :
    c.Continues (some m) s := by
  have ho := continues_opens hcont
  have hnotes := notes_of_not_opens ho s.world.nc
  obtain ⟨v, found, hq⟩ := busy_of_continues hcont hl haw.tuned
  have hhandler : l = .rx v := by
    obtain ⟨hopened, v', rfl⟩ := version_of_awaited haw hq
    exact congrArg Listener.rx (hv v' v rfl hopened)
  refine ⟨fun v' found' l' hq' hl' => ?_, fun m' hm' => ?_, by simp⟩
  · obtain ⟨rfl, -⟩ : v = v' ∧ found = found' := by simpa [hq] using hq'
    rw [← hhandler]
    exact Option.some.inj (hl'.symm.trans hl)
  · obtain rfl := Option.some.inj hm'
    obtain ⟨req, hreq, hreg⟩ := haw.held (.rx v found) (by rw [hq]; rfl)
    have htakes := takes_answered hsp hl hptd ha (hnotes.symm ▸ haw.tuned) hu
    rw [hnotes, hhandler] at htakes
    exact ⟨req, _, _, _, hreq, hreg.doneS, (hreg.reception v found rfl).1, htakes⟩

theorem inVersion_of_tracked (m : Move) (s : Sys) (hs : s.Tracked)
    (hm : m.Proper s ∧ m.KeepsVersion s) : m.InVersion s := by
  intro hrun
  obtain ⟨hm, hk⟩ := hm
  replace hm := hm hrun
  cases m with
  | call c answer =>
    intro hcont hsp
    dsimp only at hm
    rw [if_pos hsp] at hm
    obtain ⟨hptd, hsync⟩ := hs.synced hrun hsp.1
    obtain ⟨hsome, hnone⟩ := answer_of_follows hm
    have ho := continues_opens hcont
    have hsilent : (c.exec.run s.world).2.store = s.world.store ∧
        ∀ h, (c.exec.run s.world).1 ≠ .error (.invalidResp h) :=
      ⟨(exec_silent hsp hptd).1, fun h he => by simp [(exec_silent hsp hptd).2] at he⟩
    rcases recv_astray hsync hsp.2 s.world.mem with hq | ⟨-, hq⟩ | ⟨l, hl, haw⟩
    · obtain rfl := hnone (by rw [hq]; rfl)
      exact ⟨by simp [hq], by simp, fun _ => hsilent⟩
    · obtain rfl := hnone (by rw [hq]; rfl)
      exact ⟨by simp [hq], by simp, fun _ => hsilent⟩
    · obtain ⟨m, q, rfl, ha⟩ := hsome haw.owes
      have hv := KeepsVersion.listener hk hrun hsp hl
      have hu := understood_of_version (answers_of_answer ha) haw hv
      rw [ho] at haw hv
      rw [notes_of_not_opens ho] at haw
      exact continues_of_awaited hcont hsp hl hptd (answers_of_answer ha) haw hu hv
  | _ => trivial

theorem Sys.Idle.tracked (h : s.Idle) : s.Tracked :=
  ⟨by simp [h.stop], fun _ _ => ⟨h.ptd, .inr (.inl h.phy)⟩⟩

/-- A call in step that continues the reception is of its version. -/
theorem keepsVersion_of_kept (m : Move) (s : Sys) (hs : s.Kept) (hst : ¬ m.Strays s)
    (hin : m.InVersion s) : m.KeepsVersion s := by
  intro hrun
  have hin := hin hrun
  cases m with
  | call c answer =>
    intro hcont hsp v v' hl hv'
    have ho := continues_opens hcont
    have hsync := (hs.synced hrun hsp.1).2
    rcases recv_synced hsync hsp.2 s.world.mem with h | ⟨-, ⟨hn, -⟩ | ⟨l, hl', haw⟩⟩
    · exact absurd ⟨hrun, hsp, h.1⟩ hst
    · simp [hl] at hn
    · obtain rfl := Option.some.inj (hl'.symm.trans hl)
      rw [ho] at haw
      obtain ⟨v'', found, hq⟩ := busy_of_continues hcont hl haw.tuned
      obtain ⟨hopened, -⟩ := version_of_awaited haw hq
      obtain rfl : v'' = v' := Listener.rx.inj (Option.some.inj (hopened.symm.trans hv'))
      exact Listener.rx.inj ((hin hcont hsp).handler v'' found _ hq hl)
  | _ => trivial

/-- As long as each call that goes on with a reception is of its version, no answer
ends in INVALID_RESP and each is stored where the request that opened the
reception said. A device in step has to keep to the version for that. -/
theorem in_version_iff (hs : s.Idle) {moves : List Move}
    (hm : Along Move.exec Move.Proper moves s) :
    (Along Move.exec Move.KeepsVersion moves s →
      (∀ s' ∈ states Move.exec moves s, ∀ h, s'.stop ≠ some (.invalidResp h)) ∧
        Along Move.exec Move.InVersion moves s) ∧
    (Along Move.exec (fun m s => ¬ m.Strays s ∧ ¬ m.OpensOver s) moves s →
      Along Move.exec Move.InVersion moves s → Along Move.exec Move.KeepsVersion moves s) := by
  constructor
  · intro hk
    have hboth := along_and.mpr ⟨hm, hk⟩
    exact ⟨fun s' hs' => (invariant tracked_exec hs.tracked hboth s' hs').understood,
      along_of_invariant tracked_exec inVersion_of_tracked hs.tracked hboth⟩
  · intro hst hin
    refine along_of_invariant (P := Sys.Kept) (fun m s h hmay => ?_) (fun m s h hmay => ?_)
      hs.kept (along_and.mpr ⟨along_and.mpr ⟨hm, hst⟩, hin⟩)
    · exact kept_exec m s h hmay.1.1 hmay.1.2.1 hmay.1.2.2
    · exact keepsVersion_of_kept m s h hmay.1.2.1 hmay.2

end

end PhyCom2G4

namespace PhyCom2G4

open Bytes Program Program.Prog Runs

attribute [local instance] LibPhyCom.posix

/-- A v1 reception is to be re-evaluated, and the new abort structure given with
the v2 call: the v1 end is not understood. -/
theorem rxEnd_of_other_version :
    let moves := [.call (.rx (parse []) 0 0 0) (some .abortreeval),
      .call (.newRxv2Abort (parse [])) (some (.rxEnd .v1 (parse [])))]
    let s := Sys.start (World.start [])
    s.Idle ∧ Along Move.exec Move.Proper moves s ∧ ¬ Along Move.exec Move.InVersion moves s ∧
      ∃ s' ∈ states Move.exec moves s, s'.stop = some (.invalidResp msgRxEnd) := by
  refine ⟨⟨rfl, rfl, rfl, rfl, rfl, rfl⟩, ⟨fun _ => rfl, fun _ => rfl, trivial⟩, ?_,
    _, .tail _ (.tail _ (.head _)), rfl⟩
  rintro ⟨-, hin, -⟩
  have hv := (hin rfl rfl ⟨rfl, rfl⟩).handler .v1 false _ rfl rfl
  cases hv

theorem in_version_iff_rxv2 :
    let moves := [.call (.rxv2 (parse []) 8 64 0 0) (some .abortreeval),
      .call (.newRxv2Abort (parse [])) (some (.addressfound .v2 (parse []) ⟨[], rfl⟩)),
      .call (.rxv2Cont true (parse [])) (some (.rxEnd .v2 (parse [])))]
    let s := Sys.start (World.start [])
    (Along Move.exec Move.KeepsVersion moves s →
      (∀ s' ∈ states Move.exec moves s, ∀ h, s'.stop ≠ some (.invalidResp h)) ∧
        Along Move.exec Move.InVersion moves s) ∧
    (Along Move.exec (fun m s => ¬ m.Strays s ∧ ¬ m.OpensOver s) moves s →
      Along Move.exec Move.InVersion moves s → Along Move.exec Move.KeepsVersion moves s) :=
  in_version_iff ⟨rfl, rfl, rfl, rfl, rfl, rfl⟩
    ⟨fun _ => rfl, fun _ => rfl, fun _ => rfl, trivial⟩

end PhyCom2G4

import PhyCom2G4.Guards

/-!
# A device that takes its turns

A device that calls only what the last return value calls for, with the
functions of the version that opened the transaction, is in step with the phy
for as long as it goes on: no call is stopped by its guard or does not
understand its answer, nothing is left to read after it, and each answer is
where the request that it belongs to wants it (`taken_in_turn`).
-/

namespace PhyCom2G4

open Bytes Memory Program Program.Prog Runs LibPhyCom

variable [LibPhyCom]

def Turn.CallsFor : Turn → NcReq → Bool
  | .free, .tx .. | .free, .txv2 .. | .free, .tx2v1 .. => true
  | .free, .cca .. | .free, .ccav2 .. => true
  | .free, .rx .. | .free, .rxv2 .. | .free, .rx2v1 .. => true
  | .free, .rssi .. | .free, .rssiv2 .. | .free, .wait _ => true
  | .reeval .tx, .newTxAbort _ => true
  | .reeval .cca, .newCcaAbort _ => true
  | .reeval (.rx .v1), .newRxAbort _ => true
  | .reeval (.rx .v2), .newRxv2Abort _ => true
  | .reeval (.rx _), .immRSSI .. => true
  | .verdict .v1, .rxCont _ => true
  | .verdict .v2, .rxv2Cont .. => true
  | _, _ => false

/-- A device may leave at any time, and use its memory between two calls. -/
def Move.InTurn (m : Move) (s : Sys) : Prop :=
  s.stop = none → match m with
    | .call c _ => s.turn.CallsFor c = true
    | .initComSNc .. | .initcomNc .. => False
    | _ => True

def Phy.turn : Phy → Turn
  | .idle => .free
  | .reeval k => .reeval k.listener
  | .verdict v => .verdict v
  | _ => .over

/-- The device goes on, in step with the phy and taking its turn; or one of them
has left. -/
structure Sys.InStep (s : Sys) : Prop extends s.Kept where
  stop : s.stop = none
  turn : s.world.link.connected = true → s.turn = s.phy.turn
  closed : s.world.link.connected = false → s.phy = .off ∧ s.turn = .over

def NcReq.fills (opened : Option NcReq) (c : NcReq) : Option Addr :=
  c.doneS.or (opened.bind NcReq.doneS)

def NcReq.receives (opened : Option NcReq) (c : NcReq) : Option (Addr × Nat) :=
  c.buffer.or (opened.bind NcReq.buffer)

/-- The call returns what the answer is, with all of it where it belongs and
nothing else changed; a rejecting verdict has no answer. -/
def Move.Taken (m : Move) (s : Sys) : Prop :=
  match m with
  | .call c (some m) => ∃ doneS rxBuf bufSize,
    (m.done ≠ [] → c.fills s.opened = some doneS) ∧
      (m.packet ≠ [] → c.receives s.opened = some (rxBuf, bufSize)) ∧
        c.Takes m doneS rxBuf bufSize s
  | .call c none =>
    (c.exec.run s.world).1 = .ok 0 ∧ (c.exec.run s.world).2.store = s.world.store
  | _ => True

section
variable {p q : Phy} {m : PhyMsg} {l : Listener} {c : NcReq} {nc : DevStateNc} {s : Sys}
  {opened : Option NcReq}

-- ---------------------------------------------------------------------------
-- A call in turn
-- ---------------------------------------------------------------------------

/-- A call in turn is let through, does not stray, and listens for the version of
the transaction. -/
theorem callsFor_spec (hs : p.Synced opened nc) (hc : p.turn.CallsFor c = true) :
    c.passes nc = true ∧ ¬ c.Strays opened nc ∧
      ∀ mem k, p.recv (c.message mem) = .busy k → ∀ l, c.listener = some l → l = k.listener := by
  obtain ⟨hon, hheld⟩ := hs
  cases p with
  | idle =>
    have hidle : nc.ongoing = .nothing := (Option.some.inj hon).symm
    cases c <;> simp only [Phy.turn, Turn.CallsFor, Bool.false_eq_true] at hc
    case rssi | rssiv2 | wait =>
      exact ⟨rfl, fun h => h hidle, by rintro mem k ⟨⟩⟩
    all_goals
      refine ⟨(passes_iff rfl).mpr hidle, id, ?_⟩
      rintro mem k ⟨⟩ l ⟨⟩
      rfl
  | reeval k =>
    have hre : nc.ongoing = k.reeval := (Option.some.inj hon).symm
    cases k with
    | tx | cca =>
      cases c <;> simp only [Phy.turn, Kind.listener, Turn.CallsFor, Bool.false_eq_true] at hc
      refine ⟨(passes_iff rfl).mpr hre, id, ?_⟩
      rintro mem k ⟨⟩ l ⟨⟩
      rfl
    | rx v found =>
      cases v <;> cases c <;>
        simp only [Phy.turn, Kind.listener, Turn.CallsFor, Bool.false_eq_true] at hc
      case v1.immRSSI | v2.immRSSI => exact ⟨(passes_iff rfl).mpr hre, id, by rintro mem k ⟨⟩⟩
      all_goals
        refine ⟨(passes_iff rfl).mpr hre, id, ?_⟩
        rintro mem k ⟨⟩ l ⟨⟩
        rfl
  | verdict v =>
    have heval : nc.ongoing = .rxHeaderEval := (Option.some.inj hon).symm
    obtain ⟨req, hreq, hreg⟩ := hheld _ rfl
    cases v <;> cases c <;> simp only [Phy.turn, Turn.CallsFor, Bool.false_eq_true] at hc
    case v1.rxCont devAccepts =>
      refine ⟨(passes_iff rfl).mpr heval, id, ?_⟩
      cases devAccepts <;> rintro mem k ⟨⟩ l ⟨⟩
      rfl
    case v2.rxv2Cont devAccepts abort =>
      refine ⟨(passes_iff rfl).mpr heval, ?_, ?_⟩
      · cases devAccepts with
        | false => exact id
        | true =>
          intro hst
          refine hst ?_
          rw [hreq]
          exact hreg.listener
      · cases devAccepts <;> rintro mem k ⟨⟩ l ⟨⟩
        rfl
  | _ => cases c <;> simp [Phy.turn, Turn.CallsFor] at hc

theorem reeval_of_recv {d : DevMsg} (h : p.recv d = .immRssi v found) :
    p = .reeval (.rx v found) := by
  cases p with
  | reeval k =>
    cases k <;> cases d <;> simp [Phy.recv] at h ⊢
    exact h
  | verdict v => cases v <;> cases d <;> simp [Phy.recv] at h
  | _ => cases d <;> simp [Phy.recv] at h

theorem turn_answer {d : DevMsg} (hl : c.listener = some l) (ha : (p.recv d).Answers m q)
    (ht : (p.recv d).Tuned l nc) (hv : ∀ k, p.recv d = .busy k → l = k.listener)
    (hopen : m.closes bufSize = false) : p.turn.next c (m.ret bufSize) = q.turn := by
  generalize hr : p.recv d = r at ha ht hv
  cases ha with
  | abortreeval k =>
    obtain rfl := hv k rfl
    simp only [Turn.next, hl]
    cases k <;> rfl
  | txEnd done | ccaEnd done =>
    obtain rfl := hv _ rfl
    simp only [Turn.next, hl]
    rfl
  | addressfound v done packet =>
    obtain rfl := hv _ rfl
    replace hopen : PhyMsg.tooBig bufSize (.addressfound v done packet) = false := hopen
    simp only [Turn.next, hl, PhyMsg.ret, hopen]
    cases v <;> rfl
  | rxEnd v found done =>
    obtain rfl := hv _ rfl
    simp only [Turn.next, hl]
    cases v <;> rfl
  | immrssiRrsiDone v found done =>
    obtain ⟨d, rfl⟩ := ht
    simp only [Turn.next, hl]
    rw [reeval_of_recv hr]
    rfl
  | rssiEnd done =>
    obtain ⟨d, rfl⟩ := ht
    simp only [Turn.next, hl]
    rw [idle_of_recv (.inl hr)]
    rfl
  | waitEnd =>
    obtain rfl : l = .wait := ht
    simp only [Turn.next, hl]
    rw [idle_of_recv (.inr hr)]
    rfl
  | disconnect p ho => simp [PhyMsg.closes] at hopen

-- ---------------------------------------------------------------------------
-- One step
-- ---------------------------------------------------------------------------

theorem speaks_in_turn (hs : s.InStep) (ht : s.turn.CallsFor c = true) : c.Speaks s.world := by
  cases hc : s.world.link.connected with
  | false =>
    rw [(hs.closed hc).2] at ht
    cases c <;> simp [Turn.CallsFor] at ht
  | true =>
    rw [hs.turn hc] at ht
    exact ⟨hc, (callsFor_spec (hs.synced hs.stop hc).2 ht).1⟩

theorem call_in_turn (hs : s.InStep) (ht : s.turn.CallsFor c = true)
    (hm : (s.phy.recv (c.message s.world.mem)).Follows answer) :
    c.listener = none ∧ s.phy.recv (c.message s.world.mem) = .idle ∧ answer = none ∨
      ∃ l m q, c.listener = some l ∧ answer = some m ∧
        (s.phy.recv (c.message s.world.mem)).answer m = some q ∧
        (s.phy.recv (c.message s.world.mem)).Awaited l
          (if c.opens.isSome then some c else s.opened) (c.notes s.world.nc) ∧
        ∀ k, s.phy.recv (c.message s.world.mem) = .busy k → l = k.listener := by
  have hsp := speaks_in_turn hs ht
  have hsync := (hs.synced hs.stop hsp.1).2
  rw [hs.turn hsp.1] at ht
  obtain ⟨hp, hst, hv⟩ := callsFor_spec hsync ht
  obtain ⟨hsome, hnone⟩ := answer_of_follows hm
  rcases recv_synced hsync hp s.world.mem with h | ⟨-, ⟨hl, hq⟩ | ⟨l, hl, haw⟩⟩
  · exact absurd h.1 hst
  · exact .inl ⟨hl, hq, hnone (by rw [hq]; rfl)⟩
  · obtain ⟨m, q, rfl, ha⟩ := hsome haw.owes
    exact .inr ⟨l, m, q, hl, rfl, ha, haw, fun k hk => hv s.world.mem k hk l hl⟩

theorem understood_of_kind (ha : p.Answers m q) (hv : ∀ k, p = .busy k → l = k.listener) :
    m.Understood l := by
  cases ha with
  | addressfound | rxEnd => exact hv _ rfl
  | _ => trivial

theorem over_of_closes (ha : p.Answers m q) (hclose : m.closes bufSize = true) (t : Turn) :
    (if m.tooBig bufSize then q.recv .disconnect else q) = .off ∧
      t.next c (m.ret bufSize) = .over := by
  cases ha with
  | disconnect p ho => exact ⟨rfl, rfl⟩
  | addressfound v done packet =>
    replace hclose : PhyMsg.tooBig bufSize (.addressfound v done packet) = true := hclose
    simp only [PhyMsg.ret, hclose]
    exact ⟨rfl, rfl⟩
  | _ => simp [PhyMsg.closes, PhyMsg.tooBig] at hclose

theorem inStep_call (hs : s.InStep) (ht : s.turn.CallsFor c = true)
    (hm : (s.phy.recv (c.message s.world.mem)).Follows answer) : (s.call c answer).InStep := by
  have hsp := speaks_in_turn hs ht
  obtain ⟨hptd, hsync⟩ := hs.synced hs.stop hsp.1
  have hst : ¬ c.Strays s.opened s.world.nc := by
    rw [hs.turn hsp.1] at ht
    exact (callsFor_spec hsync ht).2.1
  have hkept := kept_speaks hs.toKept hs.stop hsp hm hst
  rcases call_in_turn hs ht hm with ⟨hl, hq, rfl⟩ | ⟨l, m, q, hl, rfl, ha, haw, hv⟩
  · rw [call_reject hsp hl, hq] at hkept ⊢
    refine ⟨hkept, rfl, fun _ => ?_, fun hc => ?_⟩
    · simp only [Turn.next, hl]
      rfl
    · simp [hsp.1] at hc
  · have hans := answers_of_answer ha
    have hu := understood_of_kind hans hv
    rw [call_answered hsp hl hptd ha haw.tuned hu, hs.turn hsp.1] at hkept ⊢
    obtain ⟨hclosed, -⟩ := link_answered hsp hans haw.tuned
    refine ⟨hkept, rfl, fun hc => ?_, fun hc => ?_⟩
    · have hopen : m.closes (c.notes s.world.nc).bufsize = false := by
        simpa using hclosed.symm.trans hc
      dsimp only
      rw [tooBig_of_open hopen]
      exact turn_answer hl hans haw.tuned hv hopen
    · have hclose : m.closes (c.notes s.world.nc).bufsize = true := by
        simpa using hclosed.symm.trans hc
      exact over_of_closes hans hclose _

theorem inStep_leave {act : M Unit} (ha : Leaves act) (hs : s.InStep) : (s.leave act).InStep := by
  obtain ⟨hstop, hturn, hclosed, hphy⟩ := leave_spec (s := s) ha
  refine ⟨kept_leave ha hs.toKept hs.stop, hstop.trans hs.stop, fun h => by simp [hclosed] at h,
    fun _ => ⟨?_, hturn⟩⟩
  cases hc : s.world.link.connected with
  | true =>
    rw [hc] at hphy
    exact hphy hs.phy (hs.phy_ne_off hs.stop hc)
  | false =>
    rw [hc] at hphy
    exact hphy.trans (hs.closed hc).1

theorem inStep_exec (m : Move) (s : Sys) (hs : s.InStep) (hm : m.Proper s ∧ m.InTurn s) :
    (m.exec s).InStep := by
  have hrun := hs.stop
  obtain ⟨hproper, hturn⟩ := hm
  replace hproper := hproper hrun
  replace hturn := hturn hrun
  rw [exec_of_running hrun]
  cases m with
  | call c answer =>
    dsimp only at hproper hturn ⊢
    rw [if_pos (speaks_in_turn hs hturn)] at hproper
    exact inStep_call hs hturn hproper
  | disconnect => exact inStep_leave .disconnect hs
  | terminate => exact inStep_leave .terminate hs
  | initComSNc | initcomNc => exact absurd hturn id
  | device mem ptr heap =>
    exact ⟨⟨hs.phy, fun _ hc => hs.synced hrun hc⟩, hrun, hs.turn, hs.closed⟩

-- ---------------------------------------------------------------------------
-- Where answers go
-- ---------------------------------------------------------------------------

theorem fills_rssi (hl : c.listener = some (.rssi d)) : c.fills opened = some d := by
  cases c with
  | immRSSI | rssi | rssiv2 =>
    cases hl
    rfl
  | rxCont devAccepts => cases devAccepts <;> cases hl
  | rxv2Cont devAccepts => cases devAccepts <;> cases hl
  | _ => cases hl

theorem fills_opened {k : Kind} (hl : c.listener = some k.listener) :
    c.fills opened = (if c.opens.isSome then some c else opened).bind NcReq.doneS := by
  cases c with
  | immRSSI | rssi | rssiv2 => cases k <;> cases hl
  | _ => rfl

theorem receives_opened (hl : c.listener = some (.rx v)) :
    c.receives opened = (if c.opens.isSome then some c else opened).bind NcReq.buffer := by
  cases c with
  | tx | txv2 | tx2v1 | cca | ccav2 => cases hl
  | _ => rfl

theorem fills_answer (ha : p.Answers m q)
    (haw : p.Awaited l (if c.opens.isSome then some c else opened) nc)
    (hv : ∀ k, p = .busy k → l = k.listener) (hl : c.listener = some l) (hdone : m.done ≠ []) :
    c.fills opened = some (l.doneS nc) := by
  have hbusy : ∀ k, p = .busy k → c.fills opened = some (l.doneS nc) := by
    rintro k rfl
    obtain rfl := hv k rfl
    obtain ⟨req, hreq, hreg⟩ := haw.held k rfl
    rw [fills_opened hl, hreq]
    exact hreg.doneS
  cases ha with
  | txEnd | ccaEnd | addressfound | rxEnd => exact hbusy _ rfl
  | immrssiRrsiDone | rssiEnd =>
    obtain ⟨d, rfl⟩ := haw.tuned
    exact fills_rssi hl
  | abortreeval | waitEnd | disconnect => exact absurd rfl hdone

theorem receives_answer (ha : p.Answers m q)
    (haw : p.Awaited l (if c.opens.isSome then some c else opened) nc)
    (hv : ∀ k, p = .busy k → l = k.listener) (hl : c.listener = some l) (hp : m.packet ≠ []) :
    c.receives opened = some (nc.rxbuf, nc.bufsize) := by
  cases ha with
  | addressfound v done packet =>
    obtain rfl := hv _ rfl
    obtain ⟨req, hreq, hreg⟩ := haw.held _ rfl
    rw [receives_opened hl, hreq]
    exact (hreg.reception v false rfl).1
  | _ => exact absurd rfl hp

theorem taken_of_inStep (m : Move) (s : Sys) (hs : s.InStep) (hm : m.Proper s ∧ m.InTurn s) :
    m.Taken s := by
  have hrun := hs.stop
  obtain ⟨hproper, hturn⟩ := hm
  replace hproper := hproper hrun
  replace hturn := hturn hrun
  cases m with
  | call c answer =>
    have hsp := speaks_in_turn hs hturn
    have hptd := (hs.synced hrun hsp.1).1
    dsimp only at hproper
    rw [if_pos hsp] at hproper
    rcases call_in_turn hs hturn hproper with ⟨hl, hq, rfl⟩ | ⟨l, m, q, hl, rfl, ha, haw, hv⟩
    · obtain ⟨hmem, hret⟩ := exec_silent hsp hptd
      exact ⟨by rw [hret, if_pos hl], hmem⟩
    · have hans := answers_of_answer ha
      have htakes := takes_answered hsp hl hptd hans haw.tuned (understood_of_kind hans hv)
      exact ⟨_, _, _, fills_answer hans haw hv hl, receives_answer hans haw hv hl, htakes⟩
  | _ => trivial

theorem Sys.Idle.inStep (h : s.Idle) : s.InStep := by
  refine ⟨h.kept, h.stop, fun _ => ?_, fun hc => by simp [h.connected] at hc⟩
  rw [h.turn, h.phy]
  rfl

/-- Over any run in turn the device stays in step with the phy, and takes every
answer. -/
theorem taken_in_turn (hs : s.Idle) {moves : List Move}
    (hm : Along Move.exec Move.Proper moves s) (ht : Along Move.exec Move.InTurn moves s) :
    (∀ s' ∈ states Move.exec moves s, s'.InStep) ∧ Along Move.exec Move.Taken moves s := by
  have hboth := along_and.mpr ⟨hm, ht⟩
  exact ⟨invariant inStep_exec hs.inStep hboth,
    along_of_invariant inStep_exec taken_of_inStep hs.inStep hboth⟩

end

end PhyCom2G4

namespace PhyCom2G4

open Bytes Program Program.Prog Runs

attribute [local instance] LibPhyCom.posix

/-- A v2 reception for two addresses with an abort that is re-evaluated, an RSSI
measurement before the new one, and a packet of three bytes that is accepted; then a
transmission and a wait. -/
theorem taken_in_turn_rxv2 :
    let rxS : Rxv2 := { (parse [] : Rxv2) with scanDuration := 1000, nAddr := 2 }
    let rxDone : Rxv2Done := { (parse [] : Rxv2Done) with status := 1, packetSize := 3 }
    let txS : Tx := { (parse [] : Tx) with packetSize := 2 }
    let moves := [.call (.rxv2 rxS 8 64 0 0) (some .abortreeval),
      .call (.immRSSI (parse []) 32) (some (.immrssiRrsiDone (parse [1, 2, 3, 4]))),
      .call (.newRxv2Abort (parse [5])) (some (.addressfound .v2 rxDone ⟨[7, 8, 9], by decide⟩)),
      .call (.rxv2Cont true (parse [6])) (some (.rxEnd .v2 rxDone)),
      .call (.tx txS 16 128) (some (.txEnd (parse [10]))),
      .call (.wait (parse [])) (some .waitEnd)]
    let s := Sys.start { World.start [] with mem := UInt8.ofNat }
    (∀ s' ∈ states Move.exec moves s, s'.InStep) ∧ Along Move.exec Move.Taken moves s :=
  taken_in_turn ⟨rfl, rfl, rfl, rfl, rfl, rfl⟩
    ⟨fun _ => rfl, fun _ => rfl, fun _ => rfl, fun _ => rfl, fun _ => rfl, fun _ => rfl, trivial⟩
    ⟨fun _ => rfl, fun _ => rfl, fun _ => rfl, fun _ => rfl, fun _ => rfl, fun _ => rfl, trivial⟩

end PhyCom2G4

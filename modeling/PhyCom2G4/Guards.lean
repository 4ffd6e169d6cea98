import PhyCom2G4.Sync

/-!
# What the guards keep out

The checks of `ongoing` are to keep the device inside the protocol, whatever
it calls. They do, but for what they do not look at: a measurement or a wait
in the middle of a transaction, a RXV2CONT in a v1 reception, and a session
opened over a transaction. Those apart, a device that calls anything in any
order stays in step with the phy, and is stopped before it writes what the
phy does not accept (`phy_accepts_iff`).
-/

namespace PhyCom2G4

open Bytes Program Program.Prog Runs LibPhyCom

variable [LibPhyCom]

structure Sys.Idle (s : Sys) : Prop where
  connected : s.world.link.connected = true
  ptd : s.world.link.ptd = []
  ongoing : s.world.nc.ongoing = .nothing
  phy : s.phy = .idle
  stop : s.stop = none
  turn : s.turn = .free

def Sys.start (w : World) : Sys := ⟨w, .idle, none, .free, none⟩

/-- The phy was told nothing it does not accept, and as long as the device goes
on the two are in step with nothing left to read. -/
structure Sys.Kept (s : Sys) : Prop where
  phy : s.phy ≠ .fault
  synced : s.stop = none → s.world.link.connected = true →
    s.world.link.ptd = [] ∧ s.phy.Synced s.opened s.world.nc

/-- A call that its guard does not look at closely enough. -/
def Move.Strays (m : Move) (s : Sys) : Prop :=
  s.stop = none ∧ match m with
    | .call c _ => c.Speaks s.world ∧ c.Strays s.opened s.world.nc
    | _ => False

def Move.OpensOver (m : Move) (s : Sys) : Prop :=
  s.stop = none ∧ match m with
    | .initComSNc d n p =>
      (pbDevInitCom d n p s.world.link).1 = 0 ∧ s.world.nc.ongoing ≠ .nothing
    | _ => False

/-- A call that would tell the phy what it does not accept is stopped by its
guard, before it writes anything. -/
def Sys.Guarded (s : Sys) : Prop :=
  s.stop = none → s.world.link.connected = true → ∀ c : NcReq,
    ¬ c.Strays s.opened s.world.nc → s.phy.recv (c.message s.world.mem) = .fault →
      c.exec.run s.world =
        (.error (.error c.complaint), { s.world with nc := c.notesFirst s.world.nc })

section
variable {p q : Phy} {m : PhyMsg} {l : Listener} {c : NcReq} {nc : DevStateNc} {s : Sys}

-- ---------------------------------------------------------------------------
-- Answers
-- ---------------------------------------------------------------------------

theorem answer_of_follows (h : p.Follows answer) :
    (p.owes = true → ∃ m q, answer = some m ∧ p.answer m = some q) ∧
      (p.owes = false → answer = none) := by
  cases answer with
  | none =>
    have hno : p.owes = false := h
    exact ⟨fun ho => by simp [hno] at ho, fun _ => rfl⟩
  | some m =>
    obtain ⟨q, hq⟩ := Option.isSome_iff_exists.mp h
    refine ⟨fun _ => ⟨m, q, rfl, hq⟩, fun hno => ?_⟩
    cases answers_of_answer hq with
    | disconnect p ho => simp [ho] at hno
    | _ => simp [Phy.owes] at hno

theorem answers_ne_fault (ha : p.Answers m q) :
    q ≠ .fault ∧ ∀ bufSize, (if m.tooBig bufSize then q.recv .disconnect else q) ≠ .fault := by
  cases ha with
  | addressfound v done packet =>
    refine ⟨by simp, fun bufSize => ?_⟩
    split <;> simp [Phy.recv]
  | _ => simp [PhyMsg.tooBig]

theorem tooBig_of_open (h : m.closes bufSize = false) : m.tooBig bufSize = false := by
  cases m <;> first | exact h | rfl

theorem idle_of_recv {d : DevMsg} (h : p.recv d = .rssi ∨ p.recv d = .waiting) : p = .idle := by
  cases p with
  | idle => rfl
  | reeval k => cases k <;> cases d <;> simp [Phy.recv] at h
  | verdict v => cases v <;> cases d <;> simp [Phy.recv] at h
  | _ => cases d <;> simp [Phy.recv] at h

-- ---------------------------------------------------------------------------
-- One step
-- ---------------------------------------------------------------------------

/-- The answer of a call that does not stray is the phy's and the device's to be
in step on. -/
theorem kept_answered (hsp : c.Speaks s.world) (hl : c.listener = some l)
    (hptd : s.world.link.ptd = [])
    (ha : (s.phy.recv (c.message s.world.mem)).answer m = some q)
    (haw : (s.phy.recv (c.message s.world.mem)).Awaited l
      (if c.opens.isSome then some c else s.opened) (c.notes s.world.nc))
    (hidle : s.phy = .idle → s.world.nc.ongoing = .nothing) : (s.call c (some m)).Kept := by
  have hans := answers_of_answer ha
  by_cases hu : m.Understood l
  · rw [call_answered hsp hl hptd ha haw.tuned hu]
    refine ⟨(answers_ne_fault hans).2 _, fun _ hc => ?_⟩
    obtain ⟨hclosed, hread⟩ := link_answered hsp hans haw.tuned
    have hopen : m.closes (c.notes s.world.nc).bufsize = false := by
      simpa using hclosed.symm.trans hc
    refine ⟨hread hopen, ?_⟩
    dsimp only
    rw [tooBig_of_open hopen]
    have hsync := synced_answer (w := c.spoken (s.world.fed (some m))) hans haw hu hopen
    rcases hsync with h | ⟨hp, rfl, hnc⟩
    · exact h
    · refine ⟨?_, by rintro k ⟨⟩⟩
      have hon := hidle (idle_of_recv hp)
      rw [show (Heard.world l (m.heard (c.notes s.world.nc).bufsize)
        (c.spoken (s.world.fed (some m)))).nc = c.notes s.world.nc from hnc, notes_ongoing, hon]
      rfl
  · obtain ⟨hstop, hphy⟩ := call_not_understood hsp hl hptd ha haw.tuned hu
    exact ⟨hphy ▸ (answers_ne_fault hans).1, fun hno => by simp [hstop] at hno⟩

theorem kept_speaks (hs : s.Kept) (hrun : s.stop = none) (hsp : c.Speaks s.world)
    (hm : (s.phy.recv (c.message s.world.mem)).Follows answer)
    (hst : ¬ c.Strays s.opened s.world.nc) : (s.call c answer).Kept := by
  obtain ⟨hptd, hsync⟩ := hs.synced hrun hsp.1
  obtain ⟨hsome, hnone⟩ := answer_of_follows hm
  rcases recv_synced hsync hsp.2 s.world.mem with h | ⟨-, ⟨hl, hq⟩ | ⟨l, hl, haw⟩⟩
  · exact absurd h.1 hst
  · obtain rfl := hnone (by rw [hq]; rfl)
    rw [call_reject hsp hl, hq]
    exact ⟨by simp, fun _ _ => ⟨hptd, rfl, by rintro k ⟨⟩⟩⟩
  · obtain ⟨m, q, rfl, ha⟩ := hsome haw.owes
    refine kept_answered hsp hl hptd ha haw fun hidle => ?_
    have hon := hsync.ongoing
    rw [hidle] at hon
    exact (Option.some.inj hon).symm

/-- A call that strays tells the phy what it does not accept. -/
theorem fault_of_strays (hs : s.Kept) (hrun : s.stop = none) (hsp : c.Speaks s.world)
    (hm : (s.phy.recv (c.message s.world.mem)).Follows answer)
    (hst : c.Strays s.opened s.world.nc) : (s.call c answer).phy = .fault := by
  obtain ⟨hptd, hsync⟩ := hs.synced hrun hsp.1
  rcases recv_synced hsync hsp.2 s.world.mem with ⟨-, hq⟩ | h
  · obtain rfl := (answer_of_follows hm).2 (by rw [hq]; rfl)
    cases hl : c.listener with
    | none => rw [call_reject hsp hl, hq]
    | some l => rw [call_silent hsp hl hptd, hq]
  · exact absurd hst h.1

theorem Sys.Kept.phy_ne_off (hs : s.Kept) (hrun : s.stop = none)
    (hc : s.world.link.connected = true) : s.phy ≠ .off := by
  intro ho
  have hon := (hs.synced hrun hc).2.ongoing
  simp [ho, Phy.ongoing] at hon

theorem kept_leave {act : M Unit} (ha : Leaves act) (hs : s.Kept) (hrun : s.stop = none) :
    (s.leave act).Kept := by
  obtain ⟨-, -, hclosed, hphy⟩ := leave_spec (s := s) ha
  refine ⟨?_, fun _ h => by simp [hclosed] at h⟩
  cases hc : s.world.link.connected with
  | false =>
    rw [hc] at hphy
    exact hphy ▸ hs.phy
  | true =>
    rw [hc] at hphy
    rw [hphy hs.phy (hs.phy_ne_off hrun hc)]
    simp

theorem kept_initCom {act : M Int32} {o : OngoingTransaction → OngoingTransaction} {d : UInt32}
    {n p : String} (ha : Opens d n p act o) (hs : s.Kept)
    (hm : s.world.link.connected = false ∨ (pbDevInitCom d n p s.world.link).1 = 0)
    (ho : (pbDevInitCom d n p s.world.link).1 = 0 → o s.world.nc.ongoing = .nothing) :
    (s.initCom act d n p).Kept := by
  obtain ⟨-, hon, hrest⟩ := initCom_spec ha hm
  split at hrest
  next h0 =>
    obtain ⟨hlink, hphy, -, -⟩ := hrest
    refine ⟨by rw [hphy]; simp, fun _ _ => ⟨by rw [hlink], ?_, ?_⟩⟩
    · rw [hphy, hon, ho h0]
      rfl
    · rw [hphy]
      rintro k ⟨⟩
  next h0 => exact ⟨by rw [hrest.2]; exact hs.phy, fun _ hc => by simp [hrest.1] at hc⟩

theorem kept_exec (m : Move) (s : Sys) (hs : s.Kept) (hm : m.Proper s) (hst : ¬ m.Strays s)
    (ho : ¬ m.OpensOver s) : (m.exec s).Kept := by
  cases hrun : s.stop with
  | some e =>
    rw [exec_of_stop (by simp [hrun])]
    exact hs
  | none =>
  rw [exec_of_running hrun]
  replace hm := hm hrun
  cases m with
  | call c answer =>
    dsimp only at hm ⊢
    by_cases hsp : c.Speaks s.world
    · rw [if_pos hsp] at hm
      exact kept_speaks hs hrun hsp hm fun h => hst ⟨hrun, hsp, h⟩
    · rw [if_neg hsp] at hm
      subst hm
      cases hc : s.world.link.connected with
      | false =>
        rw [call_closed hc]
        exact ⟨hs.phy, fun _ h => by simp [hc] at h⟩
      | true =>
        rw [call_stopped hc (by simpa [NcReq.Speaks, hc] using hsp)]
        exact ⟨hs.phy, fun h => by simp at h⟩
  | disconnect => exact kept_leave .disconnect hs hrun
  | terminate => exact kept_leave .terminate hs hrun
  | initComSNc d n p =>
    refine kept_initCom .comSNc hs hm fun h0 => ?_
    by_contra hne
    exact ho ⟨hrun, h0, hne⟩
  | initcomNc d n p => exact kept_initCom .comNc hs hm fun _ => rfl
  | device mem ptr heap => exact ⟨hs.phy, fun _ hc => hs.synced hrun hc⟩

theorem strays_exec (m : Move) (s : Sys) (hs : s.Kept) (hm : m.Proper s) (hst : m.Strays s) :
    (m.exec s).phy = .fault := by
  obtain ⟨hrun, hst⟩ := hst
  rw [exec_of_running hrun]
  cases m with
  | call c answer =>
    have hf := hm hrun
    dsimp only at hf
    rw [if_pos hst.1] at hf
    exact fault_of_strays hs hrun hst.1 hf hst.2
  | _ => exact absurd hst id

theorem Sys.Kept.guarded (hs : s.Kept) : s.Guarded := by
  intro hrun hc c hst hfault
  refine run_exec_stopped hc c ?_
  cases hp : c.passes s.world.nc with
  | false => rfl
  | true =>
    rcases recv_synced (hs.synced hrun hc).2 hp s.world.mem with h | ⟨-, h⟩
    · exact absurd h.1 hst
    · rcases h with ⟨-, hq⟩ | ⟨l, -, haw⟩
      · simp [hfault] at hq
      · have ho := haw.owes
        simp [hfault, Phy.owes] at ho

theorem Sys.Idle.kept (h : s.Idle) : s.Kept := by
  refine ⟨by simp [h.phy], fun _ _ => ⟨h.ptd, ?_, ?_⟩⟩
  · rw [h.phy, h.ongoing]
    rfl
  · rw [h.phy]
    rintro k ⟨⟩

/-- Whatever the device calls, in whatever order, the phy is told nothing that it
does not accept, and what it would not accept is stopped before it is
written, as long as no call strays and no session is opened over a
transaction. A call that strays is one the phy does not accept. -/
theorem phy_accepts_iff (hs : s.Idle) {moves : List Move}
    (hm : Along Move.exec Move.Proper moves s) :
    (Along Move.exec (fun m s => ¬ m.Strays s ∧ ¬ m.OpensOver s) moves s →
      ∀ s' ∈ states Move.exec moves s, s'.phy ≠ .fault ∧ s'.Guarded) ∧
    (Along Move.exec (fun m s => ¬ m.OpensOver s) moves s →
      (∀ s' ∈ states Move.exec moves s, s'.phy ≠ .fault ∧ s'.Guarded) →
        Along Move.exec (fun m s => ¬ m.Strays s) moves s) := by
  constructor
  · intro hst s' hs'
    have hk : s'.Kept := invariant (fun m s h hm => kept_exec m s h hm.1 hm.2.1 hm.2.2) hs.kept
      (along_and.mpr ⟨hm, hst⟩) s' hs'
    exact ⟨hk.phy, hk.guarded⟩
  · intro ho hsafe
    refine (safe_iff (P := Sys.Kept) (Q := fun s => s.phy ≠ .fault) ?_ ?_ (fun _ h => h.phy)
      hs.kept (along_and.mpr ⟨hm, ho⟩)).mp fun s' hs' => (hsafe s' hs').1
    · exact fun m s h hok hst => kept_exec m s h hok.1 hst hok.2
    · exact fun m s h hok hphy hst => hphy (strays_exec m s h hok.1 hst)

end

end PhyCom2G4

namespace PhyCom2G4

open Bytes Program Program.Prog Runs

attribute [local instance] LibPhyCom.posix

/-- An RSSI measurement is requested while a transmission is to be re-evaluated:
it is written, and the phy does not accept it. -/
theorem rssi_during_reeval :
    let moves := [.call (.tx (parse []) 0 0) (some .abortreeval), .call (.rssi (parse []) 0) none]
    let s := Sys.start (World.start [])
    s.Idle ∧ Along Move.exec Move.Proper moves s ∧
      ∃ s' ∈ states Move.exec moves s, s'.phy = .fault :=
  ⟨⟨rfl, rfl, rfl, rfl, rfl, rfl⟩, ⟨fun _ => rfl, fun _ => rfl, trivial⟩,
    _, .tail _ (.tail _ (.head _)), rfl⟩

theorem phy_accepts_iff_rx :
    let moves := [.call (.rx (parse []) 0 0 0) (some .abortreeval), .call (.tx (parse []) 0 0) none]
    let s := Sys.start (World.start [])
    (Along Move.exec (fun m s => ¬ m.Strays s ∧ ¬ m.OpensOver s) moves s →
      ∀ s' ∈ states Move.exec moves s, s'.phy ≠ .fault ∧ s'.Guarded) ∧
    (Along Move.exec (fun m s => ¬ m.OpensOver s) moves s →
      (∀ s' ∈ states Move.exec moves s, s'.phy ≠ .fault ∧ s'.Guarded) →
        Along Move.exec (fun m s => ¬ m.Strays s) moves s) :=
  phy_accepts_iff ⟨rfl, rfl, rfl, rfl, rfl, rfl⟩ ⟨fun _ => rfl, fun _ => rfl, trivial⟩

end PhyCom2G4

import PhyCom2G4.Exchanges

/-!
# A device of the family with callbacks and its phy

`Pair` is a device that makes blocking calls one after the other, together with
the phy, of which no more is asked than that it replies to what it is told.
Every call says what it has to say and takes the whole of the conversation that
makes with the phy's replies, and only the device's own refusal to give an abort
structure stops it (`blocking_calls_exchange`).
-/

namespace PhyCom2G4

open Bytes Memory Wire Dialogue Program Program.Prog Runs LibPhyCom

variable [LibPhyCom]

structure Pair where
  world : World
  phy : Phy
  /-- Why the device's program stopped, if it did. -/
  stop : Option Stop

inductive PairMove
  /-- The phy writes `ptd` before the call returns. -/
  | call (c : CbReq) (ptd : List Byte)
  | disconnect
  | terminate
  | initcomSC (d : UInt32) (s p : String) (abortF : Option DevAbortReevalF)
  | device (mem : Mem) (ptr : Addr → Addr) (heap : List Block)

def Pair.heard (s : Pair) (w w' : World) (ptd : List Byte) : Option Words :=
  overhear s.phy (w.wrote w') ptd

def Phy.follow (p : Phy) : Option Words → Phy
  | some ws => phyServer.after p ws
  | none => .fault

def stopOf {α : Type} : Except Stop α → Option Stop
  | .ok _ => none
  | .error stop => some stop

def Pair.call (c : CbReq) (ptd : List Byte) (s : Pair) : Pair :=
  let w := s.world.ahead ptd
  let r := c.exec.run w
  { world := r.2
    phy := s.phy.follow (s.heard w r.2 ptd)
    stop := stopOf r.1 }

def Pair.leave (m : M Unit) (s : Pair) : Pair :=
  let w := (m.run s.world).2
  { s with world := w, phy := s.phy.follow (s.heard s.world w []) }

def Pair.initcom (d : UInt32) (n p : String) (abortF : Option DevAbortReevalF) (s : Pair) :
    Pair :=
  { s with
    world := ((devInitcomSC d n p abortF).run s.world).2
    phy := if (pbDevInitCom d n p s.world.link).1 = 0 then .idle else s.phy }

def PairMove.exec (m : PairMove) (s : Pair) : Pair :=
  if s.stop.isSome then s
  else match m with
    | .call c ptd => s.call c ptd
    | .disconnect => s.leave devDisconnectSC
    | .terminate => s.leave devTerminateSC
    | .initcomSC d n p abortF => s.initcom d n p abortF
    | .device mem ptr heap => { s with world := { s.world with mem, ptr, heap } }

/-- Whatever the device tells the phy between `w` and `w'`, `ptd` are its replies to that. -/
def Pair.Replied (s : Pair) (w w' : World) (ptd : List Byte) : Prop :=
  ∀ ms, devCodec.readAll (w.wrote w') = some ms →
    ∃ as : List PhyMsg, as.flatMap PhyMsg.write = ptd ∧ phyServer.Replies s.phy ms as

/-- The call is a blocking one and the phy replies as the diagrams say; a session is
opened when there is none, or opened afresh. -/
def PairMove.Proper (m : PairMove) (s : Pair) : Prop :=
  s.stop = none → match m with
    | .call c ptd => c.blocks = true ∧
      s.Replied (s.world.ahead ptd) (c.exec.run (s.world.ahead ptd)).2 ptd
    | .initcomSC d n p _ =>
      s.world.link.connected = false ∨ (pbDevInitCom d n p s.world.link).1 = 0
    | _ => True

/-- Between two calls the phy is idle with nothing left to read, or the two are parted;
a stopped program has left. -/
structure Pair.Kept (s : Pair) : Prop where
  opened : s.world.link.connected = true → s.phy = .idle ∧ s.world.link.ptd = []
  closed : s.world.link.connected = false → s.phy = .off
  stopped : ∀ e, s.stop = some e → e = .invalidResp (-1) ∧ s.world.link.connected = false

/-- The call says all that it has to and holds the conversation that comes of it, or there
is no link for one. -/
def PairMove.Exchanges (m : PairMove) (s : Pair) : Prop :=
  s.stop = none → match m with
    | .call c ptd =>
      let w := s.world.ahead ptd
      let r := c.exec.run w
      if s.world.link.connected then ∃ ws, s.heard w r.2 ptd = some ws ∧
        asks ws = c.said w ∧ Concluded c.bufSize c.fills c.rxBuf s.phy w ws r
      else ptd = [] ∧ r = (.ok (-1), s.world)
    | _ => True

section
variable {s : Pair} {c : CbReq} {w w' : World} {ptd : List Byte}

theorem heard_eq_some : s.heard w w' ptd = some ws ↔ phyServer.Orderly s.phy ws ∧
    devCodec.writeAll (asks ws) = w.wrote w' ∧ phyServer.stream ws = ptd :=
  overhear_eq_some

theorem wrote_call (c : Call) (w : World) :
    w.wrote (c.exec.run w).2 = devCodec.writeAll (c.said w) := by
  obtain ⟨es, hlog, hes⟩ := said_log c w
  exact wrote_eq hlog hes

/-- Only a re-evaluation that was refused stops the program. -/
theorem stop_of_concludes {bufSize : Nat} {as : List PhyMsg}
    (h : stopOf (concludes bufSize as) = some e) :
    e = .invalidResp (-1) ∧ as.getLast? = some .abortreeval := by
  unfold concludes at h
  cases hlast : as.getLast? with
  | none =>
    rw [hlast] at h
    cases h
  | some m =>
    rw [hlast] at h
    cases m <;> first | exact ⟨(Option.some.inj h).symm, rfl⟩ | cases h

/-- What a call says, with the phy's replies to it, is the conversation that is heard. -/
theorem heard_of_replied (hm : s.Replied w (c.exec.run w).2 ptd) :
    ∃ ws, s.heard w (c.exec.run w).2 ptd = some ws ∧ asks ws = c.said w := by
  have hwrote : w.wrote (c.exec.run w).2 = devCodec.writeAll (c.said w) := wrote_call (.cb c) w
  obtain ⟨as, rfl, hr⟩ := hm (c.said w) (hwrote ▸ devCodec.readAll_writeAll _)
  obtain ⟨ws, hord, hasks, rfl⟩ := Server.replies_iff.mp hr
  exact ⟨ws, heard_eq_some.mpr ⟨hord, by rw [hasks, hwrote], rfl⟩, hasks⟩

theorem replied_of_heard (hm : s.heard w w' ptd = some ws) : s.Replied w w' ptd := by
  obtain ⟨hord, hasks, rfl⟩ := heard_eq_some.mp hm
  intro ms hms
  rw [← hasks, devCodec.readAll_writeAll] at hms
  exact ⟨answers ws, rfl, Server.replies_iff.mpr ⟨ws, hord, Option.some.inj hms, rfl⟩⟩

theorem exchanges_call (hs : s.Kept) (hb : c.blocks = true)
    (hm : s.heard (s.world.ahead ptd) (c.exec.run (s.world.ahead ptd)).2 ptd = some ws)
    (hasks : asks ws = c.said (s.world.ahead ptd)) (hc : s.world.link.connected = true) :
    Concluded c.bufSize c.fills c.rxBuf s.phy (s.world.ahead ptd) ws
      (c.exec.run (s.world.ahead ptd)) := by
  obtain ⟨hidle, hptd⟩ := hs.opened hc
  obtain ⟨hord, -, hstream⟩ := heard_eq_some.mp hm
  rw [hidle] at hord ⊢
  refine concluded_exec hb hc ?_ hord hasks
  rw [World.ahead_link_ptd, hptd, List.nil_append, hstream]

/-- Nobody says anything on a closed link. -/
theorem silent_closed (hs : s.Kept) (hc : s.world.link.connected = false)
    (hm : s.heard (s.world.ahead ptd) (c.exec.run (s.world.ahead ptd)).2 ptd = some ws)
    (hasks : asks ws = c.said (s.world.ahead ptd)) :
    ws = [] ∧ ptd = [] ∧ c.exec.run (s.world.ahead ptd) = (.ok (-1), s.world) := by
  obtain ⟨hord, -, hstream⟩ := heard_eq_some.mp hm
  have hnone : asks ws = [] := hasks.trans (said_closed (w := s.world.ahead ptd) hc (.cb c))
  rw [hs.closed hc] at hord
  obtain rfl := hord.asks_of_not_owes rfl hnone
  obtain rfl : [] = ptd := hstream
  refine ⟨rfl, rfl, ?_⟩
  rw [run_cb_closed (w := s.world.ahead []) hc]
  simp [World.ahead]

theorem exchanges_proper (hs : s.Kept) (m : PairMove) (hm : m.Proper s) : m.Exchanges s := by
  intro hrun
  replace hm := hm hrun
  cases m with
  | call c ptd =>
    obtain ⟨hb, hrep⟩ := hm
    obtain ⟨ws, hws, hasks⟩ := heard_of_replied hrep
    dsimp only
    split
    next hc => exact ⟨ws, hws, hasks, exchanges_call hs hb hws hasks hc⟩
    next hc => exact (silent_closed hs (by simpa using hc) hws hasks).2
  | _ => trivial

theorem kept_pairCall (hs : s.Kept) (hb : c.blocks = true)
    (hm : s.Replied (s.world.ahead ptd) (c.exec.run (s.world.ahead ptd)).2 ptd) :
    (s.call c ptd).Kept := by
  obtain ⟨ws, hws, hasks⟩ := heard_of_replied hm
  have hphy : (s.call c ptd).phy = phyServer.after s.phy ws := by
    simp only [Pair.call, hws, Phy.follow]
  cases hc : s.world.link.connected with
  | false =>
    obtain ⟨rfl, rfl, hrunc⟩ := silent_closed hs hc hws hasks
    have hworld : (s.call c []).world = s.world := congrArg Prod.snd hrunc
    have hstop : (s.call c []).stop = none := by
      simp only [Pair.call, hrunc, stopOf]
    refine ⟨fun h => ?_, fun _ => ?_, fun e he => ?_⟩
    · rw [hworld, hc] at h
      cases h
    · exact hphy.trans (hs.closed hc)
    · rw [hstop] at he
      cases he
  | true =>
    have hcon := exchanges_call hs hb hws hasks hc
    refine ⟨fun h => ?_, fun h => hphy.trans (hcon.closed h), fun e he => ?_⟩
    · obtain ⟨hptd, hafter⟩ := hcon.opened h
      exact ⟨hphy.trans hafter, hptd⟩
    · have hstop : stopOf (concludes c.bufSize (answers ws)) = some e := hcon.ret ▸ he
      obtain ⟨rfl, hlast⟩ := stop_of_concludes hstop
      exact ⟨rfl, hcon.parted (hcon.refused.mpr hlast)⟩

theorem kept_pairLeave (hs : s.Kept) {act : M Unit} {c : Call} {m : DevMsg}
    (hrun : ∀ w, (c.exec.run w).2 = (act.run w).2)
    (hsaid : c.said s.world = if s.world.link.connected = true then [m] else [])
    (hoff : (act.run s.world).2.link.connected = false) (hm : Phy.idle.recv m = .off) :
    (s.leave act).Kept := by
  have hwrote := wrote_call c s.world
  rw [hrun] at hwrote
  suffices hphy : (s.leave act).phy = .off from
    ⟨fun h => absurd h (by simp [Pair.leave, hoff]), fun _ => hphy,
      fun e he => ⟨(hs.stopped e he).1, hoff⟩⟩
  cases hc : s.world.link.connected with
  | false =>
    rw [hsaid, if_neg (by simp [hc])] at hwrote
    have hheard : s.heard s.world (act.run s.world).2 [] = some [] :=
      heard_eq_some.mpr ⟨by rw [hs.closed hc]; rfl, hwrote.symm, rfl⟩
    simp only [Pair.leave, hheard, Phy.follow, hs.closed hc]
    rfl
  | true =>
    obtain ⟨hidle, -⟩ := hs.opened hc
    rw [hsaid, if_pos hc] at hwrote
    have hheard : s.heard s.world (act.run s.world).2 [] = some [.ask m] :=
      heard_eq_some.mpr ⟨⟨by rw [hidle]; rfl, by rw [hidle]; exact congrArg Phy.owes hm⟩,
        hwrote.symm, rfl⟩
    simp only [Pair.leave, hheard, Phy.follow, hidle]
    exact hm

theorem kept_initcom {abortF : Option DevAbortReevalF} (hs : s.Kept) (hrun : s.stop = none)
    (h : s.world.link.connected = false ∨ (pbDevInitCom d n p s.world.link).1 = 0) :
    (s.initcom d n p abortF).Kept := by
  have hstopped : ∀ e, (s.initcom d n p abortF).stop ≠ some e := by
    simp [Pair.initcom, hrun]
  by_cases h0 : (pbDevInitCom d n p s.world.link).1 = 0
  · have hlink : (s.initcom d n p abortF).world.link = ⟨true, [], []⟩ := pbDevInitCom_ok _ _ _ _ h0
    refine ⟨fun _ => ⟨if_pos h0, by rw [hlink]⟩, fun h => ?_, fun e he => absurd he (hstopped e)⟩
    rw [hlink] at h
    cases h
  · have hlink : (s.initcom d n p abortF).world.link = s.world.link :=
      pbDevInitCom_fail _ _ _ _ h0 (h.resolve_right h0)
    have hphy : (s.initcom d n p abortF).phy = s.phy := if_neg h0
    refine ⟨fun h => ?_, fun h => ?_, fun e he => absurd he (hstopped e)⟩
    · rw [hphy, hlink]
      exact hs.opened (hlink ▸ h)
    · exact hphy.trans (hs.closed (hlink ▸ h))

theorem kept_pairExec (m : PairMove) (s : Pair) (hs : s.Kept) (hm : m.Proper s) :
    (m.exec s).Kept := by
  unfold PairMove.exec
  cases hrun : s.stop with
  | some e =>
    exact hs
  | none =>
  replace hm := hm hrun
  simp only [Option.isSome_none, Bool.false_eq_true, if_false]
  cases m with
  | call c ptd => exact kept_pairCall hs hm.1 hm.2
  | disconnect =>
    refine kept_pairLeave (c := .disconnect) (m := .disconnect) hs (fun w => ?_) rfl ?_ rfl
    · rw [Call.exec, run_bind]
      rfl
    · cases hc : s.world.link.connected with
      | false => rw [devDisconnectSC, run_devDisconnect_closed hc, hc]
      | true =>
        rw [devDisconnectSC, run_devDisconnect hc]
        rfl
  | terminate =>
    refine kept_pairLeave (c := .terminate) (m := .terminate) hs (fun w => ?_) rfl ?_ rfl
    · rw [Call.exec, run_bind]
      rfl
    · cases hc : s.world.link.connected with
      | false => rw [devTerminateSC, run_devTerminate_closed hc, hc]
      | true =>
        rw [devTerminateSC, run_devTerminate hc]
        rfl
  | initcomSC d n p abortF => exact kept_initcom hs hrun hm
  | device mem ptr heap => exact ⟨hs.opened, hs.closed, fun e he => by cases he⟩

/-- Blocking calls made one after the other with a phy that replies as the diagrams say,
over any number of sessions: each call says its request, its abort structures and its
verdict, takes the whole of the conversation, stores each packet that fits and returns
what its last answer says; the program stops only when its own callback refuses a
re-evaluation. -/
theorem blocking_calls_exchange {s : Pair} (hs : s.Kept) {moves : List PairMove}
    (hm : Along PairMove.exec PairMove.Proper moves s) :
    Along PairMove.exec PairMove.Exchanges moves s ∧
      ∀ s' ∈ states PairMove.exec moves s, s'.Kept :=
  ⟨along_of_invariant (fun m s hs hm => kept_pairExec m s hs hm)
      (fun m _ hs hm => exchanges_proper hs m hm) hs hm,
    invariant (fun m s hs hm => kept_pairExec m s hs hm) hs hm⟩

end

end PhyCom2G4

namespace PhyCom2G4

open Bytes Program Program.Prog Runs

attribute [local instance] LibPhyCom.posix

/-- A reception with re-evaluations before and after its packet, and a wait. -/
theorem blocking_calls_exchange_rx :
    let s : Pair := ⟨World.start [], .idle, none⟩
    let moves := [.call (.transaction (.rx (parse []) 8 64 32 none))
        ([PhyMsg.abortreeval, .addressfound .v1 (parse [0, 0, 2, 0]) ⟨[7, 9], rfl⟩, .abortreeval,
          .rxEnd .v1 (parse [])].flatMap PhyMsg.write),
      .call (.wait (parse [])) (PhyMsg.write .waitEnd), .disconnect]
    Along PairMove.exec PairMove.Exchanges moves s ∧
      ∀ s' ∈ states PairMove.exec moves s, s'.Kept :=
  blocking_calls_exchange ⟨fun _ => ⟨rfl, rfl⟩, fun h => (by cases h), fun e h => (by cases h)⟩
    ⟨fun _ => ⟨rfl, replied_of_heard (Option.eq_some_of_isSome (by decide +kernel))⟩,
      fun _ => ⟨rfl, replied_of_heard (Option.eq_some_of_isSome (by decide +kernel))⟩,
      fun _ => trivial, trivial⟩

end PhyCom2G4

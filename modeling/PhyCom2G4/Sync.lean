import PhyCom2G4.System

/-!
# Where the two sides are

The device and its phy are in step when `ongoing` says what the phy awaits
and the pointers noted are those of the request that opened the transaction
(`Phy.Synced`). A call that is let through takes the phy to a state its
listener is tuned to, unless it tells the phy what it does not accept
(`recv_synced`); the answer brings the two back in step (`synced_answer`).
-/

namespace PhyCom2G4

open Bytes Memory Wire Program Program.Prog Runs LibPhyCom

variable [LibPhyCom]

def Phy.kind : Phy → Option Kind
  | .busy k | .reeval k => some k
  | .immRssi v found => some (.rx v found)
  | .verdict v => some (.rx v true)
  | _ => none

def Phy.ongoing : Phy → Option OngoingTransaction
  | .idle => some .nothing
  | .reeval k => some k.reeval
  | .verdict _ => some .rxHeaderEval
  | _ => none

/-- What the device gave with the request is what the library goes by. -/
structure NcReq.Registered (req : NcReq) (k : Kind) (nc : DevStateNc) : Prop where
  listener : req.listener = some k.listener
  doneS : req.doneS = some (k.listener.doneS nc)
  reception : ∀ v found, k = .rx v found →
    req.buffer = some (nc.rxbuf, nc.bufsize) ∧ nc.weGotAddress = found

def Phy.Held (opened : Option NcReq) (nc : DevStateNc) (p : Phy) : Prop :=
  ∀ k, p.kind = some k → ∃ req, opened = some req ∧ req.Registered k nc

structure Phy.Synced (opened : Option NcReq) (nc : DevStateNc) (p : Phy) : Prop where
  ongoing : p.ongoing = some nc.ongoing
  held : p.Held opened nc

structure Phy.Awaited (l : Listener) (opened : Option NcReq) (nc : DevStateNc) (p : Phy) :
    Prop where
  owes : p.owes = true
  tuned : p.Tuned l nc
  held : p.Held opened nc
  immRssi : ∀ v found, p = .immRssi v found → nc.ongoing = .rxAbortReeval

/-- A call the library lets through though the phy does not accept it. -/
def NcReq.Strays (opened : Option NcReq) (nc : DevStateNc) : NcReq → Prop
  | .rssi .. | .rssiv2 .. | .wait _ => nc.ongoing ≠ .nothing
  | .rxv2Cont true _ => opened.bind NcReq.listener ≠ some (.rx .v2)
  | _ => False

section
variable {p q : Phy} {m : PhyMsg} {l : Listener} {c : NcReq} {nc : DevStateNc} {k : Kind}
  {opened : Option NcReq} {w : World}

-- ---------------------------------------------------------------------------
-- What a call tells the phy
-- ---------------------------------------------------------------------------

@[simp] theorem recv_fault (d : DevMsg) : Phy.fault.recv d = .fault := rfl

theorem opens_spec (ho : c.opens = some k) :
    c.expects = some .nothing ∧ c.listener = some k.listener ∧
      (∀ mem, Phy.idle.recv (c.message mem) = .busy k) ∧
      (∀ nc, c.Registered k (c.notes nc)) ∧ ∀ nc, (Phy.busy k).Tuned k.listener (c.notes nc) := by
  cases c <;> simp only [NcReq.opens, Option.some.injEq, reduceCtorEq] at ho <;> subst ho
  case rx | rxv2 | rx2v1 =>
    exact ⟨rfl, rfl, fun _ => rfl, fun _ => ⟨rfl, rfl, by rintro v f ⟨⟩; exact ⟨rfl, rfl⟩⟩,
      fun _ => ⟨⟨_, rfl⟩, rfl⟩⟩
  all_goals exact ⟨rfl, rfl, fun _ => rfl, fun _ => ⟨rfl, rfl, by simp⟩, fun _ => rfl⟩

theorem notes_of_not_opens (ho : c.opens = none) (nc : DevStateNc) : c.notes nc = nc := by
  cases c <;> simp [NcReq.opens] at ho <;> rfl

theorem not_strays_of_opens (ho : c.opens = some k) : ¬ c.Strays opened nc := by
  cases c <;> simp [NcReq.opens] at ho <;> exact id

omit [LibPhyCom] in
/-- `ongoing` tells where the phy is. -/
theorem ongoing_cases (h : p.ongoing = some o) :
    match o with
    | .nothing => p = .idle
    | .txAbortReeval => p = .reeval .tx
    | .ccaAbortReeval => p = .reeval .cca
    | .rxAbortReeval => ∃ v found, p = .reeval (.rx v found)
    | .rxHeaderEval => ∃ v, p = .verdict v := by
  cases p with
  | idle => cases h; rfl
  | verdict v => cases h; exact ⟨v, rfl⟩
  | reeval k =>
    cases k with
    | rx v found => cases h; exact ⟨v, found, rfl⟩
    | _ => cases h; rfl
  | _ => cases h

theorem Phy.Held.same (h : p.Held opened nc) (hk : q.kind = p.kind) : q.Held opened nc :=
  fun k hq => h k (hk ▸ hq)

theorem Phy.Held.weGotAddress (h : p.Held opened nc) (hk : p.kind = some (.rx v found)) :
    nc.weGotAddress = found := by
  obtain ⟨req, -, hreg⟩ := h _ hk
  exact (hreg.reception v found rfl).2

theorem plain_spec (hexp : c.expects = none) (mem : Mem) :
    (∃ l, c.listener = some l ∧
      ∀ opened nc, (Phy.idle.recv (c.message mem)).Awaited l opened nc) ∧
      (∀ p : Phy, p ≠ .idle → p.recv (c.message mem) = .fault) ∧
      (∀ opened nc, c.Strays opened nc ↔ nc.ongoing ≠ .nothing) ∧ c.opens = none := by
  have hfault : ∀ d : DevMsg, Phy.idle.recv d = .rssi ∨ Phy.idle.recv d = .waiting →
      ∀ p : Phy, p ≠ .idle → p.recv d = .fault := by
    intro d hd p hp
    cases d <;> simp [Phy.recv] at hd <;> cases p <;> first | rfl | exact absurd rfl hp
  cases c <;> simp only [NcReq.expects, reduceCtorEq] at hexp
  case wait s =>
    refine ⟨⟨_, rfl, fun _ _ => ⟨rfl, rfl, by rintro k ⟨⟩, by rintro v f ⟨⟩⟩⟩, ?_,
      fun _ _ => .rfl, rfl⟩
    exact hfault _ (.inr rfl)
  all_goals
    refine ⟨⟨_, rfl, fun _ _ => ⟨rfl, ⟨_, rfl⟩, by rintro k ⟨⟩, by rintro v f ⟨⟩⟩⟩, ?_,
      fun _ _ => .rfl, rfl⟩
    exact hfault _ (.inl rfl)

/-- In step and let through: the phy is told a verdict that ends the reception,
or what it answers to the listener, or what it does not accept. -/
theorem recv_synced (hs : p.Synced opened nc) (hp : c.passes nc = true) (mem : Mem) :
    let q := p.recv (c.message mem)
    let opened' := if c.opens.isSome then some c else opened
    c.Strays opened nc ∧ q = .fault ∨
      ¬ c.Strays opened nc ∧ (c.listener = none ∧ q = .idle ∨
        ∃ l, c.listener = some l ∧ q.Awaited l opened' (c.notes nc)) := by
  obtain ⟨hon, hheld⟩ := hs
  intro q opened'
  cases hexp : c.expects with
  | none =>
    obtain ⟨⟨l, hlis, hawaited⟩, hfault, hstrays, ho⟩ := plain_spec hexp mem
    by_cases hidle : nc.ongoing = .nothing
    · rw [hidle] at hon
      obtain rfl : p = .idle := ongoing_cases hon
      exact .inr ⟨fun h => (hstrays _ _).mp h hidle, .inr ⟨l, hlis, hawaited _ _⟩⟩
    · refine .inl ⟨(hstrays _ _).mpr hidle, hfault p ?_⟩
      rintro rfl
      exact hidle (Option.some.inj hon).symm
  | some o =>
  cases ho : c.opens with
  | some k =>
    obtain ⟨hexp, hlis, hrecv, hreg, htuned⟩ := opens_spec ho
    rw [(passes_iff hexp).mp hp] at hon
    obtain rfl : p = .idle := ongoing_cases hon
    have hq : q = .busy k := hrecv mem
    have hopened : opened' = some c := by simp [opened', ho]
    refine .inr ⟨not_strays_of_opens ho, .inr ⟨_, hlis, ?_⟩⟩
    rw [hq, hopened]
    refine ⟨rfl, htuned nc, fun k' hk => ⟨c, rfl, ?_⟩, by simp⟩
    obtain rfl := Option.some.inj hk
    exact hreg nc
  | none =>
  have hopened : opened' = opened := by simp [opened', ho]
  rw [hopened, notes_of_not_opens ho]
  cases c <;> simp only [NcReq.opens, reduceCtorEq] at ho
  case newTxAbort abort =>
    rw [(passes_iff rfl).mp hp] at hon
    obtain rfl : p = .reeval .tx := ongoing_cases hon
    exact .inr ⟨id, .inr ⟨_, rfl, rfl, rfl, hheld.same rfl, by simp [q, NcReq.message, Phy.recv]⟩⟩
  case newCcaAbort abort =>
    rw [(passes_iff rfl).mp hp] at hon
    obtain rfl : p = .reeval .cca := ongoing_cases hon
    exact .inr ⟨id, .inr ⟨_, rfl, rfl, rfl, hheld.same rfl, by simp [q, NcReq.message, Phy.recv]⟩⟩
  case newRxAbort abort =>
    rw [(passes_iff rfl).mp hp] at hon
    obtain ⟨v, found, rfl⟩ := ongoing_cases hon
    exact .inr ⟨id, .inr ⟨_, rfl, rfl, ⟨⟨_, rfl⟩, hheld.weGotAddress rfl⟩, hheld.same rfl,
      by simp [q, NcReq.message, Phy.recv]⟩⟩
  case newRxv2Abort abort =>
    rw [(passes_iff rfl).mp hp] at hon
    obtain ⟨v, found, rfl⟩ := ongoing_cases hon
    exact .inr ⟨id, .inr ⟨_, rfl, rfl, ⟨⟨_, rfl⟩, hheld.weGotAddress rfl⟩, hheld.same rfl,
      by simp [q, NcReq.message, Phy.recv]⟩⟩
  case immRSSI s d =>
    have hrx := (passes_iff (c := .immRSSI s d) rfl).mp hp
    rw [hrx] at hon
    obtain ⟨v, found, rfl⟩ := ongoing_cases hon
    exact .inr ⟨id, .inr ⟨_, rfl, rfl, ⟨_, rfl⟩, hheld.same rfl, fun _ _ _ => hrx⟩⟩
  case rxCont devAccepts =>
    rw [(passes_iff rfl).mp hp] at hon
    obtain ⟨v, rfl⟩ := ongoing_cases hon
    cases devAccepts with
    | false =>
      refine .inr ⟨id, .inl ⟨rfl, ?_⟩⟩
      cases v <;> rfl
    | true =>
      exact .inr ⟨id, .inr ⟨_, rfl, rfl, ⟨⟨_, rfl⟩, hheld.weGotAddress rfl⟩, hheld.same rfl,
        by simp [q, NcReq.message, Phy.recv]⟩⟩
  case rxv2Cont devAccepts abort =>
    rw [(passes_iff rfl).mp hp] at hon
    obtain ⟨v, rfl⟩ := ongoing_cases hon
    obtain ⟨req, hreq, hreg⟩ := hheld _ rfl
    cases devAccepts with
    | false =>
      refine .inr ⟨id, .inl ⟨rfl, ?_⟩⟩
      cases v <;> rfl
    | true =>
      have hlis : opened.bind NcReq.listener = some (.rx v) := by
        rw [hreq]
        exact hreg.listener
      cases v with
      | v1 => exact .inl ⟨by simp [NcReq.Strays, hlis], rfl⟩
      | v2 =>
        exact .inr ⟨fun h => h hlis, .inr ⟨_, rfl, rfl, ⟨⟨_, rfl⟩, hheld.weGotAddress rfl⟩,
          hheld.same rfl, by simp [q, NcReq.message, Phy.recv]⟩⟩
  all_goals simp [NcReq.expects] at hexp

/-- The same for a device that may be ahead of an idle phy, or have lost it. -/
theorem recv_astray (hs : p = .fault ∨ p = .idle ∨ p.Synced opened nc) (hp : c.passes nc = true)
    (mem : Mem) :
    let q := p.recv (c.message mem)
    let opened' := if c.opens.isSome then some c else opened
    q = .fault ∨ c.listener = none ∧ q = .idle ∨
      ∃ l, c.listener = some l ∧ q.Awaited l opened' (c.notes nc) := by
  by_cases hsynced : p.Synced opened nc
  · exact (recv_synced hsynced hp mem).elim (fun h => .inl h.2) fun h => .inr h.2
  rcases hs with rfl | rfl | hs
  · exact .inl rfl
  · cases hexp : c.expects with
    | none =>
      obtain ⟨⟨l, hlis, hawaited⟩, -⟩ := plain_spec hexp mem
      exact .inr (.inr ⟨l, hlis, hawaited _ _⟩)
    | some o =>
      have hno : c.opens = none := by
        refine Option.eq_none_iff_forall_ne_some.mpr fun k ho => hsynced ⟨?_, by rintro k ⟨⟩⟩
        rw [(passes_iff (opens_spec ho).1).mp hp]
        rfl
      left
      cases c <;> simp only [NcReq.opens, reduceCtorEq, NcReq.expects] at hno hexp
      case rxCont devAccepts => cases devAccepts <;> rfl
      case rxv2Cont devAccepts abort => cases devAccepts <;> rfl
      all_goals rfl
  · exact absurd hs hsynced

-- ---------------------------------------------------------------------------
-- What an answer brings
-- ---------------------------------------------------------------------------

theorem NcReq.Registered.setOngoing {req : NcReq} (h : req.Registered k nc)
    (o : OngoingTransaction) : req.Registered k { nc with ongoing := o } := by
  refine ⟨h.listener, ?_, h.reception⟩
  rw [h.doneS]
  cases k with
  | rx v found => cases v <;> rfl
  | _ => rfl

theorem Phy.Held.setOngoing (h : p.Held opened nc) (o : OngoingTransaction)
    (hk : q.kind = p.kind) : q.Held opened { nc with ongoing := o } := by
  intro k hq
  obtain ⟨req, hreq, hreg⟩ := h k (hk ▸ hq)
  exact ⟨req, hreq, hreg.setOngoing o⟩

/-- An answer that leaves the link open brings the two in step; a measurement
or a wait leaves the device as it was. -/
theorem synced_answer (ha : p.Answers m q) (hw : p.Awaited l opened w.nc) (hu : m.Understood l)
    (hopen : m.closes w.nc.bufsize = false) :
    let nc' := ((m.heard w.nc.bufsize).world l w).nc
    q.Synced opened nc' ∨ (p = .rssi ∨ p = .waiting) ∧ q = .idle ∧ nc' = w.nc := by
  obtain ⟨-, ht, hheld, himm⟩ := hw
  have hidle : ∀ nc : DevStateNc, nc.ongoing = .nothing → Phy.idle.Synced opened nc :=
    fun nc hnc => ⟨congrArg some hnc.symm, by rintro k ⟨⟩⟩
  cases ha with
  | abortreeval k =>
    left
    cases k with
    | rx v found =>
      obtain ⟨⟨v', rfl⟩, -⟩ := ht
      exact ⟨rfl, hheld.setOngoing _ rfl⟩
    | _ =>
      obtain rfl := ht
      exact ⟨rfl, hheld.setOngoing _ rfl⟩
  | addressfound v done packet =>
    obtain rfl : l = .rx v := hu
    obtain ⟨req, hreq, hreg⟩ := hheld _ rfl
    replace hopen : PhyMsg.tooBig w.nc.bufsize (.addressfound v done packet) = false := hopen
    left
    simp only [PhyMsg.heard, hopen, Heard.world, Bool.false_eq_true, if_false, Found.judged,
      found_nc, World.took_nc]
    refine ⟨rfl, ?_⟩
    rintro k ⟨⟩
    refine ⟨req, hreq, hreg.listener, ?_, ?_⟩
    · rw [hreg.doneS]
      cases v <;> rfl
    · rintro v' found ⟨⟩
      exact ⟨(hreg.reception v false rfl).1, rfl⟩
  | txEnd | ccaEnd =>
    obtain rfl := ht
    exact .inl (hidle _ rfl)
  | rxEnd =>
    obtain ⟨⟨v, rfl⟩, -⟩ := ht
    exact .inl (hidle _ rfl)
  | immrssiRrsiDone v found done =>
    obtain ⟨d, rfl⟩ := ht
    exact .inl ⟨congrArg some (himm v found rfl).symm, hheld.same rfl⟩
  | rssiEnd =>
    obtain ⟨d, rfl⟩ := ht
    exact .inr ⟨.inl rfl, rfl, rfl⟩
  | waitEnd =>
    obtain rfl : l = .wait := ht
    exact .inr ⟨.inr rfl, rfl, rfl⟩
  | disconnect p ho => simp [PhyMsg.closes] at hopen

-- ---------------------------------------------------------------------------
-- A call of the device
-- ---------------------------------------------------------------------------

@[simp] theorem fed_none : w.fed none = w := by
  simp [World.fed]

theorem readAll_exec (c : NcReq) (w : World) :
    devCodec.readAll (w.wrote (c.exec.run w).2) = some (c.said w) := by
  obtain ⟨es, hlog, hw⟩ := said_log (.nc c) w
  have hwrote : w.wrote (c.exec.run w).2 = devCodec.writeAll (c.said w) := wrote_eq hlog hw
  rw [hwrote, devCodec.readAll_writeAll]

variable {s : Sys}

theorem call_closed (hc : s.world.link.connected = false) :
    s.call c none = { s with stop := none, turn := s.turn.next c (-1) } := by
  have hsp : ¬ c.Speaks s.world := by simp [NcReq.Speaks, hc]
  simp only [Sys.call, fed_none, readAll_exec, NcReq.said, hc, Bool.false_eq_true, false_and,
    if_false, Phy.hear, hsp, and_false]
  rw [run_exec_closed hc]

theorem call_stopped (hc : s.world.link.connected = true) (hp : c.passes s.world.nc = false) :
    s.call c none = { s with
      world := { s.world with nc := c.notesFirst s.world.nc }
      stop := some (.error c.complaint) } := by
  have hsp : ¬ c.Speaks s.world := by simp [NcReq.Speaks, hp]
  simp only [Sys.call, fed_none, readAll_exec, NcReq.said, hp, Bool.false_eq_true, and_false,
    if_false, Phy.hear, hsp]
  rw [run_exec_stopped hc c hp]

theorem call_reject (hsp : c.Speaks s.world) (hl : c.listener = none) :
    s.call c none =
      { world := (c.spoken s.world).setOngoing .nothing
        phy := s.phy.recv (c.message s.world.mem)
        stop := none
        turn := s.turn.next c 0
        opened := if c.opens.isSome then some c else s.opened } := by
  have hsaid : c.said s.world = [c.message s.world.mem] := by
    refine (if_pos hsp).trans ?_
    rw [hl]
  simp only [Sys.call, fed_none, readAll_exec, hsaid, Phy.hear, Phy.reply, List.foldl_nil, hsp,
    and_true]
  rw [run_exec_reject hsp.1 c hsp.2 hl]

theorem call_heard (hsp : c.Speaks s.world) (hl : c.listener = some l) {heard : Heard}
    (hh : l.hear (c.notes s.world.nc) (s.world.fed answer).link.ptd = heard) :
    s.call c answer =
      { world := heard.world l (c.spoken (s.world.fed answer))
        phy := heard.said.foldl Phy.recv ((s.phy.recv (c.message s.world.mem)).reply answer)
        stop := match heard.ret l with
          | .ok _ => none
          | .error stop => some stop
        turn := match heard.ret l with
          | .ok ret => s.turn.next c ret
          | .error _ => s.turn
        opened := if c.opens.isSome then some c else s.opened } := by
  have hsp' : (s.world.fed answer).link.connected = true ∧
      c.passes (s.world.fed answer).nc = true := hsp
  have hsaid : c.said (s.world.fed answer) = c.message s.world.mem :: heard.said := by
    refine (if_pos hsp').trans ?_
    rw [hl]
    exact congrArg (fun heard : Heard => _ :: heard.said) hh
  have hrun := run_exec_heard hsp'.1 c hsp'.2 hl
  rw [World.fed_nc, hh] at hrun
  simp only [Sys.call, readAll_exec, hsaid, Phy.hear, hsp, and_true]
  rw [hrun]
  rfl

theorem call_silent (hsp : c.Speaks s.world) (hl : c.listener = some l)
    (hptd : s.world.link.ptd = []) :
    s.call c none =
      { world := (c.spoken s.world).cut (sizeof PcHeader)
        phy := s.phy.recv (c.message s.world.mem)
        stop := none
        turn := s.turn.next c (-1)
        opened := if c.opens.isSome then some c else s.opened } := by
  have hcut : l.hear (c.notes s.world.nc) (s.world.fed none).link.ptd = .cut := by
    rw [fed_none, hptd]
    rfl
  rw [call_heard hsp hl hcut, fed_none]
  rfl

theorem fed_some (hptd : w.link.ptd = []) (m : PhyMsg) :
    (w.fed (some m)).link.ptd = bytes m.header ++ (m.done ++ m.packet) := by
  rw [World.fed_link_ptd, hptd]
  rfl

theorem foldl_said_heard (bufSize : Nat) (m : PhyMsg) (q : Phy) :
    (m.heard bufSize).said.foldl Phy.recv q =
      if m.tooBig bufSize then q.recv .disconnect else q := by
  cases m with
  | addressfound v done packet =>
    simp only [PhyMsg.heard, Heard.said]
    cases PhyMsg.tooBig bufSize (.addressfound v done packet) <;> rfl
  | _ => rfl

theorem call_answered (hsp : c.Speaks s.world) (hl : c.listener = some l)
    (hptd : s.world.link.ptd = []) (ha : (s.phy.recv (c.message s.world.mem)).answer m = some q)
    (ht : (s.phy.recv (c.message s.world.mem)).Tuned l (c.notes s.world.nc))
    (hu : m.Understood l) :
    let bufSize := (c.notes s.world.nc).bufsize
    s.call c (some m) =
      { world := (m.heard bufSize).world l (c.spoken (s.world.fed (some m)))
        phy := if m.tooBig bufSize then q.recv .disconnect else q
        stop := none
        turn := s.turn.next c (m.ret bufSize)
        opened := if c.opens.isSome then some c else s.opened } := by
  have hans := answers_of_answer ha
  have hhear : l.hear (c.notes s.world.nc) (s.world.fed (some m)).link.ptd =
      m.heard (c.notes s.world.nc).bufsize := by
    rw [fed_some hptd, hear_bytes, heed_answer hans ht hu]
  dsimp only
  rw [call_heard hsp hl hhear, ret_answer hans ht hu, foldl_said_heard, Phy.reply, ha]
  rfl

theorem link_answered (hsp : c.Speaks s.world)
    (ha : (s.phy.recv (c.message s.world.mem)).Answers m q)
    (ht : (s.phy.recv (c.message s.world.mem)).Tuned l (c.notes s.world.nc)) :
    let bufSize := (c.notes s.world.nc).bufsize
    let link := ((m.heard bufSize).world l (c.spoken (s.world.fed (some m)))).link
    link.connected = !m.closes bufSize ∧ (m.closes bufSize = false → link.ptd = []) :=
  link_answer (w := c.spoken (s.world.fed (some m))) ha ht hsp.1

theorem exec_answered (hsp : c.Speaks s.world) (hl : c.listener = some l)
    (hptd : s.world.link.ptd = []) (ha : (s.phy.recv (c.message s.world.mem)).Answers m q)
    (ht : (s.phy.recv (c.message s.world.mem)).Tuned l (c.notes s.world.nc))
    (hu : m.Understood l) :
    let bufSize := (c.notes s.world.nc).bufsize
    c.exec.run (s.world.fed (some m)) =
      (.ok (m.ret bufSize), (m.heard bufSize).world l (c.spoken (s.world.fed (some m)))) := by
  have hrun := run_exec_heard (w := s.world.fed (some m)) hsp.1 c hsp.2 hl
  have hhear : l.hear (c.notes (s.world.fed (some m)).nc) (s.world.fed (some m)).link.ptd =
      m.heard (c.notes s.world.nc).bufsize := by
    rw [fed_some hptd, hear_bytes]
    exact heed_answer ha ht hu
  rw [hrun, hhear, Heard.outcome, ret_answer ha ht hu]

theorem takes_answered (hsp : c.Speaks s.world) (hl : c.listener = some l)
    (hptd : s.world.link.ptd = []) (ha : (s.phy.recv (c.message s.world.mem)).Answers m q)
    (ht : (s.phy.recv (c.message s.world.mem)).Tuned l (c.notes s.world.nc))
    (hu : m.Understood l) :
    let nc := c.notes s.world.nc
    c.Takes m (l.doneS nc) nc.rxbuf nc.bufsize s := by
  have hexec := exec_answered hsp hl hptd ha ht hu
  have hstore := store_answer (w := c.spoken (s.world.fed (some m))) ha ht hu
  dsimp only [NcReq.Takes]
  rw [hexec]
  exact ⟨rfl, hstore⟩

theorem exec_silent (hsp : c.Speaks s.world) (hptd : s.world.link.ptd = []) :
    (c.exec.run s.world).2.store = s.world.store ∧
      (c.exec.run s.world).1 = .ok (if c.listener = none then 0 else -1) := by
  cases hl : c.listener with
  | none =>
    rw [run_exec_reject hsp.1 c hsp.2 hl]
    exact ⟨rfl, rfl⟩
  | some l =>
    rw [run_exec_heard hsp.1 c hsp.2 hl, hptd]
    exact ⟨by cases l <;> rfl, rfl⟩

theorem call_not_understood (hsp : c.Speaks s.world) (hl : c.listener = some l)
    (hptd : s.world.link.ptd = []) (ha : (s.phy.recv (c.message s.world.mem)).answer m = some q)
    (ht : (s.phy.recv (c.message s.world.mem)).Tuned l (c.notes s.world.nc))
    (hu : ¬ m.Understood l) :
    (s.call c (some m)).stop = some (.invalidResp m.header) ∧ (s.call c (some m)).phy = q := by
  have hhear : l.hear (c.notes s.world.nc) (s.world.fed (some m)).link.ptd =
      .invalid m.header (m.done ++ m.packet) := by
    rw [fed_some hptd, hear_bytes, heed_not_understood (answers_of_answer ha) ht hu]
  rw [call_heard hsp hl hhear, Phy.reply, ha]
  exact ⟨rfl, rfl⟩

-- ---------------------------------------------------------------------------
-- Moves that are no call
-- ---------------------------------------------------------------------------

theorem exec_of_stop (h : s.stop ≠ none) (m : Move) : m.exec s = s :=
  if_pos (Option.isSome_iff_ne_none.mpr h)

theorem exec_of_running (h : s.stop = none) (m : Move) :
    m.exec s = match m with
      | .call c answer => s.call c answer
      | .disconnect => s.leave devDisconnectSNc
      | .terminate => s.leave devTerminateSNc
      | .initComSNc d n p => s.initCom (devInitComSNc d n p) d n p
      | .initcomNc d n p => s.initCom (devInitcomNc d n p) d n p
      | .device mem ptr heap => { s with world := { s.world with mem, ptr, heap } } :=
  if_neg (by simp [h])

inductive Leaves : M Unit → Prop
  | disconnect : Leaves devDisconnectSNc
  | terminate : Leaves devTerminateSNc

theorem leave_spec {act : M Unit} (ha : Leaves act) :
    let s' := s.leave act
    s'.stop = s.stop ∧ s'.turn = .over ∧ s'.world.link.connected = false ∧
      if s.world.link.connected then s.phy ≠ .fault → s.phy ≠ .off → s'.phy = .off
      else s'.phy = s.phy := by
  obtain ⟨d, hclosed, hopen, hoff⟩ : ∃ d : DevMsg,
      (s.world.link.connected = false → act.run s.world = (.ok (), s.world)) ∧
      (s.world.link.connected = true → s.world.link.Continues [d] (act.run s.world).2.link ∧
        (act.run s.world).2.link.connected = false) ∧
        ∀ p : Phy, p ≠ .fault → p ≠ .off → p.recv d = .off := by
    cases ha with
    | disconnect =>
      refine ⟨.disconnect, run_devDisconnect_closed, fun hc => ?_, fun p hf ho => ?_⟩
      · rw [devDisconnectSNc, run_devDisconnect hc]
        exact ⟨continues_disconnect, rfl⟩
      · cases p <;> first | rfl | exact absurd rfl hf | exact absurd rfl ho
    | terminate =>
      refine ⟨.terminate, run_devTerminate_closed, fun hc => ?_, fun p hf ho => ?_⟩
      · rw [devTerminateSNc, run_devTerminate hc]
        exact ⟨continues_terminate, rfl⟩
      · cases p <;> first | rfl | exact absurd rfl hf | exact absurd rfl ho
  refine ⟨rfl, rfl, ?_⟩
  cases hc : s.world.link.connected with
  | false =>
    have hwrote : s.world.wrote s.world = devCodec.writeAll [] :=
      wrote_eq (by simp : _ = _ ++ ([] : List Event)) rfl
    have hworld : (s.leave act).world = s.world := by simp only [Sys.leave, hclosed hc]
    have hphy : (s.leave act).phy = s.phy := by
      simp only [Sys.leave, hclosed hc, hwrote, devCodec.readAll_writeAll, Phy.hear]
    exact ⟨by rw [hworld, hc], (if_neg Bool.false_ne_true).mpr hphy⟩
  | true =>
    obtain ⟨⟨es, hlog, hw, -⟩, hshut⟩ := hopen hc
    refine ⟨hshut, fun hf ho => ?_⟩
    simp only [Sys.leave, wrote_eq hlog hw, devCodec.readAll_writeAll, Phy.hear, Phy.reply,
      List.foldl_nil]
    exact hoff _ hf ho

inductive Opens (d : UInt32) (n p : String) :
    M Int32 → (OngoingTransaction → OngoingTransaction) → Prop
  | comSNc : Opens d n p (devInitComSNc d n p) id
  | comNc : Opens d n p (devInitcomNc d n p) fun _ => .nothing

theorem initCom_spec {act : M Int32} {o : OngoingTransaction → OngoingTransaction} {d : UInt32}
    {n p : String} (ha : Opens d n p act o)
    (h : s.world.link.connected = false ∨ (pbDevInitCom d n p s.world.link).1 = 0) :
    let s' := s.initCom act d n p
    s'.stop = s.stop ∧ s'.world.nc.ongoing = o s.world.nc.ongoing ∧
      if (pbDevInitCom d n p s.world.link).1 = 0 then
        s'.world.link = ⟨true, [], []⟩ ∧ s'.phy = .idle ∧ s'.turn = .free ∧ s'.opened = none
      else s'.world.link.connected = false ∧ s'.phy = s.phy := by
  have hrun : (act.run s.world).2.link = (pbDevInitCom d n p s.world.link).2 ∧
      (act.run s.world).2.nc.ongoing = o s.world.nc.ongoing := by
    cases ha <;> exact ⟨rfl, rfl⟩
  unfold Sys.initCom
  split
  next h0 => exact ⟨rfl, hrun.2, by rw [hrun.1, pbDevInitCom_ok _ _ _ _ h0], rfl, rfl, rfl⟩
  next h0 =>
    have hc := h.resolve_right h0
    exact ⟨rfl, hrun.2, by rw [hrun.1, pbDevInitCom_fail _ _ _ _ h0 hc]; exact hc, rfl⟩

end

end PhyCom2G4

import PhyCom2G4.Lib.Dialogue
import PhyCom2G4.Guards

/-!
# What is said on the link

The phy as the server of the device: its answers are read with its state, which
tells an immediate RSSI measurement from an address found though their headers
have one value. The bytes on the two FIFOs give back a whole conversation, in
the order in which it was held (`overhear_eq_some`).
-/

namespace PhyCom2G4

open Bytes Memory Wire Dialogue Program Program.Prog Runs LibPhyCom

variable [LibPhyCom]

-- ---------------------------------------------------------------------------
-- Messages of the device
-- ---------------------------------------------------------------------------

theorem write_plain {m : DevMsg} (ht : m.tail = []) : m.write = bytes m.header ++ m.body := by
  rw [DevMsg.write, ht, List.append_nil]

theorem write_bare {m : DevMsg} (hb : m.body = []) (ht : m.tail = []) :
    m.write = bytes m.header := by
  rw [write_plain ht, hb, List.append_nil]

theorem devCodec_exact : devCodec.Exact := by
  intro s m rest hm
  obtain ⟨⟨h, s'⟩, hpick, hread⟩ := Option.bind_eq_some_iff.mp hm
  obtain rfl := pick_eq_some.mp hpick
  refine ((?_ : Spelt DevMsg.write (fun _ => True) h s' _) m rest hread).1
  dsimp only
  -- one header after the other, as the decoder goes
  repeat
    refine .ite ?_ ?_
    · first
      | exact spelt_some (write_bare rfl rfl) trivial
      | exact spelt_readOne (fun _ => write_plain rfl) fun _ => trivial
      | exact spelt_readMany (fun _ _ => rfl) fun _ _ => trivial
  exact spelt_none

-- ---------------------------------------------------------------------------
-- Messages of the phy
-- ---------------------------------------------------------------------------

def Kind.read (h : PcHeader) (s : List Byte) : Kind → Option (PhyMsg × List Byte)
  | .tx => if h = msgTxEnd then readOne .txEnd s else none
  | .cca => if h = msgCcaEnd then readOne .ccaEnd s else none
  | .rx v found =>
    if h = v.rxEnd then readOne (.rxEnd v) s
    else if h = v.addressfound ∧ found = false then
      readMany (fun done => v.packetSize (bytes done)) (.addressfound v) s
    else none

def Phy.readAfter (h : PcHeader) (s : List Byte) (p : Phy) : Option (PhyMsg × List Byte) :=
  if h = msgDisconnect then (if p.owes then some (.disconnect, s) else none)
  else match p with
  | .busy k => if h = msgAbortreeval then some (.abortreeval, s) else k.read h s
  | .immRssi .. => if h = msgImmrssiRrsiDone then readOne .immrssiRrsiDone s else none
  | .rssi => if h = msgRssiEnd then readOne .rssiEnd s else none
  | .waiting => if h = msgWaitEnd then some (.waitEnd, s) else none
  | _ => none

def PhyMsg.read (p : Phy) (s : List Byte) : Option (PhyMsg × List Byte) := do
  let (h, s) ← pick PcHeader s
  p.readAfter h s

omit [LibPhyCom] in
theorem bytes_byte (b : Byte) : bytes b = [b] := by
  have h : UInt8.ofNat b.toNat = b := UInt8.ofNat_toNat
  exact congrArg (fun b => [b]) h

omit [LibPhyCom] in
/-- A packet is laid out as it is. -/
theorem bytes_packet (packet : List.Vector Byte n) : bytes packet = packet.val := by
  obtain ⟨bs, hbs⟩ := packet
  change bs.flatMap bytes = bs
  clear hbs
  induction bs with
  | nil => rfl
  | cons b bs ih => rw [List.flatMap_cons, ih, bytes_byte, List.singleton_append]

section
variable {p q : Phy} {m : PhyMsg} {s rest : List Byte}

theorem answer_of_answers (h : p.Answers m q) : p.answer m = some q := by
  cases h with
  | addressfound v | rxEnd v => exact if_pos rfl
  | disconnect p ho =>
    cases p with
    | idle | reeval | verdict | off | fault => cases ho
    | busy k =>
      cases k with
      | rx v found => cases found <;> rfl
      | _ => rfl
    | _ => rfl
  | _ => rfl

theorem not_owes_of_answers (h : p.Answers m q) : q.owes = false := by
  cases h <;> rfl

theorem owes_of_answers (h : p.Answers m q) : p.owes = true := by
  cases h with
  | disconnect p ho => exact ho
  | _ => rfl

def Phy.MayAnswer (p : Phy) (m : PhyMsg) : Prop := ∃ q, p.Answers m q

theorem PhyMsg.write_plain (hp : m.packet = []) : m.write = bytes m.header ++ m.done := by
  rw [PhyMsg.write, hp, List.append_nil]

theorem PhyMsg.write_bare (hd : m.done = []) (hp : m.packet = []) : m.write = bytes m.header := by
  rw [PhyMsg.write_plain hp, hd, List.append_nil]

theorem spelt_kind (h : PcHeader) (s : List Byte) (k : Kind) :
    Spelt PhyMsg.write (Phy.busy k).MayAnswer h s (k.read h s) := by
  cases k with
  | tx =>
    exact .ite (spelt_readOne (fun _ => PhyMsg.write_plain rfl) fun _ => ⟨_, .txEnd _⟩) spelt_none
  | cca =>
    exact .ite (spelt_readOne (fun _ => PhyMsg.write_plain rfl) fun _ => ⟨_, .ccaEnd _⟩) spelt_none
  | rx v found =>
    refine .ite (spelt_readOne (fun _ => PhyMsg.write_plain rfl) fun _ => ⟨_, .rxEnd v found _⟩) ?_
    split
    next hf =>
      obtain ⟨rfl, rfl⟩ := hf
      refine spelt_readMany (fun done packet => ?_) fun done packet =>
        ⟨_, .addressfound v done packet⟩
      rw [bytes_packet]
      rfl
    next => exact spelt_none

theorem spelt_answer (p : Phy) (h : PcHeader) (s : List Byte) :
    Spelt PhyMsg.write p.MayAnswer h s (p.readAfter h s) := by
  refine .ite ?_ ?_
  · split
    next ho => exact spelt_some (PhyMsg.write_bare rfl rfl) ⟨_, .disconnect p ho⟩
    next => exact spelt_none
  cases p with
  | busy k =>
    exact .ite (spelt_some (PhyMsg.write_bare rfl rfl) ⟨_, .abortreeval k⟩) (spelt_kind h s k)
  | immRssi v found =>
    exact .ite (spelt_readOne (fun _ => PhyMsg.write_plain rfl) fun _ =>
      ⟨_, .immrssiRrsiDone v found _⟩) spelt_none
  | rssi =>
    exact .ite (spelt_readOne (fun _ => PhyMsg.write_plain rfl) fun _ => ⟨_, .rssiEnd _⟩) spelt_none
  | waiting => exact .ite (spelt_some (PhyMsg.write_bare rfl rfl) ⟨_, .waitEnd⟩) spelt_none
  | _ => exact spelt_none

/-- In the state of the phy a header means one thing. -/
theorem read_answer (h : p.Answers m q) (rest : List Byte) :
    PhyMsg.read p (m.write ++ rest) = some (m, rest) := by
  have htx : msgTxEnd ≠ msgAbortreeval := by decide
  have hcca : msgCcaEnd ≠ msgAbortreeval := by decide
  cases h with
  | disconnect p ho =>
    simp [PhyMsg.read, PhyMsg.write, PhyMsg.header, PhyMsg.done, PhyMsg.packet, Phy.readAfter,
      ho]
  | addressfound v done packet =>
    simp [PhyMsg.read, PhyMsg.write, PhyMsg.header, PhyMsg.done, PhyMsg.packet, Phy.readAfter,
      Kind.read, Ne.symm (rxEnd_ne_addressfound v v), ← bytes_packet packet]
  | _ =>
    simp [PhyMsg.read, PhyMsg.write, PhyMsg.header, PhyMsg.done, PhyMsg.packet, Phy.readAfter,
      Kind.read, htx, hcca]

theorem PhyMsg.read_eq_some :
    PhyMsg.read p s = some (m, rest) ↔ s = m.write ++ rest ∧ (p.answer m).isSome = true := by
  constructor
  · intro h
    obtain ⟨⟨hd, s'⟩, hpick, hread⟩ := Option.bind_eq_some_iff.mp h
    obtain rfl := pick_eq_some.mp hpick
    obtain ⟨hs, q, hq⟩ := spelt_answer p hd s' m rest hread
    exact ⟨hs, by rw [answer_of_answers hq]; rfl⟩
  · rintro ⟨rfl, ha⟩
    obtain ⟨q, hq⟩ := Option.isSome_iff_exists.mp ha
    exact read_answer (answers_of_answer hq) rest

theorem PhyMsg.write_pos (m : PhyMsg) : 0 < m.write.length := by
  have : sizeof PcHeader = 4 := rfl
  simp only [PhyMsg.write, List.length_append, length_bytes]
  omega

end

-- ---------------------------------------------------------------------------
-- Conversations
-- ---------------------------------------------------------------------------

def phyServer : Server Phy DevMsg PhyMsg Byte where
  owes := Phy.owes
  recv := Phy.recv
  answer := Phy.answer
  write := PhyMsg.write
  read := PhyMsg.read
  owes_of_answer _ _ _ h := owes_of_answers (answers_of_answer h)
  write_pos := PhyMsg.write_pos
  read_eq_some _ _ _ _ := PhyMsg.read_eq_some

/-- The conversation with a phy in the state `p` whose bytes these are on the device
to phy FIFO and on the other. -/
def overhear (p : Phy) (dtp ptd : List Byte) : Option (List (Word DevMsg PhyMsg)) := do
  phyServer.tell p (← devCodec.readAll dtp) ptd

theorem overhear_eq_some :
    overhear p dtp ptd = some ws ↔
      phyServer.Orderly p ws ∧ devCodec.writeAll (asks ws) = dtp ∧ phyServer.stream ws = ptd := by
  unfold overhear
  rw [Option.bind_eq_bind, Option.bind_eq_some_iff]
  constructor
  · rintro ⟨ms, hms, htell⟩
    obtain ⟨hord, rfl, hs⟩ := Server.tell_eq_some.mp htell
    exact ⟨hord, ((Codec.readAll_eq_some devCodec_exact).mp hms).symm, hs⟩
  · rintro ⟨hord, rfl, hs⟩
    exact ⟨_, devCodec.readAll_writeAll _, Server.tell_eq_some.mpr ⟨hord, rfl, hs⟩⟩

-- ---------------------------------------------------------------------------
-- The conversations of a device
-- ---------------------------------------------------------------------------

def wordsOf (answer : Option PhyMsg) : List DevMsg → List (Word DevMsg PhyMsg)
  | [] => []
  | m :: ms => .ask m :: (answer.toList.map .answer ++ ms.map .ask)

def Move.words (m : Move) (s : Sys) : List (Word DevMsg PhyMsg) :=
  if s.stop.isSome then []
  else match m with
    | .call c answer => wordsOf answer (c.said (s.world.fed answer))
    | .disconnect => (Call.disconnect.said s.world).map .ask
    | .terminate => (Call.terminate.said s.world).map .ask
    | _ => []

def Move.reopens (m : Move) (s : Sys) : Bool :=
  s.stop.isNone && match m with
    | .initComSNc d n p | .initcomNc d n p => (pbDevInitCom d n p s.world.link).1 = 0
    | _ => false

/-- A device with all that was said in its session, in order, and all that the phy
wrote in it. -/
structure Tap where
  sys : Sys
  said : List (Word DevMsg PhyMsg)
  ptd : List Byte

def Move.wrote (m : Move) (s : Sys) : List Byte :=
  if s.stop.isSome then []
  else match m with
    | .call _ (some m) => m.write
    | _ => []

def Move.tap (m : Move) (t : Tap) : Tap where
  sys := m.exec t.sys
  said := if m.reopens t.sys then [] else t.said ++ m.words t.sys
  ptd := if m.reopens t.sys then [] else t.ptd ++ m.wrote t.sys

def Tap.dtp (t : Tap) : List Byte := t.sys.world.link.log.flatMap Event.written

structure Tap.Told (t : Tap) : Prop where
  orderly : phyServer.Orderly .idle t.said
  phy : phyServer.after .idle t.said = t.sys.phy
  dtp : t.dtp = devCodec.writeAll (asks t.said)
  ptd : t.ptd = phyServer.stream t.said

section
variable {p q : Phy} {s : Sys} {t : Tap} {c : NcReq} {w : World}

def Parting (ms : List DevMsg) : Prop := ms = [] ∨ ms = [.disconnect] ∨ ms = [.terminate]

theorem orderly_parting (h : p.owes = false) (hms : Parting ms) :
    phyServer.Orderly p (ms.map .ask) ∧
      phyServer.after p (ms.map .ask) = ms.foldl Phy.recv p := by
  have hleft : (p.recv .disconnect).owes = false ∧ (p.recv .terminate).owes = false := by
    cases p <;> exact ⟨rfl, rfl⟩
  rcases hms with rfl | rfl | rfl
  · exact ⟨h, rfl⟩
  · exact ⟨⟨h, hleft.1⟩, rfl⟩
  · exact ⟨⟨h, hleft.2⟩, rfl⟩

theorem orderly_wordsOf (h : p.owes = false) (hm : (p.recv m).Follows answer)
    (hms : Parting ms) :
    phyServer.Orderly p (wordsOf answer (m :: ms)) ∧
      phyServer.after p (wordsOf answer (m :: ms)) = p.hear answer (some (m :: ms)) := by
  cases answer with
  | none =>
    obtain ⟨hord, hafter⟩ := orderly_parting hm hms
    exact ⟨⟨h, hord⟩, hafter⟩
  | some a =>
    obtain ⟨q, hq⟩ := Option.isSome_iff_exists.mp hm
    have hq' : phyServer.answer (phyServer.recv p m) a = some q := hq
    have hno : q.owes = false := not_owes_of_answers (answers_of_answer hq)
    obtain ⟨hord, hafter⟩ := orderly_parting hno hms
    refine ⟨⟨h, q, hq, hord⟩, ?_⟩
    have hhear : phyServer.hear (phyServer.recv p m) (.answer a) = q := Server.hear_answer hq'
    have hreply : (p.recv m).reply (some a) = q := by rw [Phy.reply, hq]; rfl
    rw [Phy.hear, hreply, ← hafter]
    exact congrArg (fun q => phyServer.after q (ms.map .ask)) hhear

/-- After its message a call says nothing but that it leaves. -/
theorem said_exec (c : NcReq) (w : World) : c.said w = [] ∧ ¬ c.Speaks w ∨
    c.Speaks w ∧ ∃ ms, c.said w = c.message w.mem :: ms ∧ Parting ms := by
  unfold NcReq.said
  split
  next hsp =>
    refine .inr ⟨hsp, _, rfl, ?_⟩
    cases c.listener with
    | none => exact .inl rfl
    | some l =>
      dsimp only
      cases l.hear (c.notes w.nc) w.link.ptd with
      | found v f =>
        cases f with
        | tooBig => exact .inr (.inl rfl)
        | _ => exact .inl rfl
      | _ => exact .inl rfl
  next hsp => exact .inl ⟨rfl, hsp⟩

theorem Tap.Told.said (ht : t.Told) (hord : phyServer.Orderly t.sys.phy ws)
    (hafter : phyServer.after t.sys.phy ws = s.phy)
    (hlog : s.world.link.log = t.sys.world.link.log ++ es)
    (hes : es.flatMap Event.written = devCodec.writeAll (asks ws))
    (hbs : bs = phyServer.stream ws) : Tap.Told ⟨s, t.said ++ ws, t.ptd ++ bs⟩ where
  orderly := ht.orderly.append (by rwa [ht.phy])
  phy := by rw [Server.after_append, ht.phy, hafter]
  dtp := by
    have hdtp : t.sys.world.link.log.flatMap Event.written = devCodec.writeAll (asks t.said) :=
      ht.dtp
    simp only [Tap.dtp, hlog, List.flatMap_append, hdtp, hes, asks_append, Codec.writeAll_append]
  ptd := by
    rw [Server.stream_append, ← ht.ptd, hbs]

theorem told_call (ht : t.Told)
    (hm : if c.Speaks t.sys.world then
      (t.sys.phy.recv (c.message t.sys.world.mem)).Follows answer else answer = none) :
    Tap.Told ⟨t.sys.call c answer, t.said ++ wordsOf answer (c.said (t.sys.world.fed answer)),
      t.ptd ++ answer.elim [] PhyMsg.write⟩ := by
  have hno : t.sys.phy.owes = false := by
    have h := ht.orderly.not_owes_after
    rwa [ht.phy] at h
  obtain ⟨es, hlog, hes⟩ := said_log (.nc c) (t.sys.world.fed answer)
  replace hes : es.flatMap Event.written = devCodec.writeAll (c.said (t.sys.world.fed answer)) :=
    hes
  have hphy : (t.sys.call c answer).phy =
      t.sys.phy.hear answer (some (c.said (t.sys.world.fed answer))) := by
    rw [← readAll_exec]
    rfl
  rcases said_exec c (t.sys.world.fed answer) with ⟨hsaid, hsp⟩ | ⟨hsp, ms, hsaid, hms⟩
  · rw [if_neg (show ¬ c.Speaks t.sys.world from hsp)] at hm
    subst hm
    rw [hsaid] at hes hphy ⊢
    exact ht.said hno hphy.symm hlog hes rfl
  · rw [if_pos (show c.Speaks t.sys.world from hsp)] at hm
    obtain ⟨hord, hafter⟩ := orderly_wordsOf hno hm hms
    rw [hsaid] at hes hphy ⊢
    refine ht.said hord (hafter.trans hphy.symm) hlog ?_ ?_
    · rw [hes]
      cases answer <;> simp [wordsOf]
    · cases answer <;> simp [wordsOf, Server.stream, phyServer]

theorem parting_leave (w : World) :
    Parting (Call.disconnect.said w) ∧ Parting (Call.terminate.said w) := by
  simp only [Call.said]
  split
  · exact ⟨.inr (.inl rfl), .inr (.inr rfl)⟩
  · exact ⟨.inl rfl, .inl rfl⟩

theorem told_leave (ht : t.Told) {act : M Unit} {c : Call}
    (hrun : ∀ w, (c.exec.run w).2 = (act.run w).2) (hms : ∀ w, Parting (c.said w)) :
    Tap.Told ⟨t.sys.leave act, t.said ++ (c.said t.sys.world).map .ask, t.ptd ++ []⟩ := by
  have hno : t.sys.phy.owes = false := by
    have h := ht.orderly.not_owes_after
    rwa [ht.phy] at h
  obtain ⟨es, hlog, hes⟩ := said_log c t.sys.world
  rw [hrun] at hlog
  have hphy : (t.sys.leave act).phy = (c.said t.sys.world).foldl Phy.recv t.sys.phy := by
    simp only [Sys.leave, wrote_eq hlog hes, devCodec.readAll_writeAll]
    cases c.said t.sys.world <;> rfl
  obtain ⟨hord, hafter⟩ := orderly_parting hno (hms t.sys.world)
  refine ht.said hord (hafter.trans hphy.symm) hlog ?_ ?_
  · rw [hes, asks_map_ask]
  · simp [Server.stream]

theorem told_opened (hlink : s.world.link = ⟨true, [], []⟩) (hphy : s.phy = .idle) :
    Tap.Told ⟨s, [], []⟩ where
  orderly := rfl
  phy := hphy.symm
  dtp := by
    rw [Tap.dtp, hlink]
    rfl
  ptd := rfl

theorem Tap.Told.unchanged (ht : t.Told) (hphy : s.phy = t.sys.phy)
    (hlog : s.world.link.log = t.sys.world.link.log) : Tap.Told ⟨s, t.said ++ [], t.ptd ++ []⟩ := by
  have hno := ht.orderly.not_owes_after
  rw [ht.phy] at hno
  have hnone : s.world.link.log = t.sys.world.link.log ++ [] := by rw [hlog, List.append_nil]
  exact ht.said hno hphy.symm hnone rfl rfl

theorem told_initCom (ht : t.Told) {act : M Int32} {o : OngoingTransaction → OngoingTransaction}
    {d : UInt32} {n p : String} (ha : Opens d n p act o)
    (hm : t.sys.world.link.connected = false ∨ (pbDevInitCom d n p t.sys.world.link).1 = 0) :
    Tap.Told ⟨t.sys.initCom act d n p,
      if (pbDevInitCom d n p t.sys.world.link).1 = 0 then [] else t.said ++ [],
      if (pbDevInitCom d n p t.sys.world.link).1 = 0 then [] else t.ptd ++ []⟩ := by
  have hspec := (initCom_spec ha hm).2.2
  split at hspec
  next h0 =>
    rw [if_pos h0, if_pos h0]
    exact told_opened hspec.1 hspec.2.1
  next h0 =>
    rw [if_neg h0, if_neg h0]
    refine ht.unchanged hspec.2 ?_
    have hlink := pbDevInitCom_fail _ _ _ _ h0 (hm.resolve_right h0)
    rw [Sys.initCom, if_neg h0]
    cases ha <;> exact congrArg PbDevState.log hlink

theorem told_tap (m : Move) (t : Tap) (ht : t.Told) (hm : m.Proper t.sys) : (m.tap t).Told := by
  unfold Move.tap
  cases hrun : t.sys.stop with
  | some e =>
    rw [exec_of_stop (by simp [hrun])]
    simp only [Move.reopens, Move.words, Move.wrote, hrun, Option.isNone_some, Bool.false_and,
      Bool.false_eq_true, if_false, Option.isSome_some, if_true]
    exact ht.unchanged rfl rfl
  | none =>
  rw [exec_of_running hrun]
  simp only [Move.reopens, Move.words, Move.wrote, hrun, Option.isNone_none, Bool.true_and,
    Option.isSome_none, Bool.false_eq_true, if_false]
  replace hm := hm hrun
  cases m with
  | call c answer =>
    have h := told_call ht hm
    cases answer <;> exact h
  | disconnect =>
    refine told_leave (c := .disconnect) ht (fun w => ?_) fun w => (parting_leave w).1
    rw [Call.exec, run_bind]
    rfl
  | terminate =>
    refine told_leave (c := .terminate) ht (fun w => ?_) fun w => (parting_leave w).2
    rw [Call.exec, run_bind]
    rfl
  | initComSNc d n p => simpa only [decide_eq_true_eq] using told_initCom ht .comSNc hm
  | initcomNc d n p => simpa only [decide_eq_true_eq] using told_initCom ht .comNc hm
  | device mem ptr heap => exact ht.unchanged rfl rfl

/-- At each moment of a run the bytes on the two FIFOs of the session give back all
that was said in it, in the order in which it was said: whatever the device calls, if
the phy follows the diagrams. -/
theorem overheard (w : World) (hlog : w.link.log = []) {moves : List Move}
    (hm : Along Move.tap (fun m t => m.Proper t.sys) moves ⟨Sys.start w, [], []⟩) :
    ∀ t ∈ states Move.tap moves ⟨Sys.start w, [], []⟩,
      overhear .idle t.dtp t.ptd = some t.said := by
  intro t ht
  have hstart : Tap.Told ⟨Sys.start w, [], []⟩ :=
    ⟨rfl, rfl, by simp [Tap.dtp, Sys.start, hlog], rfl⟩
  have htold := invariant told_tap hstart hm t ht
  exact overhear_eq_some.mpr ⟨htold.orderly, htold.dtp.symm, htold.ptd.symm⟩

end

end PhyCom2G4

namespace PhyCom2G4

open Bytes Program Program.Prog Runs

attribute [local instance] LibPhyCom.posix

/-- An RSSI measurement in the middle of a v1 reception, in which the address is found
after it: one header value for two answers. -/
theorem overheard_rssi_and_address :
    let moves := [.call (.rx (parse []) 8 64 0) (some .abortreeval),
      .call (.immRSSI (parse []) 32) (some (.immrssiRrsiDone (parse []))),
      .call (.newRxAbort (parse [])) (some (.addressfound .v1 (parse []) ⟨[], rfl⟩)),
      .call (.rxCont false) none, .disconnect]
    ∀ t ∈ states Move.tap moves ⟨Sys.start (World.start []), [], []⟩,
      overhear .idle t.dtp t.ptd = some t.said :=
  overheard _ rfl
    ⟨fun _ => rfl, fun _ => rfl, fun _ => rfl, fun _ => rfl, fun _ => trivial, trivial⟩

end PhyCom2G4

import PhyCom2G4.Reads
import PhyCom2G4.Turns

/-!
# A transaction does not know what came before

The state of the family without callbacks has seven fields that nothing
clears when a transaction is over. `Effect` is all that a call does, and
`NcReq.effect` computes it; in a transaction it depends on those fields only
through what the request that opened it put there (`effect_congr`). Two
devices with different pasts that make the same calls on the same stream see
and do the same, at the places their requests name (`history_free`).
-/

namespace PhyCom2G4

open Bytes Memory Program Program.Prog LibPhyCom

variable [LibPhyCom]

-- ---------------------------------------------------------------------------
-- What a call does
-- ---------------------------------------------------------------------------

/-- A call returns or stops, reads and writes, leaves so much of the stream and the
link open or not, and `ongoing`. It stores `done` at `doneS`, gives `*rxBuf` a block
of its own if it needs one, and stores `packet` there. -/
structure Effect where
  ret : Except Stop Int32
  events : List Event
  ptd : List Byte
  connected : Bool
  ongoing : OngoingTransaction
  doneS : Addr
  done : List Byte
  rxBuf : Addr
  block : Option Nat
  packet : List Byte

def Effect.world (e : Effect) (w : World) : World :=
  let w := match e.block with
    | some n => w.malloced e.rxBuf n
    | none => w
  { w with
    link := ⟨e.connected, e.ptd, w.link.log ++ e.events⟩
    mem := store (store w.mem e.doneS e.done) (w.ptr e.rxBuf) e.packet }

structure Effect.Of (e : Effect) (w : World) (r : Except Stop Int32 × World) : Prop where
  ret : r.1 = e.ret
  world : r.2 = { e.world w with nc := r.2.nc }
  ongoing : r.2.nc.ongoing = e.ongoing

theorem Effect.Of.reads {e : Effect} {w : World} {r : Except Stop Int32 × World} (h : e.Of w r) :
    r.1 = e.ret ∧ r.2.link.connected = e.connected ∧ r.2.link.ptd = e.ptd := by
  refine ⟨h.ret, ?_, ?_⟩
  · rw [h.world]
    rfl
  · rw [h.world]
    rfl

def Effect.none (ret : Except Stop Int32) (w : World) : Effect where
  ret
  events := []
  ptd := w.link.ptd
  connected := w.link.connected
  ongoing := w.nc.ongoing
  doneS := 0
  done := []
  rxBuf := 0
  block := .none
  packet := []

def Effect.after (es : List Event) (e : Effect) : Effect := { e with events := es ++ e.events }

def Listener.cleared (nc : DevStateNc) : Listener → OngoingTransaction
  | .rssi _ | .wait => nc.ongoing
  | _ => .nothing

def Listener.stores (l : Listener) (nc : DevStateNc) (ret : Except Stop Int32)
    (events : List Event) (ptd : List Byte) (connected : Bool) (ongoing : OngoingTransaction)
    (done : List Byte) : Effect where
  ret
  events := .read (sizeof PcHeader) :: events
  ptd
  connected
  ongoing
  doneS := l.doneS nc
  done
  rxBuf := 0
  block := .none
  packet := []

def blockFor (bufSize n : Nat) : Option Nat := if bufSize < n then some n else .none

def Found.effect (v : RxVersion) (nc : DevStateNc) (f : Found) : Effect :=
  let e (events : List Event) (ptd : List Byte) (connected : Bool) (done : List Byte) : Effect :=
    (Listener.rx v).stores nc (.ok (f.ret v)) (.read v.sizeofDone :: events) ptd connected
      nc.ongoing done
  match f with
  | .doneCut s => e [.closed] [] false (leftover v.sizeofDone s)
  | .tooBig done rest => e [.msg msgDisconnect [], .closed] rest false done
  | .packetCut done s =>
    { e [.read (v.packetSize done), .closed] [] false done with
      rxBuf := nc.rxbuf
      block := blockFor nc.bufsize (v.packetSize done)
      packet := leftover (v.packetSize done) s }
  | .whole done packet rest =>
    { e (packetReads packet) rest true done with
      ongoing := .rxHeaderEval
      rxBuf := nc.rxbuf
      block := blockFor nc.bufsize packet.length
      packet }

def Listener.doneReads : Listener → List Event
  | .wait => []
  | l => [.read l.sizeofDone]

def Heard.effect (l : Listener) (nc : DevStateNc) (heard : Heard) : Effect :=
  let e := l.stores nc (heard.ret l)
  match heard with
  | .cut => e [.closed] [] false nc.ongoing []
  | .reeval rest => e [] rest true (l.reeval.getD nc.ongoing) []
  | .found v f => f.effect v nc
  | .disconnect rest => e [.closed] rest false (l.cleared nc) []
  | .endCut _ s =>
    e [.read l.sizeofDone, .closed] [] false (l.cleared nc) (leftover l.sizeofDone s)
  | .ended _ done rest => e l.doneReads rest true (l.cleared nc) done
  | .invalid _ rest => e [] rest true
    (match l with
      | .rx _ => nc.ongoing
      | _ => l.cleared nc) []

def NcReq.effect (c : NcReq) (w : World) : Effect :=
  if w.link.connected = false then .none (.ok (-1)) w
  else if c.passes w.nc = false then .none (.error (.error c.complaint)) w
  else match c.listener with
    | some l => ((l.hear (c.notes w.nc) w.link.ptd).effect l (c.notes w.nc)).after (c.events w.mem)
    | none =>
      { Effect.none (.ok 0) w with
        events := c.events w.mem
        ongoing := .nothing }

section
variable {w : World} {l : Listener} {c : NcReq}

theorem effect_none (ret : Except Stop Int32) (nc : DevStateNc) (h : nc.ongoing = w.nc.ongoing) :
    (Effect.none ret w).Of w (ret, { w with nc }) := by
  refine ⟨rfl, ?_, h⟩
  simp [Effect.none, Effect.world]

theorem effect_found (hc : w.link.connected = true) (v : RxVersion) (f : Found) :
    (f.effect v w.nc).Of w
      (.ok (f.ret v), f.judged (f.world v (v.doneS w.nc) w.nc.rxbuf w.nc.bufsize
        (w.took (sizeof PcHeader) []))) := by
  cases f with
  | doneCut s =>
    refine ⟨rfl, ?_, rfl⟩
    simp [Found.effect, Listener.stores, Effect.world, Found.world, Found.judged, World.cut,
      World.took, World.stored, PbDevState.shut, Listener.doneS]
  | tooBig done rest =>
    refine ⟨rfl, ?_, rfl⟩
    simp [Found.effect, Listener.stores, Effect.world, Found.world, Found.judged, World.shut,
      World.took, World.stored, PbDevState.shut, Listener.doneS]
  | packetCut done s =>
    refine ⟨rfl, ?_, congrArg DevStateNc.ongoing (found_nc (.packetCut done s) v _ _ _)⟩
    by_cases hb : w.nc.bufsize < v.packetSize done
    · simp [Found.effect, Listener.stores, Effect.world, Found.world, Found.judged, World.cut,
        World.took, World.stored, PbDevState.shut, Listener.doneS, blockFor, hb, World.buffered,
        World.malloced]
    · simp [Found.effect, Listener.stores, Effect.world, Found.world, Found.judged, World.cut,
        World.took, World.stored, PbDevState.shut, Listener.doneS, blockFor, hb, World.buffered]
  | whole done packet rest =>
    refine ⟨rfl, ?_, rfl⟩
    by_cases hp : packet = []
    · simp [Found.effect, Listener.stores, Effect.world, Found.world, Found.judged, World.took,
        World.stored, Listener.doneS, blockFor, hp, World.picked, packetReads, hc]
    · by_cases hb : w.nc.bufsize < packet.length
      · simp [Found.effect, Listener.stores, Effect.world, Found.world, Found.judged, World.took,
          World.stored, Listener.doneS, blockFor, hp, hb, World.picked, World.buffered,
          World.malloced, packetReads, hc]
      · simp [Found.effect, Listener.stores, Effect.world, Found.world, Found.judged, World.took,
          World.stored, Listener.doneS, blockFor, hp, hb, World.picked, World.buffered,
          packetReads, hc]

theorem effect_heard {heard : Heard} (hc : w.link.connected = true) (hof : heard.Of l w.nc s) :
    (heard.effect l w.nc).Of w (heard.outcome l w) := by
  cases heard with
  | cut =>
    refine ⟨rfl, ?_, rfl⟩
    simp [Heard.effect, Listener.stores, Effect.world, Heard.outcome, Heard.world, World.cut,
      PbDevState.shut]
  | reeval rest =>
    cases l <;> refine ⟨rfl, ?_, rfl⟩ <;>
      simp [Heard.effect, Listener.stores, Effect.world, Heard.outcome, Heard.world, World.took,
        Listener.reeval, World.setOngoing, hc]
  | found v f => exact effect_found hc v f
  | disconnect rest =>
    cases l <;> refine ⟨rfl, ?_, rfl⟩ <;>
      simp [Heard.effect, Listener.stores, Effect.world, Heard.outcome, Heard.world, World.took,
        Listener.clear, World.setOngoing, World.shut, PbDevState.shut]
  | endCut h s =>
    cases l with
    | wait => exact absurd hof.2.2 (Nat.not_lt_zero _)
    | _ =>
      refine ⟨rfl, ?_, rfl⟩
      simp [Heard.effect, Listener.stores, Effect.world, Heard.outcome, Heard.world, World.took,
        Listener.clear, World.setOngoing, World.cut, World.stored, PbDevState.shut]
  | ended h done rest =>
    by_cases hl : l = .wait
    · subst hl
      obtain rfl := List.length_eq_zero_iff.mp hof.2.2
      refine ⟨rfl, ?_, rfl⟩
      simp [Heard.effect, Listener.stores, Listener.doneReads, Effect.world, Heard.outcome,
        Heard.world, World.tookDone, World.took, Listener.clear, hc]
    · have hworld : (Heard.ended h done rest).world l w =
          ((l.clear (w.took (sizeof PcHeader) (done ++ rest))).took l.sizeofDone rest).stored
            (l.doneS w.nc) done := tookDone_clear hl done rest
      simp only [Heard.outcome, hworld]
      cases l with
      | wait => exact absurd rfl hl
      | _ =>
        refine ⟨rfl, ?_, rfl⟩
        simp [Heard.effect, Listener.stores, Listener.doneReads, Effect.world, World.took,
          Listener.clear, World.setOngoing, World.stored, hc]
  | invalid h rest =>
    cases l <;> refine ⟨rfl, ?_, rfl⟩ <;>
      simp [Heard.effect, Listener.stores, Effect.world, Heard.outcome, Heard.world, World.took,
        Listener.clear, World.setOngoing, hc]

theorem Effect.Of.after {e : Effect} {r : Except Stop Int32 × World}
    (h : e.Of (c.spoken w) r) : (e.after (c.events w.mem)).Of w r := by
  refine ⟨h.ret, h.world.trans ?_, h.ongoing⟩
  cases hb : e.block <;>
    simp [Effect.world, Effect.after, hb, NcReq.spoken, World.sent, PbDevState.add, World.malloced]

theorem effect_exec (c : NcReq) (w : World) : (c.effect w).Of w (c.exec.run w) := by
  unfold NcReq.effect
  split
  next hc =>
    rw [run_exec_closed hc]
    exact effect_none _ w.nc rfl
  next hc =>
  rw [Bool.not_eq_false] at hc
  split
  next hp =>
    rw [run_exec_stopped hc c hp]
    exact effect_none _ _ (notesFirst_ongoing c w.nc)
  next hp =>
  rw [Bool.not_eq_false] at hp
  cases hlis : c.listener with
  | none =>
    rw [run_exec_reject hc c hp hlis]
    refine ⟨rfl, ?_, rfl⟩
    simp [Effect.none, Effect.world, NcReq.spoken, World.sent, PbDevState.add, World.setOngoing]
  | some l =>
    rw [run_exec_heard hc c hp hlis]
    exact (effect_heard (w := c.spoken w) hc (hear_of l (c.notes w.nc) w.link.ptd)).after

end

-- ---------------------------------------------------------------------------
-- Two histories
-- ---------------------------------------------------------------------------

structure Same (req : NcReq) (k : Kind) (nc nc' : DevStateNc) : Prop where
  ongoing : nc.ongoing = nc'.ongoing
  left : req.Registered k nc
  right : req.Registered k nc'

structure Listener.Agrees (l : Listener) (nc nc' : DevStateNc) : Prop where
  ongoing : nc.ongoing = nc'.ongoing
  doneS : l.doneS nc = l.doneS nc'
  reception : ∀ v, l = .rx v →
    nc.rxbuf = nc'.rxbuf ∧ nc.bufsize = nc'.bufsize ∧ nc.weGotAddress = nc'.weGotAddress

def Kind.Hears (k : Kind) (l : Listener) : Prop := l = k.listener ∨ ∃ d, l = .rssi d

def Heard.judges : Heard → Bool
  | .found _ f => f.complete
  | _ => false

def Kind.after (heard : Heard) : Kind → Kind
  | .rx v found => .rx v (found || heard.judges)
  | k => k

section
variable {req c : NcReq} {k : Kind} {l : Listener} {nc nc' : DevStateNc} {w w' : World}
  {heard : Heard}

omit [LibPhyCom] in
@[simp] theorem listener_after (k : Kind) (heard : Heard) :
    (k.after heard).listener = k.listener := by
  cases k <;> rfl

theorem Same.reception (h : Same req (.rx v found) nc nc') :
    nc.rxbuf = nc'.rxbuf ∧ nc.bufsize = nc'.bufsize ∧ nc.weGotAddress = nc'.weGotAddress := by
  obtain ⟨hbuf, hgot⟩ := h.left.reception v found rfl
  obtain ⟨hbuf', hgot'⟩ := h.right.reception v found rfl
  have heq := Option.some.inj (hbuf.symm.trans hbuf')
  exact ⟨congrArg Prod.fst heq, congrArg Prod.snd heq, hgot.trans hgot'.symm⟩

omit [LibPhyCom] in
theorem Kind.Hears.rx (hl : k.Hears (.rx v)) : ∃ found, k = .rx v found := by
  obtain hk | ⟨d, hd⟩ := hl
  · cases k with
    | rx v' found =>
      obtain rfl : v = v' := by simpa [Kind.listener] using hk
      exact ⟨found, rfl⟩
    | _ => cases hk
  · cases hd

theorem Same.agrees (h : Same req k nc nc') (hl : k.Hears l) : l.Agrees nc nc' := by
  refine ⟨h.ongoing, ?_, ?_⟩
  · obtain rfl | ⟨d, rfl⟩ := hl
    · exact Option.some.inj (h.left.doneS.symm.trans h.right.doneS)
    · rfl
  · rintro v rfl
    obtain ⟨found, rfl⟩ := hl.rx
    exact h.reception

omit [LibPhyCom] in
theorem agrees_alone (hl : l = .wait ∨ ∃ d, l = .rssi d) (ho : nc.ongoing = nc'.ongoing) :
    l.Agrees nc nc' := by
  obtain rfl | ⟨d, rfl⟩ := hl
  · exact ⟨ho, rfl, nofun⟩
  · exact ⟨ho, rfl, nofun⟩

theorem Listener.Agrees.hear (h : l.Agrees nc nc') (s : List Byte) :
    l.hear nc s = l.hear nc' s := by
  cases l with
  | rx v =>
    obtain ⟨-, hsize, hgot⟩ := h.reception v rfl
    simp only [Listener.hear, Listener.heed, Listener.finds, hsize, hgot]
  | _ => rfl

theorem Listener.Agrees.effect (h : l.Agrees nc nc') (s : List Byte) :
    (l.hear nc s).effect l nc = (l.hear nc' s).effect l nc' := by
  have hcleared : l.cleared nc = l.cleared nc' := by
    cases l <;> simp only [Listener.cleared, h.ongoing]
  have hof := hear_of l nc s
  rw [← h.hear s]
  generalize l.hear nc s = heard at hof
  cases heard with
  | found v f =>
    obtain ⟨rfl, -⟩ := hof
    obtain ⟨hbuf, hsize, -⟩ := h.reception v rfl
    simp only [Heard.effect, Found.effect, Listener.stores, h.doneS, h.ongoing, hbuf, hsize]
  | _ => simp only [Heard.effect, Listener.stores, h.doneS, hcleared, h.ongoing]

theorem heard_nc (hj : heard.judges = false) (l : Listener) (w : World) :
    ∃ o, (heard.world l w).nc = { w.nc with ongoing := o } ∧
      (o = .rxHeaderEval → o = w.nc.ongoing) := by
  cases heard with
  | found v f =>
    refine ⟨w.nc.ongoing, ?_, fun _ => rfl⟩
    cases f with
    | whole done packet rest => cases hj
    | _ => simp [Heard.world, Found.judged]
  | _ => cases l <;> refine ⟨_, rfl, fun h => ?_⟩ <;> first | rfl | cases h

theorem NcReq.Registered.after (h : req.Registered k w.nc) (hl : k.Hears l) (s : List Byte) :
    req.Registered (k.after (l.hear w.nc s)) ((l.hear w.nc s).world l w).nc := by
  have hof := hear_of l w.nc s
  generalize l.hear w.nc s = heard at hof
  cases hj : heard.judges with
  | false =>
    have hk : k.after heard = k := by cases k <;> simp [Kind.after, hj]
    obtain ⟨o, ho, -⟩ := heard_nc hj l w
    rw [hk, ho]
    exact h.setOngoing o
  | true =>
    cases heard with
    | found v f =>
      obtain ⟨rfl, -⟩ := hof
      obtain ⟨found, rfl⟩ := hl.rx
      cases f with
      | whole done packet rest =>
        refine ⟨h.listener, ?_, ?_⟩
        · rw [h.doneS]
          cases v <;> simp [Kind.after, Kind.listener, Heard.world, Found.judged, Listener.doneS,
            RxVersion.doneS]
        · rintro v' found' ⟨⟩
          refine ⟨?_, ?_⟩
          · rw [(h.reception v found rfl).1]
            simp [Heard.world, Found.judged]
          · simp [Heard.world, Found.judged, Heard.judges, Found.complete]
      | _ => cases hj
    | _ => cases hj

-- ---------------------------------------------------------------------------
-- One call
-- ---------------------------------------------------------------------------

/-- The call is the request that opens the transaction, and is let through, or one
that goes on with it. -/
def NcReq.InTransaction (req c : NcReq) (w : World) : Prop :=
  c = req ∧ c.Speaks w ∨ c.opens = none

def NcReq.leaves (c : NcReq) (w : World) (k : Kind) : Kind :=
  match c.listener with
  | some l => if c.Speaks w then k.after (l.hear (c.notes w.nc) w.link.ptd) else k
  | none => k

/-- What a call stores goes where the request or the call itself says. -/
structure Effect.Confined (e : Effect) (req c : NcReq) : Prop where
  done : e.done ≠ [] → c.fills (some req) = some e.doneS
  packet : e.packet ≠ [] ∨ e.block ≠ .none →
    ∃ bufSize, c.receives (some req) = some (e.rxBuf, bufSize)

theorem notesFirst_of_not_opens (ho : c.opens = none) (nc : DevStateNc) :
    c.notesFirst nc = nc := by
  cases c <;> simp [NcReq.opens] at ho <;> rfl

@[simp] theorem listener_leaves (c : NcReq) (w : World) (k : Kind) :
    (c.leaves w k).listener = k.listener := by
  unfold NcReq.leaves
  split
  · split <;> simp
  · rfl

theorem registered_exec (hin : req.InTransaction c w) (hl : ∀ l, c.listener = some l → k.Hears l)
    (h : req.Registered k (c.notes w.nc)) :
    req.Registered (c.leaves w k) (c.exec.run w).2.nc := by
  unfold NcReq.leaves
  by_cases hsp : c.Speaks w
  · cases hlis : c.listener with
    | none =>
      rw [run_exec_reject hsp.1 c hsp.2 hlis]
      exact h.setOngoing _
    | some l =>
      rw [run_exec_heard hsp.1 c hsp.2 hlis]
      dsimp only
      rw [if_pos hsp]
      exact NcReq.Registered.after (w := c.spoken w) h (hl l hlis) _
  · have ho : c.opens = none := hin.resolve_left fun h => hsp h.2
    rw [notes_of_not_opens ho] at h
    have hnc : (c.exec.run w).2.nc = w.nc := by
      cases hc : w.link.connected with
      | false => rw [run_exec_closed hc]
      | true =>
        have hp : c.passes w.nc = false := by
          simpa [NcReq.Speaks, hc] using hsp
        rw [run_exec_stopped hc c hp]
        exact notesFirst_of_not_opens ho w.nc
    rw [hnc]
    cases hlis : c.listener with
    | none => exact h
    | some l =>
      dsimp only
      rw [if_neg hsp]
      exact h

theorem effect_congr (hconn : w.link.connected = w'.link.connected)
    (hptd : w.link.ptd = w'.link.ptd) (hev : c.events w.mem = c.events w'.mem)
    (hon : w.nc.ongoing = w'.nc.ongoing)
    (h : ∀ l, c.listener = some l → l.Agrees (c.notes w.nc) (c.notes w'.nc)) :
    c.effect w = c.effect w' := by
  have hpass : c.passes w.nc = c.passes w'.nc := by simp only [NcReq.passes, hon]
  have hnone : ∀ ret, Effect.none ret w = Effect.none ret w' := fun ret => by
    simp only [Effect.none, hptd, hconn, hon]
  unfold NcReq.effect
  rw [hconn, hpass, hev, hptd]
  cases hlis : c.listener with
  | none => simp only [hnone]
  | some l => simp only [hnone, (h l hlis).effect w'.link.ptd]

theorem same_exec (hconn : w.link.connected = w'.link.connected)
    (hptd : w.link.ptd = w'.link.ptd) (hev : c.events w.mem = c.events w'.mem)
    (hl : ∀ l, c.listener = some l → k.Hears l) (h : Same req k (c.notes w.nc) (c.notes w'.nc))
    (hin : req.InTransaction c w) (hin' : req.InTransaction c w') :
    Same req (c.leaves w k) (c.exec.run w).2.nc (c.exec.run w').2.nc := by
  have hon : w.nc.ongoing = w'.nc.ongoing := by
    rw [← notes_ongoing c w.nc, ← notes_ongoing c w'.nc]
    exact h.ongoing
  have hleaves : c.leaves w k = c.leaves w' k := by
    have hsp : c.Speaks w ↔ c.Speaks w' := by
      simp only [NcReq.Speaks, NcReq.passes, hconn, hon]
    unfold NcReq.leaves
    cases hlis : c.listener with
    | none => rfl
    | some l => simp only [hsp, hptd, (h.agrees (hl l hlis)).hear w'.link.ptd]
  have heff := effect_congr hconn hptd hev hon fun l hlis => h.agrees (hl l hlis)
  refine ⟨?_, registered_exec hin hl h.left, ?_⟩
  · rw [(effect_exec c w).ongoing, (effect_exec c w').ongoing, heff]
  · rw [hleaves]
    exact registered_exec hin' hl h.right

theorem effect_places (l : Listener) (nc : DevStateNc) (s : List Byte) :
    ((l.hear nc s).effect l nc).doneS = l.doneS nc ∧
      (((l.hear nc s).effect l nc).packet ≠ [] ∨ ((l.hear nc s).effect l nc).block ≠ .none →
        (∃ v, l = .rx v) ∧ ((l.hear nc s).effect l nc).rxBuf = nc.rxbuf) := by
  have hof := hear_of l nc s
  generalize l.hear nc s = heard at hof
  cases heard with
  | found v f =>
    obtain ⟨rfl, -⟩ := hof
    cases f <;> simp [Heard.effect, Found.effect, Listener.stores]
  | _ => simp [Heard.effect, Listener.stores]

theorem confined_effect (h : ∀ l, c.listener = some l →
    ((l.hear (c.notes w.nc) w.link.ptd).effect l (c.notes w.nc)).Confined req c) :
    (c.effect w).Confined req c := by
  have hnone : ∀ ret, (Effect.none ret w).Confined req c := fun ret =>
    ⟨fun hd => absurd rfl hd, fun hp => by simp [Effect.none] at hp⟩
  unfold NcReq.effect
  split
  next => exact hnone _
  next =>
  split
  next => exact hnone _
  next =>
  cases hlis : c.listener with
  | none => exact ⟨(hnone (.ok 0)).done, (hnone (.ok 0)).packet⟩
  | some l => exact ⟨(h l hlis).done, (h l hlis).packet⟩

theorem effect_confined (hin : req.InTransaction c w) (hl : ∀ l, c.listener = some l → k.Hears l)
    (h : req.Registered k (c.notes w.nc)) : (c.effect w).Confined req c := by
  have hopened : (if c.opens.isSome then some c else some req) = some req := by
    obtain ⟨rfl, -⟩ | ho := hin
    · split <;> rfl
    · simp [ho]
  refine confined_effect fun l hlis => ?_
  obtain ⟨hdone, hpacket⟩ := effect_places l (c.notes w.nc) w.link.ptd
  refine ⟨fun _ => ?_, fun hp => ?_⟩
  · obtain hk | ⟨d, rfl⟩ := hl l hlis
    · rw [fills_opened (hlis.trans (congrArg some hk)), hopened]
      exact h.doneS.trans (congrArg some (by rw [← hk]; exact hdone.symm))
    · rw [fills_rssi hlis]
      exact congrArg some hdone.symm
  · obtain ⟨⟨v, rfl⟩, hbuf⟩ := hpacket hp
    obtain ⟨found, rfl⟩ := (hl _ hlis).rx
    refine ⟨(c.notes w.nc).bufsize, ?_⟩
    rw [receives_opened hlis, hopened]
    refine (h.reception v found rfl).1.trans (congrArg (fun p => some (p, _)) ?_)
    exact hbuf.symm

theorem alone_spec (hexp : c.expects = none) :
    ∃ l, c.listener = some l ∧ (l = .wait ∨ ∃ d, l = .rssi d) ∧ ∀ nc, c.notes nc = nc := by
  cases c with
  | wait => exact ⟨_, rfl, .inl rfl, fun _ => rfl⟩
  | rssi s d | rssiv2 s d => exact ⟨_, rfl, .inr ⟨d, rfl⟩, fun _ => rfl⟩
  | _ => cases hexp

theorem effect_wait_done (nc : DevStateNc) (s : List Byte) :
    ((Listener.wait.hear nc s).effect .wait nc).done = [] := by
  have hof := hear_of .wait nc s
  generalize Listener.wait.hear nc s = heard at hof
  cases heard with
  | found v f => cases hof.1
  | endCut h s' => exact absurd hof.2.2 (Nat.not_lt_zero _)
  | ended h done rest => exact List.length_eq_zero_iff.mp hof.2.2
  | _ => rfl

theorem confined_alone (hexp : c.expects = none) (w : World) : (c.effect w).Confined c c := by
  refine confined_effect fun l' hlis' => ?_
  obtain ⟨l, hlis, hl, -⟩ := alone_spec hexp
  obtain rfl := Option.some.inj (hlis.symm.trans hlis')
  obtain ⟨hdone, hpacket⟩ := effect_places l (c.notes w.nc) w.link.ptd
  refine ⟨fun hne => ?_, fun hp => ?_⟩
  · obtain rfl | ⟨d, rfl⟩ := hl
    · exact absurd (effect_wait_done _ _) hne
    · rw [fills_rssi hlis]
      exact congrArg some hdone.symm
  · obtain ⟨v, rfl⟩ := (hpacket hp).1
    obtain h | ⟨d, h⟩ := hl <;> cases h

-- ---------------------------------------------------------------------------
-- A whole transaction
-- ---------------------------------------------------------------------------

structure Own where
  mem : Mem
  ptr : Addr → Addr
  heap : List Block

def World.setOwn (own : Own) (w : World) : World :=
  { w with mem := own.mem, ptr := own.ptr, heap := own.heap }

structure Made where
  call : NcReq
  before : World
  result : Except Stop Int32 × World

def session : NcReq → List (Own × NcReq) → World → List Made
  | c, [], w => [⟨c, w, c.exec.run w⟩]
  | c, (own, c') :: steps, w =>
    ⟨c, w, c.exec.run w⟩ :: match (c.exec.run w).1 with
      | .ok _ => session c' steps ((c.exec.run w).2.setOwn own)
      | .error _ => []

/-- The calls that go on with a transaction, of the version that opened it. -/
def NcReq.follows (l : Listener) : NcReq → Bool
  | .newTxAbort _ => l = .tx
  | .newCcaAbort _ => l = .cca
  | .newRxAbort _ | .rxCont _ => l = .rx .v1
  | .newRxv2Abort _ | .rxv2Cont .. => l = .rx .v2
  | .immRSSI .. => l = .rx .v1 ∨ l = .rx .v2
  | _ => false

structure Effect.Seen (req : NcReq) (e : NcReq × Effect) (m : Made) : Prop where
  call : m.call = e.1
  of : e.2.Of m.before m.result
  confined : e.2.Confined req e.1

theorem follows_spec (h : c.follows l = true) :
    c.opens = none ∧ (∀ mem mem', c.events mem = c.events mem') ∧
      ∀ k : Kind, k.listener = l → ∀ l', c.listener = some l' → k.Hears l' := by
  cases c <;> simp only [NcReq.follows, Bool.false_eq_true, decide_eq_true_eq] at h
  case immRSSI s d =>
    refine ⟨rfl, fun _ _ => rfl, ?_⟩
    rintro k - l' ⟨⟩
    exact .inr ⟨d, rfl⟩
  case rxCont devAccepts =>
    subst h
    cases devAccepts with
    | false => exact ⟨rfl, fun _ _ => rfl, nofun⟩
    | true =>
      refine ⟨rfl, fun _ _ => rfl, ?_⟩
      rintro k hk l' ⟨⟩
      exact .inl hk.symm
  case rxv2Cont devAccepts abort =>
    subst h
    cases devAccepts with
    | false => exact ⟨rfl, fun _ _ => rfl, nofun⟩
    | true =>
      refine ⟨rfl, fun _ _ => rfl, ?_⟩
      rintro k hk l' ⟨⟩
      exact .inl hk.symm
  all_goals
    subst h
    refine ⟨rfl, fun _ _ => rfl, ?_⟩
    rintro k hk l' ⟨⟩
    exact .inl hk.symm

/-- What two devices with different pasts find alike before a call of a transaction. -/
structure Alike (req c : NcReq) (k : Kind) (w w' : World) : Prop where
  connected : w.link.connected = w'.link.connected
  ptd : w.link.ptd = w'.link.ptd
  events : c.events w.mem = c.events w'.mem
  same : Same req k (c.notes w.nc) (c.notes w'.nc)
  left : req.InTransaction c w
  right : req.InTransaction c w'
  hears : ∀ l, c.listener = some l → k.Hears l

theorem seen_exec (h : Alike req c k w w') :
    Effect.Seen req (c, c.effect w) ⟨c, w, c.exec.run w⟩ ∧
      Effect.Seen req (c, c.effect w) ⟨c, w', c.exec.run w'⟩ := by
  have hon : w.nc.ongoing = w'.nc.ongoing := by
    rw [← notes_ongoing c w.nc, ← notes_ongoing c w'.nc]
    exact h.same.ongoing
  have heff := effect_congr h.connected h.ptd h.events hon fun l hl => h.same.agrees (h.hears l hl)
  have hconf := effect_confined h.left h.hears h.same.left
  refine ⟨⟨rfl, effect_exec c w, hconf⟩, ⟨rfl, ?_, hconf⟩⟩
  rw [heff]
  exact effect_exec c w'

theorem Alike.next (h : Alike req c k w w') (hf : c'.follows k.listener = true) (own own' : Own) :
    Alike req c' (c.leaves w k) ((c.exec.run w).2.setOwn own) ((c.exec.run w').2.setOwn own') := by
  obtain ⟨hseen, hseen'⟩ := seen_exec h
  obtain ⟨-, hconn, hptd⟩ := hseen.of.reads
  obtain ⟨-, hconn', hptd'⟩ := hseen'.of.reads
  obtain ⟨ho, hev, hears⟩ := follows_spec hf
  have hsame := same_exec h.connected h.ptd h.events h.hears h.same h.left h.right
  refine ⟨hconn.trans hconn'.symm, hptd.trans hptd'.symm, hev _ _, ?_, .inr ho, .inr ho,
    hears _ (listener_leaves c w k)⟩
  rw [notes_of_not_opens ho, notes_of_not_opens ho]
  exact hsame

theorem seen_session (h : Alike req c k w w') (steps : List (Own × Own × NcReq))
    (hsteps : ∀ s ∈ steps, s.2.2.follows k.listener = true) :
    ∃ es, List.Forall₂ (Effect.Seen req) es (session c (steps.map fun s => (s.1, s.2.2)) w) ∧
      List.Forall₂ (Effect.Seen req) es (session c (steps.map fun s => (s.2.1, s.2.2)) w') := by
  -- A pair of calls leaves the two alike, in what the transaction has become.
  induction steps generalizing c k w w' with
  | nil =>
    obtain ⟨hseen, hseen'⟩ := seen_exec h
    exact ⟨_, .cons hseen .nil, .cons hseen' .nil⟩
  | cons s steps ih =>
    obtain ⟨own, own', c'⟩ := s
    obtain ⟨hseen, hseen'⟩ := seen_exec h
    have hret : (c.exec.run w).1 = (c.effect w).ret := hseen.of.ret
    have hret' : (c.exec.run w').1 = (c.effect w).ret := hseen'.of.ret
    simp only [List.map_cons, session, hret, hret']
    cases (c.effect w).ret with
    | error e => exact ⟨_, .cons hseen .nil, .cons hseen' .nil⟩
    | ok ret =>
      have hnext := h.next (hsteps _ (List.mem_cons_self ..)) own own'
      have hlater : ∀ s ∈ steps, s.2.2.follows (c.leaves w k).listener = true := fun s hs => by
        rw [listener_leaves]
        exact hsteps s (List.mem_cons_of_mem _ hs)
      obtain ⟨es, hes, hes'⟩ := ih hnext hlater
      exact ⟨_, .cons hseen hes, .cons hseen' hes'⟩

theorem seen_alone (hexp : c.expects = none) (hconn : w.link.connected = w'.link.connected)
    (hptd : w.link.ptd = w'.link.ptd) (hev : c.events w.mem = c.events w'.mem)
    (hon : w.nc.ongoing = w'.nc.ongoing) :
    Effect.Seen c (c, c.effect w) ⟨c, w, c.exec.run w⟩ ∧
      Effect.Seen c (c, c.effect w) ⟨c, w', c.exec.run w'⟩ := by
  obtain ⟨l, hlis, hl, hnotes⟩ := alone_spec hexp
  have heff : c.effect w = c.effect w' := by
    refine effect_congr hconn hptd hev hon fun l' hl' => ?_
    obtain rfl := Option.some.inj (hlis.symm.trans hl')
    rw [hnotes, hnotes]
    exact agrees_alone hl hon
  have hconf : (c.effect w).Confined c c := confined_alone hexp w
  refine ⟨⟨rfl, effect_exec c w, hconf⟩, ⟨rfl, ?_, hconf⟩⟩
  rw [heff]
  exact effect_exec c w'

def NcReq.IsRequest (c : NcReq) : Prop := c.opens ≠ none ∨ c.expects = none

def NcReq.GoesOn (req c : NcReq) : Prop := ∃ k, req.opens = some k ∧ c.follows k.listener = true

/-- A transaction does not depend on what came before it: from any two states of an
open link with nothing ongoing, the same request on the same stream and whatever
calls go on with it return, write, read and store the same, and only at the places
that the request and the calls name. -/
theorem history_free (c : NcReq) (hreq : c.IsRequest) (w w' : World)
    (hc : w.link.connected = true) (hc' : w'.link.connected = true)
    (hn : w.nc.ongoing = .nothing) (hn' : w'.nc.ongoing = .nothing)
    (hptd : w.link.ptd = w'.link.ptd) (hmsg : c.message w.mem = c.message w'.mem)
    (steps : List (Own × Own × NcReq)) (hsteps : ∀ s ∈ steps, c.GoesOn s.2.2) :
    ∃ es, List.Forall₂ (Effect.Seen c) es (session c (steps.map fun s => (s.1, s.2.2)) w) ∧
      List.Forall₂ (Effect.Seen c) es (session c (steps.map fun s => (s.2.1, s.2.2)) w') := by
  cases ho : c.opens with
  | none =>
    have hexp : c.expects = none := hreq.resolve_left (absurd ho)
    obtain rfl : steps = [] := List.eq_nil_iff_forall_not_mem.mpr fun s hs => by
      obtain ⟨k, hk, -⟩ := hsteps s hs
      simp [ho] at hk
    have hev : c.events w.mem = c.events w'.mem := by
      cases c <;> first | rfl | cases hexp
    obtain ⟨hseen, hseen'⟩ :=
      seen_alone hexp (hc.trans hc'.symm) hptd hev (hn.trans hn'.symm)
    exact ⟨_, .cons hseen .nil, .cons hseen' .nil⟩
  | some k =>
    have hsteps' : ∀ s ∈ steps, s.2.2.follows k.listener = true := fun s hs => by
      obtain ⟨k', hk', hf⟩ := hsteps s hs
      obtain rfl := Option.some.inj (ho.symm.trans hk')
      exact hf
    obtain ⟨hexp, hlis, -, hreg, -⟩ := opens_spec ho
    have hev : ∀ mem, c.events mem = (c.message mem).events := fun mem => by
      cases c <;> first | rfl | cases ho
    have halike : Alike c c k w w' := by
      refine ⟨hc.trans hc'.symm, hptd, by rw [hev, hev, hmsg], ⟨?_, hreg _, hreg _⟩,
        .inl ⟨rfl, hc, (passes_iff hexp).mpr hn⟩, .inl ⟨rfl, hc', (passes_iff hexp).mpr hn'⟩, ?_⟩
      · rw [notes_ongoing, notes_ongoing, hn, hn']
      · intro l hl
        exact .inl (Option.some.inj (hl.symm.trans hlis))
    exact seen_session halike steps hsteps'

end

end PhyCom2G4

namespace PhyCom2G4

open Bytes Memory Program Program.Prog

attribute [local instance] LibPhyCom.posix

theorem history_free_rx :
    let w := World.start (bytes msgAbortreeval ++ bytes msgRxEnd ++ List.replicate 24 0)
    let w' := { w with nc := ⟨.nothing, 0x10, 0x20, 0x30, 0x40, 0x50, 6, true⟩ }
    let c := NcReq.rx (parse []) 0x100 0x200 8
    let steps : List (Own × Own × NcReq) :=
      [(⟨w.mem, w.ptr, []⟩, ⟨fun _ => 1, w.ptr, [(0, 8)]⟩, .newRxAbort (parse []))]
    ∃ es, List.Forall₂ (Effect.Seen c) es (session c (steps.map fun s => (s.1, s.2.2)) w) ∧
      List.Forall₂ (Effect.Seen c) es (session c (steps.map fun s => (s.2.1, s.2.2)) w') := by
  intro w w' c steps
  have hreq : c.IsRequest := .inl (by simp [c, NcReq.opens])
  have hsteps : ∀ s ∈ steps, c.GoesOn s.2.2 := by
    intro s hs
    obtain rfl := List.mem_singleton.mp hs
    exact ⟨_, rfl, rfl⟩
  exact history_free c hreq w w' rfl rfl rfl rfl rfl rfl steps hsteps

end PhyCom2G4

import PhyCom2G4.Calls

/-!
# What a call says

The messages a call writes, as a function of the world it is made in
(`Call.said`), and how it leaves the link: each change of a world carries the
session on or closes it, and what it writes are whole messages
(`PbDevState.Continues`). The whole of a call is put together from its
changes.
-/

namespace PhyCom2G4

open Bytes Memory Wire Program Program.Prog LibPhyCom

variable [LibPhyCom]

-- ---------------------------------------------------------------------------
-- The messages
-- ---------------------------------------------------------------------------

/-- A packet too big for its buffer makes the library leave. -/
def Found.said : Found → List DevMsg
  | .tooBig .. => [.disconnect]
  | _ => []

def Heard.said : Heard → List DevMsg
  | .found _ f => f.said
  | _ => []

def NcReq.said (c : NcReq) (w : World) : List DevMsg :=
  if w.link.connected = true ∧ c.passes w.nc = true then
    c.message w.mem :: match c.listener with
      | some l => (l.hear (c.notes w.nc) w.link.ptd).said
      | none => []
  else []

def Wait.said (W : Wait) : List DevMsg :=
  W.answers.map .rerespAbortreeval ++ match W.ending with
    | .refused _ => [.disconnect]
    | _ => []

def verdictMsg (acceptPacket : Int32) : DevMsg := if acceptPacket = 1 then .rxcont else .rxstop

def Transaction.saidAfterFound (t : Transaction) (r : Reception) (abort : Abort) (w : World) :
    List DevMsg :=
  let f := r.v.found r.bufSize w.link.ptd
  let w := f.world r.v t.doneS r.rxBuf r.bufSize w
  if f.complete then
    let acceptPacket := r.accepts t.doneS w
    let w := (r.judged t.doneS w).sent [.raw (bytes (verdict acceptPacket))]
    verdictMsg acceptPacket ::
      if acceptPacket = 1 then (await w.abortF w.calls abort w.link.ptd).said else []
  else f.said

def Transaction.said (t : Transaction) (w : World) : List DevMsg :=
  let m := t.message w.mem
  let w := w.sent m.events
  let W := await w.abortF w.calls t.abort w.link.ptd
  m :: (W.said ++ match t.reception, W.ending with
    | some r, .got h _ =>
      if h = r.v.addressfound then t.saidAfterFound r W.abort (W.world w) else []
    | _, _ => [])

def CbReq.said (c : CbReq) (w : World) : List DevMsg :=
  if w.link.connected = true then
    match c with
    | .transaction t => t.said w
    | c => (c.message w.mem).toList
  else []

def Call.said (c : Call) (w : World) : List DevMsg :=
  match c with
  | .nc c => c.said w
  | .cb c => c.said w
  | .disconnect => if w.link.connected = true then [.disconnect] else []
  | .terminate => if w.link.connected = true then [.terminate] else []

-- ---------------------------------------------------------------------------
-- The events of a session
-- ---------------------------------------------------------------------------

def Event.leaves : Event → Bool
  | .msg h _ => h = msgDisconnect ∨ h = msgTerminate
  | _ => false

def Quiet (es : List Event) : Prop := ∀ e ∈ es, e ≠ .closed ∧ e.leaves = false

/-- The session ends here: the link closes, after a word of leave or not. -/
inductive Closing : List Event → Prop
  | silent (hq : Quiet es) : Closing (es ++ [.closed])
  | leave (hq : Quiet es) (h : e.leaves = true) : Closing (es ++ [e, .closed])

/-- `l'` comes of `l` by saying `ms`, and either the session goes on or it ends
there. -/
def PbDevState.Continues (l : PbDevState) (ms : List DevMsg) (l' : PbDevState) : Prop :=
  ∃ es, l'.log = l.log ++ es ∧ es.flatMap Event.written = devCodec.writeAll ms ∧
    (l'.connected = true ∧ Quiet es ∨ l'.connected = false ∧ Closing es)

theorem quiet_nil : Quiet [] := fun _ h => absurd h (by simp)

theorem Quiet.append (h : Quiet es) (h' : Quiet es') : Quiet (es ++ es') := by
  intro e he
  rcases List.mem_append.mp he with he | he
  · exact h e he
  · exact h' e he

theorem Closing.after (h : Quiet es) (h' : Closing es') : Closing (es ++ es') := by
  cases h' with
  | silent hq =>
    rw [← List.append_assoc]
    exact .silent (h.append hq)
  | leave hq he =>
    rw [← List.append_assoc]
    exact .leave (h.append hq) he

theorem writeAll_devMsg (m : DevMsg) : devCodec.writeAll [m] = m.write := List.append_nil _

theorem writeAll_bare {m : DevMsg} (hb : m.body = []) (ht : m.tail = []) :
    devCodec.writeAll [m] = bytes m.header := by
  rw [writeAll_devMsg, DevMsg.write, hb, ht, List.append_nil, List.append_nil]

namespace PbDevState.Continues

variable {l l₁ l₂ : PbDevState}

theorem refl (hc : l.connected = true) : l.Continues [] l :=
  ⟨[], (List.append_nil _).symm, rfl, .inl ⟨hc, quiet_nil⟩⟩

theorem trans (h₁ : l.Continues ms l₁) (hc : l₁.connected = true) (h₂ : l₁.Continues ms' l₂) :
    l.Continues (ms ++ ms') l₂ := by
  obtain ⟨es, hl, hw, ⟨-, hq⟩ | ⟨hf, -⟩⟩ := h₁
  · obtain ⟨es', hl', hw', hend⟩ := h₂
    refine ⟨es ++ es', by rw [hl', hl, List.append_assoc], ?_, ?_⟩
    · rw [List.flatMap_append, hw, hw', devCodec.writeAll_append]
    · exact hend.imp (And.imp_right hq.append) (And.imp_right (.after hq))
  · exact absurd hc (by simp [hf])

end PbDevState.Continues

section
variable {w w' : World}

theorem continues_sent (hc : w.link.connected = true) (hq : Quiet es)
    (hw : es.flatMap Event.written = devCodec.writeAll ms) :
    w.link.Continues ms (w.sent es).link :=
  ⟨es, rfl, hw, .inl ⟨hc, hq⟩⟩

theorem continues_took (hc : w.link.connected = true) (n : Nat) (rest : List Byte) :
    w.link.Continues [] (w.took n rest).link :=
  ⟨[.read n], rfl, rfl, .inl ⟨hc, by simp [Quiet, Event.leaves]⟩⟩

theorem continues_cut (n : Nat) : w.link.Continues [] (w.cut n).link :=
  ⟨[.read n] ++ [.closed], by simp, rfl, .inr ⟨rfl, .silent (by simp [Quiet, Event.leaves])⟩⟩

theorem continues_shut : w.link.Continues [] (w.shut []).link :=
  ⟨[] ++ [.closed], by simp, rfl, .inr ⟨rfl, .silent quiet_nil⟩⟩

theorem continues_disconnect :
    w.link.Continues [.disconnect] (w.shut [.msg msgDisconnect []]).link :=
  ⟨[] ++ [.msg msgDisconnect [], .closed], by simp, by
    rw [writeAll_bare rfl rfl]; simp [Event.written, DevMsg.header],
    .inr ⟨rfl, .leave quiet_nil (by simp [Event.leaves])⟩⟩

theorem continues_terminate :
    w.link.Continues [.terminate] (w.shut [.msg msgTerminate []]).link :=
  ⟨[] ++ [.msg msgTerminate [], .closed], by simp, by
    rw [writeAll_bare rfl rfl]; simp [Event.written, DevMsg.header],
    .inr ⟨rfl, .leave quiet_nil (by simp [Event.leaves])⟩⟩

theorem continues_picked (hc : w.link.connected = true) (rxBuf : Addr) (bufSize : Nat)
    (packet rest : List Byte) : w.link.Continues [] (w.picked rxBuf bufSize packet rest).link := by
  unfold World.picked
  split
  · exact .refl hc
  · have h := continues_took (w := w.buffered rxBuf bufSize packet.length)
      (by rw [buffered_link]; exact hc) packet.length rest
    rw [buffered_link] at h
    exact h

theorem continues_found (hc : w.link.connected = true) (f : Found) (v : RxVersion)
    (doneS rxBuf : Addr) (bufSize : Nat) :
    w.link.Continues f.said (f.world v doneS rxBuf bufSize w).link := by
  cases f with
  | doneCut s => exact continues_cut _
  | tooBig done rest => exact (continues_took hc _ rest).trans hc continues_disconnect
  | packetCut done s =>
    have h := (continues_took hc v.sizeofDone s).trans hc (continues_cut (v.packetSize done))
    simpa [Found.world, Found.said] using h
  | whole done packet rest =>
    refine (continues_took hc v.sizeofDone (packet ++ rest)).trans hc ?_
    exact continues_picked (by exact hc) rxBuf bufSize packet rest

theorem continues_heard (hc : w.link.connected = true) (heard : Heard) (l : Listener) :
    w.link.Continues heard.said (heard.world l w).link := by
  have hd : ∀ rest, w.link.Continues [] (w.took (sizeof PcHeader) rest).link := fun rest =>
    continues_took hc _ rest
  cases heard with
  | cut => exact continues_cut _
  | reeval rest =>
    unfold Heard.world
    cases l.reeval <;> exact hd rest
  | found v f =>
    rw [Heard.world, judged_link]
    exact (hd []).trans hc (continues_found (by exact hc) f v _ _ _)
  | disconnect rest =>
    rw [Heard.world, World.shut_link, clear_link]
    exact (hd rest).trans hc continues_shut
  | endCut h s =>
    rw [Heard.world, World.stored_link, World.cut_link, clear_link]
    exact (hd s).trans hc (continues_cut _)
  | ended h done rest =>
    cases l with
    | wait => exact hd _
    | _ => exact (hd _).trans hc (continues_took (by exact hc) _ _)
  | invalid h rest => cases l <;> exact hd rest

-- ---------------------------------------------------------------------------
-- The calls with callbacks
-- ---------------------------------------------------------------------------

theorem ne_msgTerminate (h : PcHeader) (hh : h ∈ headers2G4) : h ≠ msgTerminate :=
  fun he => msgTerminate_new (by simp [← he, hh])

/-- No message but the two of leave has a header of leave. -/
theorem header_stays {m : DevMsg} (hd : m ≠ .disconnect) (ht : m ≠ .terminate) :
    m.header ≠ msgDisconnect ∧ m.header ≠ msgTerminate := by
  cases m with
  | disconnect => exact absurd rfl hd
  | terminate => exact absurd rfl ht
  | wait s =>
    exact ⟨Ne.symm msgDisconnect_ne_msgWait, Ne.symm msgTerminate_ne_msgWait⟩
  | _ =>
    refine ⟨ne_msgDisconnect _ ?_, ne_msgTerminate _ ?_⟩ <;>
      (simp only [DevMsg.header]; decide)

theorem quiet_raw (bs : List Byte) : Quiet [.raw bs] := by
  simp [Quiet, Event.leaves]

theorem quiet_events {m : DevMsg} (hd : m ≠ .disconnect) (ht : m ≠ .terminate) :
    Quiet m.events := by
  have h := header_stays hd ht
  unfold DevMsg.events payloadEvents
  split <;> simp [Quiet, Event.leaves, h]

theorem continues_events (hc : w.link.connected = true) {m : DevMsg} (hd : m ≠ .disconnect)
    (ht : m ≠ .terminate) : w.link.Continues [m] (w.sent m.events).link :=
  continues_sent hc (quiet_events hd ht) (by rw [written_events, writeAll_devMsg])

theorem quiet_answerEvents (answers : List Abort) : Quiet (answerEvents answers) := by
  have h : DevMsg.header (.rerespAbortreeval (parse [])) ≠ _ ∧ _ := header_stays (by simp) (by simp)
  intro e he
  simp only [answerEvents, List.mem_flatMap, List.mem_cons, List.not_mem_nil, or_false] at he
  obtain ⟨a, -, rfl | rfl⟩ := he
  · simp [Event.leaves]
  · simpa [Event.leaves, DevMsg.header] using h

theorem written_answerEvents (answers : List Abort) :
    (answerEvents answers).flatMap Event.written =
      devCodec.writeAll (answers.map .rerespAbortreeval) := by
  induction answers with
  | nil => rfl
  | cons a answers ih =>
    have h : (answerEvents (a :: answers)).flatMap Event.written =
        DevMsg.write (.rerespAbortreeval a) ++ (answerEvents answers).flatMap Event.written := by
      simp [answerEvents, Event.written, DevMsg.write, DevMsg.header, DevMsg.body, DevMsg.tail]
    rw [h, ih]
    rfl

theorem continues_answered (hc : w.link.connected = true) (W : Wait) :
    w.link.Continues (W.answers.map .rerespAbortreeval) (W.answered w).link :=
  continues_sent hc (quiet_answerEvents W.answers) (written_answerEvents W.answers)

theorem continues_wait (hc : w.link.connected = true) (W : Wait) :
    w.link.Continues W.said (W.world w).link := by
  have ha := continues_answered hc W
  unfold Wait.world Wait.said
  cases W.ending with
  | cut => exact ha.trans hc (continues_cut _)
  | refused rest =>
    exact ha.trans hc ((continues_took (by exact hc) _ rest).trans hc continues_disconnect)
  | got h rest => exact ha.trans hc (continues_took (by exact hc) _ rest)

theorem continues_finish (hc : w.link.connected = true) (f : Finish) (size : Nat) (doneS : Addr) :
    w.link.Continues [] (f.world size doneS w).link := by
  cases f with
  | ended done rest => exact continues_took hc size rest
  | endCut s => exact continues_cut _
  | disconnect => exact continues_shut
  | invalid => exact .refl hc

theorem continues_close (hc : w.link.connected = true) (t : Transaction) (W : Wait) :
    w.link.Continues W.said (t.close W w).2.link := by
  have hW := continues_wait hc W
  unfold Transaction.close
  cases hend : W.ending with
  | got h rest =>
    have hg : (W.world w).link.connected = true := by
      rw [Wait.world_got hend]
      exact hc
    simpa using hW.trans hg (continues_finish hg _ _ _)
  | _ => exact hW

@[simp] theorem judge_link (r : Reception) (doneS : Addr) :
    (r.judged doneS w).link = w.link := by
  unfold Reception.judged
  cases r.devRxevalF <;> rfl

theorem continues_verdict (hc : w.link.connected = true) (acceptPacket : Int32) :
    w.link.Continues [verdictMsg acceptPacket]
      (w.sent [.raw (bytes (verdict acceptPacket))]).link := by
  refine continues_sent hc (quiet_raw _) ?_
  unfold verdict verdictMsg
  split <;> rw [writeAll_bare rfl rfl] <;> simp [Event.written, DevMsg.header]

theorem continues_afterFound (hc : w.link.connected = true) (t : Transaction) (r : Reception)
    (abort : Abort) :
    w.link.Continues (t.saidAfterFound r abort w) (t.afterFound r abort w).2.link := by
  have hf := continues_found hc (r.v.found r.bufSize w.link.ptd) r.v t.doneS r.rxBuf r.bufSize
  have hconn := found_connected (w := w) (r.v.found r.bufSize w.link.ptd) r.v t.doneS r.rxBuf
    r.bufSize
  unfold Transaction.afterFound Transaction.saidAfterFound
  dsimp only
  generalize r.v.found r.bufSize w.link.ptd = f at hf hconn ⊢
  generalize f.world r.v t.doneS r.rxBuf r.bufSize w = w' at hf hconn ⊢
  split
  next hcomplete =>
    have hc' : w'.link.connected = true := by rw [hconn, hcomplete, hc]; rfl
    have hsaid : f.said = [] := by cases f <;> first | rfl | simp [Found.complete] at hcomplete
    have hv := continues_verdict (w := r.judged t.doneS w') (by rw [judge_link]; exact hc')
      (r.accepts t.doneS w')
    rw [hsaid] at hf
    rw [judge_link] at hv
    replace hv := hf.trans hc' hv
    have hcv : ((r.judged t.doneS w').sent
        [.raw (bytes (verdict (r.accepts t.doneS w')))]).link.connected = true := by
      simpa using hc'
    split
    next => exact hv.trans hcv (continues_close hcv t _)
    next => exact hv
  next => exact hf

theorem message_stays (t : Transaction) (mem : Mem) :
    t.message mem ≠ .disconnect ∧ t.message mem ≠ .terminate := by
  cases t <;> simp [Transaction.message]

theorem continues_proceed (hc : w.link.connected = true) (t : Transaction) :
    w.link.Continues (t.said w) (t.proceed w).2.link := by
  obtain ⟨hd, ht⟩ := message_stays t w.mem
  have hs : w.link.Continues [t.message w.mem] (w.sent (t.message w.mem).events).link :=
    continues_events hc hd ht
  unfold Transaction.proceed Transaction.said
  dsimp only
  refine hs.trans hc ?_
  have hc1 : (w.sent (t.message w.mem).events).link.connected = true := hc
  generalize w.sent (t.message w.mem).events = w1 at hc1 ⊢
  generalize await w1.abortF w1.calls t.abort w1.link.ptd = W
  have hclose := continues_close hc1 t W
  cases t.reception with
  | none => simpa using hclose
  | some r =>
    cases hW : W.ending with
    | got h rest =>
      have hcw : (W.world w1).link.connected = true := by
        rw [Wait.world_got hW]
        exact hc1
      dsimp only
      split
      next => exact (continues_wait hc1 W).trans hcw (continues_afterFound hcw t r W.abort)
      next => simpa using hclose
    | _ => simpa using hclose

-- ---------------------------------------------------------------------------
-- Any call
-- ---------------------------------------------------------------------------

theorem ncMessage_stays (c : NcReq) (mem : Mem) :
    c.message mem ≠ .disconnect ∧ c.message mem ≠ .terminate := by
  cases c with
  | rxCont devAccepts => cases devAccepts <;> simp [NcReq.message]
  | rxv2Cont devAccepts abort => cases devAccepts <;> simp [NcReq.message]
  | _ => simp [NcReq.message]

theorem quiet_ncEvents (c : NcReq) (mem : Mem) : Quiet (c.events mem) := by
  cases c with
  | rxCont devAccepts => exact quiet_raw _
  | rxv2Cont devAccepts abort =>
    cases devAccepts with
    | false => exact quiet_raw _
    | true => exact (quiet_raw _).append (quiet_raw _)
  | _ => exact quiet_events (ncMessage_stays _ mem).1 (ncMessage_stays _ mem).2

theorem written_ncEvents (c : NcReq) (mem : Mem) :
    (c.events mem).flatMap Event.written = (c.message mem).write := by
  cases c with
  | rxCont devAccepts =>
    cases devAccepts <;> simp [NcReq.events, NcReq.message, Event.written, DevMsg.write,
      DevMsg.header, DevMsg.body, DevMsg.tail]
  | rxv2Cont devAccepts abort =>
    cases devAccepts <;> simp [NcReq.events, NcReq.message, Event.written, DevMsg.write,
      DevMsg.header, DevMsg.body, DevMsg.tail]
  | _ => exact written_events _

theorem continues_spoken (hc : w.link.connected = true) (c : NcReq) :
    w.link.Continues [c.message w.mem] (c.spoken w).link :=
  continues_sent hc (quiet_ncEvents c w.mem) (by rw [written_ncEvents, writeAll_devMsg])

theorem continues_exec (hc : w.link.connected = true) (c : NcReq) :
    w.link.Continues (c.said w) (c.exec.run w).2.link := by
  unfold NcReq.said
  cases hp : c.passes w.nc with
  | false =>
    rw [run_exec_stopped hc c hp, if_neg (by simp)]
    exact .refl hc
  | true =>
    rw [run_exec_open hc c hp, if_pos ⟨hc, rfl⟩]
    have hs := continues_spoken hc c
    unfold NcReq.proceed
    cases c.listener with
    | none => exact hs
    | some l => exact hs.trans hc (continues_heard (w := c.spoken w) hc _ l)

theorem cbMessage_stays {c : CbReq} (h : c.message mem = some m) :
    m ≠ .disconnect ∧ m ≠ .terminate := by
  cases c with
  | transaction t =>
    simp only [CbReq.message, Option.some.injEq] at h
    exact h ▸ message_stays t mem
  | pickTxresp | pickWait => simp [CbReq.message] at h
  | _ =>
    simp only [CbReq.message, Option.some.injEq] at h
    simp [← h]

theorem continues_cbSpoken (hc : w.link.connected = true) (c : CbReq) :
    w.link.Continues (c.message w.mem).toList (c.spoken w).link ∧
      (c.spoken w).link.connected = true := by
  unfold CbReq.spoken
  cases hm : c.message w.mem with
  | none => exact ⟨.refl hc, hc⟩
  | some m => exact ⟨continues_events hc (cbMessage_stays hm).1 (cbMessage_stays hm).2, hc⟩

theorem continues_pickTx (hc : w.link.connected = true) (txDoneS : Addr) :
    w.link.Continues [] (pickTx txDoneS w).2.link := by
  unfold pickTx
  split
  next => exact continues_cut _
  next hb rest _ =>
    exact (continues_took hc _ rest).trans hc (continues_finish (by exact hc) _ _ _)

theorem hear_said (nc : DevStateNc) (s : List Byte) (hl : ∀ v, l ≠ .rx v) :
    (Listener.hear l nc s).said = [] := by
  have hf : ∀ h, l.finds nc h = none := fun h => by
    cases l with
    | rx v => exact absurd rfl (hl v)
    | _ => rfl
  unfold Listener.hear
  split
  next => rfl
  next hb s' _ =>
    unfold Listener.heed
    rw [hf]
    dsimp only
    split
    · rfl
    · split
      · rfl
      · split
        · split <;> rfl
        · rfl

theorem continues_cb (hc : w.link.connected = true) (c : CbReq) :
    w.link.Continues (c.said w) (c.exec.run w).2.link := by
  rw [run_cb_open hc c]
  unfold CbReq.said
  rw [if_pos hc]
  obtain ⟨hs, hcs⟩ := continues_cbSpoken hc c
  cases c with
  | transaction t => exact continues_proceed hc t
  | pickTxresp d => exact continues_pickTx hc d
  | txNoWait | txv2NoWait | waitNoWait => exact hs
  | rssi s d | rssiv2 s d =>
    have h := hs.trans hcs (continues_heard hcs ((Listener.rssi d).hear w.nc w.link.ptd) (.rssi d))
    rwa [hear_said _ _ (by simp), List.append_nil] at h
  | wait | pickWait =>
    have h := hs.trans hcs (continues_heard hcs (Listener.wait.hear w.nc w.link.ptd) .wait)
    rwa [hear_said _ _ (by simp), List.append_nil] at h

theorem continues_call (hc : w.link.connected = true) (c : Call) :
    w.link.Continues (c.said w) (c.exec.run w).2.link := by
  cases c with
  | nc c => exact continues_exec hc c
  | cb c => exact continues_cb hc c
  | disconnect =>
    rw [Call.exec, run_bind, devDisconnectSNc, run_devDisconnect hc, Call.said, if_pos hc]
    exact continues_disconnect
  | terminate =>
    rw [Call.exec, run_bind, devTerminateSNc, run_devTerminate hc, Call.said, if_pos hc]
    exact continues_terminate

theorem said_closed (hc : w.link.connected = false) (c : Call) : c.said w = [] := by
  cases c <;> simp [Call.said, NcReq.said, CbReq.said, hc]

end

-- ---------------------------------------------------------------------------
-- Whole streams
-- ---------------------------------------------------------------------------

def World.wrote (w w' : World) : List Byte :=
  (w'.link.log.drop w.link.log.length).flatMap Event.written

/-- Calls of the library say `ms` on the way from `w` to `w'`. Between two calls
anything may change but the log. -/
inductive Talk (w : World) : List DevMsg → World → Prop
  | start : Talk w [] w
  | call (h : Talk w ms w') (c : Call) : Talk w (ms ++ c.said w') (c.exec.run w').2
  | around (h : Talk w ms w') (hlog : w''.link.log = w'.link.log) : Talk w ms w''

section
variable {w w' : World}

theorem said_log (c : Call) (w : World) : ∃ es, (c.exec.run w).2.link.log = w.link.log ++ es ∧
    es.flatMap Event.written = devCodec.writeAll (c.said w) := by
  cases hc : w.link.connected with
  | false =>
    rw [run_call_closed hc c, said_closed hc c]
    exact ⟨[], (List.append_nil _).symm, rfl⟩
  | true =>
    obtain ⟨es, hlog, hw, -⟩ := continues_call hc c
    exact ⟨es, hlog, hw⟩

theorem Talk.log (h : Talk w ms w') : ∃ es, w'.link.log = w.link.log ++ es ∧
    es.flatMap Event.written = devCodec.writeAll ms := by
  induction h with
  | start => exact ⟨[], (List.append_nil _).symm, rfl⟩
  | @call ms w' h c ih =>
    obtain ⟨es, hlog, hw⟩ := ih
    obtain ⟨es', hlog', hw'⟩ := said_log c w'
    refine ⟨es ++ es', by rw [hlog', hlog, List.append_assoc], ?_⟩
    rw [List.flatMap_append, hw, hw', devCodec.writeAll_append]
  | around h hlog ih => rwa [hlog]

theorem wrote_eq (h : w'.link.log = w.link.log ++ es)
    (hw : es.flatMap Event.written = devCodec.writeAll ms) :
    w.wrote w' = devCodec.writeAll ms := by
  rw [World.wrote, h, List.drop_left, hw]

/-- What the phy reads off the stream is what the calls said, all of it and
nothing else. -/
theorem readAll_wrote (h : Talk w ms w') : devCodec.readAll (w.wrote w') = some ms := by
  obtain ⟨es, hlog, hw⟩ := h.log
  rw [wrote_eq hlog hw, devCodec.readAll_writeAll]

end

end PhyCom2G4

namespace PhyCom2G4

open Bytes Program Program.Prog

attribute [local instance] LibPhyCom.posix

/-- A transmission of three bytes without callbacks is re-evaluated, and a reception with
callbacks, for two addresses, asked for next. -/
theorem readAll_wrote_two_families :
    let w := { World.start (bytes msgAbortreeval) with mem := UInt8.ofNat }
    let txS : Tx := { (parse [] : Tx) with phyAddress := 0x8E89BED6, packetSize := 3 }
    let rxS : Rxv2 := { (parse [] : Rxv2) with scanDuration := 1000, nAddr := 2 }
    let tx := Call.nc (.tx txS 16 0)
    let rx := Call.cb (.transaction (.rxv2 rxS 32 0 0 0 none))
    let w₁ := (tx.exec.run w).2
    devCodec.readAll (w.wrote (rx.exec.run w₁).2) = some (tx.said w ++ rx.said w₁) := by
  intro w txS rxS tx rx w₁
  exact readAll_wrote ((Talk.start.call tx).call rx)

end PhyCom2G4

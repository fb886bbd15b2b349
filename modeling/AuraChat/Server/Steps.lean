import AuraChat.Server.Lifecycle

set_option autoImplicit false

/-!
# What a step can do

* `Effect`, `act_effect`: what one call of a pool thread changes;
* `Move`, **`move_of_step`**: the steps of the server, each with what it needs and what it leaves;
* **`wf_of_run`**: the network is well formed in every state that a run reaches.
-/

namespace AuraChat

open Interleave

variable {P : Params} {db : Store} {C : Label → State → Prop} {s s' : State} {l : Label}

/-! ## Calls -/

/-- What a call for the packet `o` changes. -/
inductive Effect (P : Params) (o : Origin) (s : State) : Call → State → Prop
  | look (a : Call) : Effect P o s a s
  | rate (x : ℕ) (now : Int) : Effect P o s (.rateTick x now)
      { s with net := s.net.updCtx x fun c => (c.rateTick P.cfg now).1 }
  | enter (uid : Int) (x : ℕ) (h : s.sessions uid = none) :
      Effect P o s (.bindEnter uid x) (s.bindWrite uid x o.conn)
  | store (uid : Int) (x : ℕ) : Effect P o s (.bindStore uid x) (s.bindWrite uid x o.conn)
  | send (x : ℕ) (cmd : CmdType) (seq : UInt32) (body : Bytes) (why : Purpose) (w : ℕ)
      (h : (s.net.ctxs x).ownerWorker = some w) :
      Effect P o s (.queueSendPacket x cmd seq body why) (s.queueFrame w ⟨o, x, cmd, seq, body, why⟩)
  | kick (old : Session) (fd : Int) (w : ℕ) (h : (s.net.ctxs old.ctx).ownerWorker = some w) :
      Effect P o s (.queueCloseConnection old fd)
        { s with net := s.net.push w (.close fd (some ⟨o, old.conn⟩)) }
  | submit (m : DBChatMessage) : Effect P o s (.submit m)
      { s with db := s.db.submit m, log := .submitted o m s.net.nextNum :: s.log }
  | mark (uid maxId : Int) : Effect P o s (.markDelivered uid maxId)
      { s with db := s.db.markDelivered uid maxId }
  | table (a : Call) (users : List FileUser) (friends : List (Int × Int))
      (reqs : List FileFriendRequest) (nextUid nextReqId : Int)
      (h : ∀ uid maxId, a ≠ .markDelivered uid maxId) : Effect P o s a
      { s with db := { s.db with
        users := users
        friends := friends
        friendReqs := reqs
        nextUid := nextUid
        nextReqId := nextReqId } }
  | ai (a : Call) (ai : AIManager)
      (h : (∃ fd req, a = .aiEnqueue fd req ∧ ai = (s.ai.enqueue fd req).2) ∨
        (a = .nextClient ∧ ai = { s.ai with rrCounter := s.ai.rrCounter + 1 }) ∨
        ∃ x, a = .eraseStream x ∧ ai = s.ai.eraseStream (s.net.ctxs x).fd) :
      Effect P o s a { s with ai := ai }

theorem act_effect {o : Origin} {a : Call} {e : Ext} {r : Reply a}
    (h : act P o a e s = some (r, s')) : Effect P o s a s' := by
  cases a with
  | rateTick x now =>
      simp only [act, Option.some.injEq, Prod.mk.injEq] at h
      obtain ⟨-, rfl⟩ := h
      exact .rate x now
  | registerUser u p =>
      simp only [act] at h
      split_ifs at h
      all_goals
        simp only [Option.some.injEq, Prod.mk.injEq] at h
        obtain ⟨-, rfl⟩ := h
      · simp only [Store.registerUser]
        split_ifs
        · exact .look _
        · exact .table _ _ _ _ _ _ (by simp)
      · exact .look _
  | addFriendRequest f t m =>
      simp only [act] at h
      split_ifs at h
      all_goals
        simp only [Option.some.injEq, Prod.mk.injEq] at h
        obtain ⟨-, rfl⟩ := h
      · simp only [Store.addFriendRequest]
        split_ifs
        · exact .look _
        · exact .look _
        · exact .table _ _ _ _ _ _ (by simp)
      · exact .look _
  | acceptFriendRequest q u =>
      simp only [act] at h
      split_ifs at h
      all_goals
        simp only [Option.some.injEq, Prod.mk.injEq] at h
        obtain ⟨-, rfl⟩ := h
      · simp only [Store.acceptFriendRequest]
        split_ifs
        · exact .table _ _ _ _ _ _ (by simp)
        · exact .table _ _ _ _ _ _ (by simp)
      · exact .look _
  | markDelivered uid maxId =>
      simp only [act, Option.some.injEq, Prod.mk.injEq] at h
      obtain ⟨-, rfl⟩ := h
      split_ifs
      · exact .mark uid maxId
      · exact .look _
  | submit m =>
      simp only [act, Option.some.injEq, Prod.mk.injEq] at h
      obtain ⟨-, rfl⟩ := h
      exact .submit m
  | bindEnter uid x =>
      simp only [act] at h
      split at h
      all_goals
        simp only [Option.some.injEq, Prod.mk.injEq] at h
        obtain ⟨-, rfl⟩ := h
      · exact .look _
      · exact .enter uid x ‹_›
  | bindStore uid x =>
      simp only [act, Option.some.injEq, Prod.mk.injEq] at h
      obtain ⟨-, rfl⟩ := h
      exact .store uid x
  | queueSendPacket x cmd seq body why =>
      simp only [act, Option.map_eq_some_iff, Prod.mk.injEq] at h
      obtain ⟨w, hw, -, rfl⟩ := h
      exact .send x cmd seq body why w hw
  | queueCloseConnection old fd =>
      simp only [act, Option.map_eq_some_iff, Prod.mk.injEq] at h
      obtain ⟨w, hw, -, rfl⟩ := h
      exact .kick old fd w hw
  | aiEnqueue fd req =>
      simp only [act, Option.some.injEq, Prod.mk.injEq] at h
      obtain ⟨-, rfl⟩ := h
      exact .ai _ _ (.inl ⟨fd, req, rfl, rfl⟩)
  | nextClient =>
      simp only [act, Option.some.injEq, Prod.mk.injEq] at h
      obtain ⟨-, rfl⟩ := h
      exact .ai _ _ (.inr (.inl ⟨rfl, rfl⟩))
  | eraseStream x =>
      simp only [act, Option.some.injEq, Prod.mk.injEq] at h
      obtain ⟨-, rfl⟩ := h
      exact .ai _ _ (.inr (.inr ⟨x, rfl, rfl⟩))
  | _ =>
      simp only [act, Option.some.injEq, Prod.mk.injEq] at h
      obtain ⟨-, rfl⟩ := h
      exact .look _

/-! ## Steps -/

/-- Take the first functor off the batch of a worker. -/
def Net.popBatch (w : ℕ) (rest : List Functor) (n : Net) : Net :=
  n.updWorker w fun k => { k with batch := rest }

/-- The open connection `c` leaves `connections_` and enters `close_impl`. -/
def Net.leave (c : ℕ) (d : Conn) (n : Net) : Net :=
  (n.setConn c { d with phase := .check }).updWorker d.worker fun k => { k with
    connections := Function.update k.connections d.fd none
    busy := some c }

/-- The frame is appended to a send buffer. -/
def Net.append (f : Frame) (d : Conn) (n : Net) : Net :=
  n.updCtx d.ctx fun c => { c with sendBuf := c.sendBuf ++ Net.packetBytes f, writing := true }

/-- **The steps of the server**, from the state `s`. -/
inductive Move (P : Params) (s : State) : Label → State → Prop
  | accept (fd : Int) (h0 : 0 ≤ fd) (hfd : s.net.openFds fd = false) :
      Move P s (.accept fd) { s with
        net := { s.net.push (s.rr % P.cfg.workerNum) (.add fd) with
          openFds := Function.update s.net.openFds fd true }
        rr := (s.rr + 1) % uint32Size }
  | swap (w : ℕ) (hb : (s.net.workers w).busy = none) (hq : (s.net.workers w).batch = []) :
      Move P s (.swap w) { s with
        net := s.net.updWorker w fun k => { k with batch := k.pending, pending := [] } }
  | add (w num : ℕ) (fd : Int) (rest : List Functor) (hb : (s.net.workers w).busy = none)
      (hq : (s.net.workers w).batch = ⟨num, .add fd⟩ :: rest) :
      Move P s (.functor w) { s with net := (s.net.popBatch w rest).addConnection P w fd }
  | sent (w num : ℕ) (f : Frame) (rest : List Functor) (c : ℕ) (d : Conn)
      (hb : (s.net.workers w).busy = none)
      (hq : (s.net.workers w).batch = ⟨num, .send f⟩ :: rest)
      (ha : s.net.accepts P w f = some (c, d)) :
      Move P s (.functor w) { s with
        net := (s.net.popBatch w rest).append f d
        log := .appended c f (s.net.ctxs d.ctx).uid :: s.log }
  | lost (w num : ℕ) (f : Frame) (rest : List Functor) (hb : (s.net.workers w).busy = none)
      (hq : (s.net.workers w).batch = ⟨num, .send f⟩ :: rest) (ha : s.net.accepts P w f = none) :
      Move P s (.functor w) { s with net := s.net.popBatch w rest }
  | overflow (w num : ℕ) (f : Frame) (rest : List Functor) (c : ℕ) (d : Conn)
      (hb : (s.net.workers w).busy = none)
      (hq : (s.net.workers w).batch = ⟨num, .send f⟩ :: rest) (ha : s.net.accepts P w f = none)
      (hr : s.net.route w f = some (c, d)) :
      Move P s (.functor w) { s with net := (s.net.popBatch w rest).push w (.close d.fd none) }
  | missed (w num : ℕ) (fd : Int) (kick : Option Kick) (rest : List Functor)
      (hb : (s.net.workers w).busy = none)
      (hq : (s.net.workers w).batch = ⟨num, .close fd kick⟩ :: rest)
      (hc : (s.net.workers w).connections fd = none) :
      Move P s (.functor w) { s with net := s.net.popBatch w rest }
  | closed (num : ℕ) (kick : Option Kick) (rest : List Functor) (c : ℕ) (d : Conn)
      (hb : (s.net.workers d.worker).busy = none)
      (hq : (s.net.workers d.worker).batch = ⟨num, .close d.fd kick⟩ :: rest)
      (hd : s.net.conns c = some d) (hp : d.phase = .opened) :
      Move P s (.functor d.worker) { s with
        net := (s.net.popBatch d.worker rest).leave c d
        log := .left c kick :: s.log }
  | read (c : ℕ) (d : Conn) (hdr : PacketHeader) (body : Bytes) (ts : List Task)
      (hd : s.net.conns c = some d) (hev : s.atEvents d) (hfr : hdr.Framed body)
      (ht : ts = s.tasks ∨ ts = s.tasks ++ [.business ⟨s.nextPid, c, d.ctx⟩ hdr body]) :
      Move P s (.read c hdr body) { s with
        nextPid := s.nextPid + 1
        tasks := ts
        log := .received ⟨s.nextPid, c, d.ctx⟩ hdr body :: s.log }
  | write (c : ℕ) (d : Conn) (count : ℕ) (hd : s.net.conns c = some d) (hev : s.atEvents d) :
      Move P s (.write c count) { s with net := s.net.updCtx d.ctx fun x => { x with
        sendBuf := x.sendBuf.drop count
        writing := if x.sendBuf.drop count = [] then false else x.writing } }
  | drop (c : ℕ) (d : Conn) (hd : s.net.conns c = some d) (hev : s.atEvents d) :
      Move P s (.drop c) { s with net := s.net.leave c d, log := .left c none :: s.log }
  | check (c : ℕ) (d : Conn) (hd : s.net.conns c = some d) (hp : d.phase = .check) :
      Move P s (.close d.worker) { s with net := s.net.setConn c { d with
        phase := if 0 < (s.net.ctxs d.ctx).uid then .loadCancel else .closeFd } }
  | loadCancel (c : ℕ) (d : Conn) (hd : s.net.conns c = some d) (hp : d.phase = .loadCancel) :
      Move P s (.close d.worker)
        { s with net := s.net.setConn c { d with phase := .cancel (s.net.ctxs d.ctx).uid } }
  | cancel (c : ℕ) (d : Conn) (uid : Int) (hd : s.net.conns c = some d) (hp : d.phase = .cancel uid) :
      Move P s (.close d.worker) { s with
        net := s.net.setConn c { d with phase := .loadUnbind }
        ai := s.ai.cancelRequest uid }
  | loadUnbind (c : ℕ) (d : Conn) (hd : s.net.conns c = some d) (hp : d.phase = .loadUnbind) :
      Move P s (.close d.worker)
        { s with net := s.net.setConn c { d with phase := .unbind (s.net.ctxs d.ctx).uid } }
  | unbind (c : ℕ) (d : Conn) (uid : Int) (hd : s.net.conns c = some d) (hp : d.phase = .unbind uid) :
      Move P s (.close d.worker) { s with
        net := s.net.setConn c { d with phase := .closeFd }
        sessions := Function.update s.sessions uid none }
  | closeFd (c : ℕ) (d : Conn) (hd : s.net.conns c = some d) (hp : d.phase = .closeFd) :
      Move P s (.close d.worker) { s with net := s.net.closeDescriptor c d }
  | release (c : ℕ) (d : Conn) (hd : s.net.conns c = some d) (hp : d.phase = .release) :
      Move P s (.close d.worker) { s with net := s.net.releaseContext c d }
  | dequeue (i : ℕ) (script : Script) (t : Task) (rest : List Task) (hlt : i < P.poolThreads)
      (hi : s.threads i = none) (ht : s.tasks = t :: rest) :
      Move P s (.dequeue i script) { s with
        tasks := rest
        threads := Function.update s.threads i (some ⟨t, script, [], t.prog P script⟩) }
  | finish (i : ℕ) (e : Ext) (t : Thread) (hi : s.threads i = some t) (hp : t.prog = .ret ()) :
      Move P s (.thread i e) { s with threads := Function.update s.threads i none }
  | call (i : ℕ) (e : Ext) (t : Thread) (a : Call) (k : Reply a → Prog Reply Unit) (r : Reply a)
      (s₁ : State) (hi : s.threads i = some t) (hp : t.prog = .call a k)
      (ha : act P t.task.origin a e s = some (r, s₁)) :
      Move P s (.thread i e) { s₁ with
        threads := Function.update s₁.threads i
          (some { t with hist := t.hist ++ [⟨a, r⟩], prog := k r })
        log := .did t.task.origin ⟨a, r⟩ :: s₁.log }
  | expire (req : StreamRequest) (rest : List StreamRequest) (now : Int) (w : ℕ) (f : Frame)
      (hq : s.ai.pending = req :: rest) (hw : (s.net.ctxs req.origin.ctx).ownerWorker = some w)
      (ho : f.origin = req.origin) (hx : f.ctx = req.origin.ctx) (hy : f.why = .chunk)
      (hn : 30 < now - req.timestamp) :
      Move P s (.schedule now) ({ s with ai := { s.ai with pending := rest } }.queueFrame w f)
  | forget (req : StreamRequest) (rest : List StreamRequest) (now : Int)
      (hq : s.ai.pending = req :: rest) :
      Move P s (.schedule now) { s with ai := { s.ai with pending := rest } }
  | activate (req : StreamRequest) (rest : List StreamRequest) (now : Int)
      (hq : s.ai.pending = req :: rest) (hn : ¬ 30 < now - req.timestamp)
      (hfd : ¬ (s.net.ctxs req.origin.ctx).fd < 0) :
      Move P s (.schedule now) { s with ai :=
        ({ s.ai with pending := rest } : AIManager).activate (s.net.ctxs req.origin.ctx).fd req }
  | dispatch (req : StreamRequest) (ts : List Task) (hh : s.ai.handoff = some req)
      (ht : ts = s.tasks ∨ ts = s.tasks ++ [.stream req]) :
      Move P s .dispatch { s with ai := { s.ai with handoff := none }, tasks := ts }
  | drain (hb : s.db.batch = []) : Move P s .drain { s with db := s.db.drain }
  | flush (ok : Bool) (hn : s.db.nextMsgId + s.db.batch.length ≤ s.db.idLimit) :
      Move P s (.flush ok) { s with db := s.db.flush ok }

@[simp] theorem Net.popBatch_connections (w : ℕ) (rest : List Functor) (n : Net) (w' : ℕ) :
    ((n.popBatch w rest).workers w').connections = (n.workers w').connections := by
  simp only [popBatch, updWorker_apply]
  split_ifs with e <;> simp [e]

@[simp] theorem Net.popBatch_route (w : ℕ) (rest : List Functor) (n : Net) (w' : ℕ) (f : Frame) :
    (n.popBatch w rest).route w' f = n.route w' f := by
  simp only [route, popBatch_connections]
  rfl

@[simp] theorem Net.popBatch_accepts (w : ℕ) (rest : List Functor) (n : Net) (w' : ℕ) (f : Frame) :
    (n.popBatch w rest).accepts P w' f = n.accepts P w' f := by
  simp only [accepts, popBatch_route]
  rfl

theorem forceClose_eq (hwf : s.net.WF P) {c : ℕ} {d : Conn} (hd : s.net.conns c = some d)
    (hp : d.phase = .opened) (kick : Option Kick) :
    s.forceClose d.worker d.fd kick =
      { s with net := s.net.leave c d, log := .left c kick :: s.log } := by
  have hc := (hwf.connections d.worker d.fd c).mpr ⟨d, hd, rfl, rfl, hp⟩
  simp only [State.forceClose, Net.forceCloseInLoop, hc, hd, Net.leave]

theorem forceClose_none {w : ℕ} {fd : Int} (hc : (s.net.workers w).connections fd = none)
    (kick : Option Kick) : s.forceClose w fd kick = s := by
  simp only [State.forceClose, Net.forceCloseInLoop, hc]

theorem enqueue_cases (t : Task) (s : State) :
    ∃ ts, s.enqueue t = { s with tasks := ts } ∧ (ts = s.tasks ∨ ts = s.tasks ++ [t]) := by
  unfold State.enqueue
  split_ifs
  · exact ⟨s.tasks, rfl, .inl rfl⟩
  · exact ⟨_, rfl, .inr rfl⟩

/-- What `send_packet_in_loop` does with a frame. -/
theorem sendPacketInLoop_cases (n : Net) (w : ℕ) (f : Frame) :
    (∃ c d, n.accepts P w f = some (c, d) ∧ n.sendPacketInLoop P w f = n.append f d) ∨
    (n.accepts P w f = none ∧ n.sendPacketInLoop P w f = n) ∨
    (n.accepts P w f = none ∧ ∃ c d, n.route w f = some (c, d) ∧
      n.sendPacketInLoop P w f = n.push w (.close d.fd none)) := by
  unfold Net.accepts Net.sendPacketInLoop
  rcases hr : n.route w f with _ | ⟨c, d⟩
  · exact .inr (.inl ⟨rfl, rfl⟩)
  · by_cases hp : d.phase = .opened <;> by_cases hf : n.fits P f d
    · exact .inl ⟨c, d, by simp [Option.filter, hp, hf], by simp [hp, hf, Net.append]⟩
    · exact .inr (.inr ⟨by simp [Option.filter, hf], c, d, rfl, by simp [hp, hf]⟩)
    · exact .inr (.inl ⟨by simp [Option.filter, hp], by simp [hp]⟩)
    · exact .inr (.inl ⟨by simp [Option.filter, hp], by simp [hp]⟩)

theorem move_of_functor (hwf : s.net.WF P) {w : ℕ} {f : Functor} {rest : List Functor}
    (hb : (s.net.workers w).busy = none) (hq : (s.net.workers w).batch = f :: rest) :
    Move P s (.functor w)
      (State.runJob P w { s with net := s.net.popBatch w rest } f.job) := by
  obtain ⟨num, job⟩ := f
  cases job with
  | add fd => exact .add w num fd rest hb hq
  | send f =>
      simp only [State.runJob]
      rcases sendPacketInLoop_cases (P := P) (s.net.popBatch w rest) w f with
        ⟨c, d, ha, he⟩ | ⟨ha, he⟩ | ⟨ha, c, d, hr, he⟩
      all_goals
        rw [Net.popBatch_accepts] at ha
        simp only [he, Net.popBatch_accepts, ha]
      · exact .sent w num f rest c d hb hq ha
      · exact .lost w num f rest hb hq ha
      · exact .overflow w num f rest c d hb hq ha (by simpa using hr)
  | close fd kick =>
      simp only [State.runJob]
      rcases hc : (s.net.workers w).connections fd with _ | c
      · rw [forceClose_none (by simpa using hc)]
        exact .missed w num fd kick rest hb hq hc
      · obtain ⟨d, hd, rfl, rfl, hp⟩ := hwf.conn_of_connections hc
        have hpop : (s.net.popBatch d.worker rest).conns c = some d := hd
        have hcon : ((s.net.popBatch d.worker rest).workers d.worker).connections d.fd = some c := by
          simpa using hc
        simp only [State.forceClose, Net.forceCloseInLoop, hcon, hpop]
        exact .closed num kick rest c d hb hq hd hp

theorem move_of_close (hwf : s.net.WF P) {w c : ℕ} {d : Conn} (hb : (s.net.workers w).busy = some c)
    (hd : s.net.conns c = some d) (h : s.closeStep c d = some s') : Move P s (.close w) s' := by
  obtain ⟨d', hd', rfl, -⟩ := (hwf.busy w c).mp hb
  obtain rfl : d = d' := Option.some.inj (hd.symm.trans hd')
  unfold State.closeStep at h
  cases hp : d.phase <;> simp only [hp, Option.some.injEq, reduceCtorEq] at h <;> subst h
  · exact .check c d hd hp
  · exact .loadCancel c d hd hp
  · exact .cancel c d _ hd hp
  · exact .loadUnbind c d hd hp
  · exact .unbind c d _ hd hp
  · exact .closeFd c d hd hp
  · exact .release c d hd hp

theorem move_of_schedule {req : StreamRequest} {rest : List StreamRequest} (now : Int)
    (hq : s.ai.pending = req :: rest) :
    Move P s (.schedule now) ({ s with ai := { s.ai with pending := rest } }.schedule P req now) := by
  unfold State.schedule
  split_ifs with hn hfd
  · unfold State.sendError
    split
    · exact .forget req rest now hq
    · exact .expire req rest now _ _ hq ‹_› rfl rfl rfl hn
  · exact .forget req rest now hq
  · exact .activate req rest now hq hn hfd

theorem move_of_thread {i : ℕ} {t : Thread} {e : Ext} (hi : s.threads i = some t)
    (h : s.threadStep P i t e = some s') : Move P s (.thread i e) s' := by
  unfold State.threadStep at h
  cases hp : t.prog with
  | ret x =>
      rw [hp] at h
      obtain rfl := Option.some.inj h
      exact .finish i e t hi hp
  | call a k =>
      rw [hp] at h
      obtain ⟨⟨r, s₁⟩, ha, rfl⟩ := Option.map_eq_some_iff.mp h
      exact .call i e t a k r s₁ hi hp ha

/-- **Every step of a well-formed server is one of the moves.** -/
theorem move_of_step (hwf : s.net.WF P) (h : step P l s = some s') : Move P s l s' := by
  cases l with
  | accept fd =>
      simp only [step] at h
      split_ifs at h with hc
      obtain rfl := Option.some.inj h
      exact .accept fd hc.1 hc.2.1
  | swap w =>
      simp only [step] at h
      split_ifs at h with hc
      obtain rfl := Option.some.inj h
      exact .swap w hc.1 hc.2
  | functor w =>
      simp only [step] at h
      split at h
      · obtain rfl := Option.some.inj h
        exact move_of_functor hwf ‹_› ‹_›
      · cases h
  | read c hdr body =>
      simp only [step] at h
      split at h
      · cases h
      split_ifs at h with hev
      obtain rfl := Option.some.inj h
      obtain ⟨ts, he, ht⟩ := enqueue_cases _ _
      rw [he]
      exact .read c _ hdr body ts ‹_› hev.1 hev.2 ht
  | write c count =>
      simp only [step] at h
      split at h
      · cases h
      split_ifs at h with hev
      obtain rfl := Option.some.inj h
      exact .write c _ count ‹_› hev
  | drop c =>
      simp only [step] at h
      split at h
      · cases h
      split_ifs at h with hev
      obtain rfl := Option.some.inj h
      rw [forceClose_eq hwf ‹_› hev.1]
      exact .drop c _ ‹_› hev
  | close w =>
      simp only [step] at h
      split at h
      · cases h
      split at h
      · cases h
      exact move_of_close hwf ‹_› ‹_› h
  | dequeue i script =>
      simp only [step] at h
      split at h
      · split_ifs at h with hlt
        obtain rfl := Option.some.inj h
        exact .dequeue i script _ _ hlt ‹_› ‹_›
      · cases h
  | thread i e =>
      simp only [step] at h
      split at h
      · cases h
      exact move_of_thread ‹_› h
  | schedule now =>
      simp only [step] at h
      split at h
      · split_ifs at h
        obtain rfl := Option.some.inj h
        exact move_of_schedule now ‹_›
      · cases h
  | dispatch =>
      simp only [step] at h
      split at h
      · cases h
      obtain rfl := Option.some.inj h
      obtain ⟨ts, he, ht⟩ := enqueue_cases _ _
      rw [he]
      exact .dispatch _ ts ‹_› ht
  | drain =>
      simp only [step] at h
      split_ifs at h with hb
      obtain rfl := Option.some.inj h
      exact .drain hb
  | flush ok =>
      simp only [step] at h
      split_ifs at h with hn
      obtain rfl := Option.some.inj h
      exact .flush ok hn.2

/-! ## Well-formedness along runs -/

theorem wf_popBatch (hwf : s.net.WF P) {w : ℕ} {f : Functor} {rest : List Functor}
    (hq : (s.net.workers w).batch = f :: rest) : (s.net.popBatch w rest).WF P :=
  hwf.shrink w (fun k => { k with batch := rest }) rfl rfl rfl (by
    simp only [Worker.queue, hq]
    exact (List.sublist_cons_self f rest).append (List.Sublist.refl _))

/-- The functor that adds a descriptor is the only one for it. -/
theorem add_not_mem_popBatch (hwf : s.net.WF P) {w num : ℕ} {fd : Int} {rest : List Functor}
    (hq : (s.net.workers w).batch = ⟨num, .add fd⟩ :: rest) (w' : ℕ) :
    ∀ f ∈ ((s.net.popBatch w rest).workers w').queue, f.job ≠ .add fd := by
  intro f hf he
  have hhead : (⟨num, .add fd⟩ : Functor) ∈ (s.net.workers w).queue := by simp [Worker.queue, hq]
  have hsorted := hwf.num_sorted w
  simp only [Worker.queue, hq, List.cons_append, List.pairwise_cons] at hsorted
  simp only [Net.popBatch, Net.updWorker_apply] at hf
  split_ifs at hf with hw
  · have hlt := hsorted.1 f hf
    have hmem : f ∈ (s.net.workers w).queue := by
      simp only [Worker.queue, hq, List.cons_append]
      exact List.mem_cons_of_mem _ hf
    have hnum : num = f.num := (hwf.add_inj w _ hhead w f hmem fd rfl he).2
    exact Nat.ne_of_lt hlt hnum
  · exact hw (hwf.add_inj w _ hhead w' f hf fd rfl he).1.symm

theorem wf_addConnection (hwf : s.net.WF P) {w num : ℕ} {fd : Int} {rest : List Functor}
    (hq : (s.net.workers w).batch = ⟨num, .add fd⟩ :: rest) :
    ((s.net.popBatch w rest).addConnection P w fd).WF P := by
  have hhead : (⟨num, .add fd⟩ : Functor) ∈ (s.net.workers w).queue := by simp [Worker.queue, hq]
  obtain ⟨h0, hopen, hfd⟩ := hwf.add_fresh w _ hhead fd rfl
  exact (wf_popBatch hwf hq).addConnection w fd h0 hopen hfd (add_not_mem_popBatch hwf hq)

theorem wf_leave {n : Net} (hwf : n.WF P) {c : ℕ} {d : Conn} (hd : n.conns c = some d)
    (hp : d.phase = .opened) (hb : (n.workers d.worker).busy = none) : (n.leave c d).WF P := by
  have hc := (hwf.connections d.worker d.fd c).mpr ⟨d, hd, rfl, rfl, hp⟩
  have := hwf.forceCloseInLoop hb d.fd
  simpa only [Net.forceCloseInLoop, hc, hd, Net.leave] using this

theorem wf_effect (hwf : s.net.WF P) {o : Origin} {a : Call} (h : Effect P o s a s') :
    s'.net.WF P := by
  cases h with
  | look | submit | mark | table | ai => exact hwf
  | rate x now =>
      dsimp only
      refine hwf.updCtx x _ ?_ ?_ ?_
      all_goals
        simp only [ClientContext.rateTick]
        split_ifs <;> rfl
  | enter uid x | store uid x =>
      dsimp only [State.bindWrite, Net.bindContext]
      exact hwf.updCtx x _ rfl rfl rfl
  | send x cmd seq body why w hw =>
      change (s.net.push w _).WF P
      refine hwf.push w _ (fun _ e => by cases e) fun fr e => ?_
      obtain rfl := Job.send.inj e
      exact hw
  | kick old fd w hw =>
      change (s.net.push w _).WF P
      exact hwf.push w _ (fun _ e => by cases e) fun _ e => by cases e

theorem wf_move (hwf : s.net.WF P) (h : Move P s l s') : s'.net.WF P := by
  cases h with
  | accept fd h0 hfd => exact hwf.accept _ fd h0 hfd
  | swap w hb hq =>
      dsimp only
      refine hwf.shrink w _ rfl rfl rfl ?_
      simp [Worker.queue, hq]
  | add w num fd rest hb hq => exact wf_addConnection hwf hq
  | sent w num f rest c d hb hq ha =>
      dsimp only [Net.append]
      exact (wf_popBatch hwf hq).updCtx _ _ rfl rfl rfl
  | lost w num f rest hb hq ha => exact wf_popBatch hwf hq
  | overflow w num f rest c d hb hq ha hr =>
      exact (wf_popBatch hwf hq).push w _ (fun _ e => by cases e) fun _ e => by cases e
  | missed w num fd kick rest hb hq hc => exact wf_popBatch hwf hq
  | closed num kick rest c d hb hq hd hp =>
      refine wf_leave (wf_popBatch hwf hq) hd hp ?_
      simp only [Net.popBatch, Net.updWorker_apply, if_pos, hb]
  | write c d count hd hev =>
      dsimp only
      exact hwf.updCtx _ _ rfl rfl rfl
  | drop c d hd hev => exact wf_leave hwf hd hev.1 hev.2.1
  | check c d hd hp =>
      refine hwf.setPhase hd (by simp [Conn.Closing, hp]) _ ?_ fun _ => by simp [Conn.Holds, hp]
      split_ifs <;> simp [Conn.Closing]
  | loadCancel c d hd hp | loadUnbind c d hd hp | cancel c d uid hd hp | unbind c d uid hd hp =>
      exact hwf.setPhase hd (by simp [Conn.Closing, hp]) _ (by simp [Conn.Closing])
        fun _ => by simp [Conn.Holds, hp]
  | closeFd c d hd hp => exact hwf.closeDescriptor hd hp
  | release c d hd hp => exact hwf.releaseContext hd hp
  | call i e t a k r s₁ hi hp ha =>
      have hwf₁ : s₁.net.WF P := wf_effect hwf (act_effect ha)
      exact hwf₁
  | expire req rest now w f hq hw ho hx hy =>
      change (s.net.push w _).WF P
      refine hwf.push w _ (fun _ e => by cases e) fun fr e => ?_
      obtain rfl := Job.send.inj e
      rw [hx]
      exact hw
  | read | dequeue | finish | forget | activate | dispatch | drain | flush => exact hwf

/-- **The network is well formed in every state that a run reaches.** -/
theorem wf_of_run (h : RunTo P db C s) : s.net.WF P :=
  h.invariant (fun s => s.net.WF P) (Net.wf_init P)
    fun _ _ _ _ hwf hs => wf_move hwf (move_of_step hwf hs)

/-- **The invariant rule of the server**: what holds first and is kept by every move that meets the
condition holds along the run. -/
theorem run_invariant (h : RunTo P db C s) (I : State → Prop) (h₀ : I (State.init P db))
    (hmove : ∀ l s s', RunTo P db C s → s.net.WF P → C l s → I s → Move P s l s' → I s') : I s :=
  h.invariant_reach I h₀ fun l s s' hr hc hi hs =>
    hmove l s s' hr (wf_of_run hr) hc hi (move_of_step (wf_of_run hr) hs)

end AuraChat

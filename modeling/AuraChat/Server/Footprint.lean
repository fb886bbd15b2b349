import AuraChat.Server.Identity

set_option autoImplicit false

/-!
# Packets handled alone

`process_business` run by itself on a state, and what it has left behind. Its calls are taken one by
one: each has a rule that says what becomes of the footprint.

* `runBusiness`: `process_business` run alone, with the record that a pool thread leaves;
* `Footprint`: what has become of the store, the AI manager and the sessions, which calls changed the
  store and who was sent packets;
* `wp_read`, `wp_send`, `wp_submit` and so on: the rules for the calls.
-/

namespace AuraChat

open Interleave Prog

variable {P : Params} {o : Origin} {hdr : PacketHeader}

/-! ## Running alone -/

/-- A call of a pool thread, with its entry in the record. -/
def actRecorded (P : Params) (o : Origin) (a : Call) (e : Ext) (s : State) :
    Option (Reply a × State) :=
  (act P o a e s).map fun rs => (rs.1, { rs.2 with log := .did o ⟨a, rs.1⟩ :: rs.2.log })

/-- `process_business`, run alone on a packet; `σ` is what the environment contributes to its calls
in turn. -/
def runBusiness (P : Params) (o : Origin) (hdr : PacketHeader) (body : Bytes) (σ : ℕ → Ext)
    (s : State) : Option State :=
  (exec (actRecorded P o) (processBusiness P o hdr body) σ s).map Prod.snd

/-- The calls that change a table of the store or the queue of the batch writer. -/
def Call.writes : Call → Bool
  | .registerUser _ _ | .markDelivered _ _ | .addFriendRequest _ _ _ | .acceptFriendRequest _ _
  | .submit _ => true
  | _ => false

/-- The recorded calls that change the store, newest first. -/
def writes (log : List Entry) : List Call :=
  log.filterMap fun e => match e with
    | .did _ e => if e.1.writes then some e.1 else none
    | _ => none

/-- The recorded packets, newest first. -/
def frames (log : List Entry) : List Frame :=
  log.filterMap fun e => match e with
    | .queued f _ _ => some f
    | _ => none

/-- **What work for a packet has done** between `s` and `s'`: the store and the AI manager are
now `db` and `ai`, the store was changed by the calls `calls`, packets were queued to the contexts
`xs` only, and no session and no uid, descriptor or worker of a context has changed. -/
structure Footprint (s : State) (db : Store) (ai : AIManager) (calls : List Call) (xs : List ℕ)
    (s' : State) : Prop where
  db : s'.db = db
  ai : s'.ai = ai
  sessions : s'.sessions = s.sessions
  uid : ∀ x, (s'.net.ctxs x).uid = (s.net.ctxs x).uid
  fd : ∀ x, (s'.net.ctxs x).fd = (s.net.ctxs x).fd
  owner : ∀ x, (s'.net.ctxs x).ownerWorker = (s.net.ctxs x).ownerWorker
  calls : writes s'.log = calls ++ writes s.log
  sent : ∃ new, frames s'.log = new ++ frames s.log ∧ ∀ f ∈ new, f.ctx ∈ xs

theorem Footprint.refl (s : State) (xs : List ℕ) : Footprint s s.db s.ai [] xs s :=
  ⟨rfl, rfl, rfl, fun _ => rfl, fun _ => rfl, fun _ => rfl, rfl, [], rfl, fun _ h => by cases h⟩

theorem Footprint.widen {s s' : State} {db : Store} {ai : AIManager} {calls : List Call} {x : ℕ}
    (h : Footprint s db ai calls [x] s') (xs : List ℕ) : Footprint s db ai calls (x :: xs) s' := by
  obtain ⟨new, hnew, hmem⟩ := h.sent
  refine { h with sent := ⟨new, hnew, fun f hf => ?_⟩ }
  rw [List.mem_singleton.mp (hmem f hf)]
  exact List.mem_cons_self

/-! ## Calls -/

/-- The calls that only read. -/
def Call.reads : Call → Bool
  | .steadyClock | .systemClock | .loadUid _ | .loadFd _ | .ownerWorker _ | .dbWriter
  | .searchUsers _ | .getFriends _ | .getPendingRequests _ | .sessionGet _ => true
  | _ => false

/-- What the reply to a reading call says about the state. -/
def Answer (s : State) : (a : Call) → Reply a → Prop
  | .loadUid x, r => r = (s.net.ctxs x).uid
  | .loadFd x, r => r = (s.net.ctxs x).fd
  | .ownerWorker x, r => r = (s.net.ctxs x).ownerWorker
  | .dbWriter, r => r = true
  | .sessionGet uid, r => r = (s.sessions uid).map Session.ctx
  | _, _ => True

theorem act_read {a : Call} {e : Ext} {s s' : State} {r : Reply a} (ha : a.reads = true)
    (h : act P o a e s = some (r, s')) : s' = s ∧ Answer s a r := by
  cases a with
  | steadyClock | systemClock | searchUsers | getFriends | getPendingRequests =>
      simp only [act, Option.some.injEq, Prod.mk.injEq] at h
      exact ⟨h.2.symm, trivial⟩
  | loadUid | loadFd | ownerWorker | dbWriter | sessionGet =>
      simp only [act, Option.some.injEq, Prod.mk.injEq] at h
      exact ⟨h.2.symm, h.1.symm⟩
  | _ => cases ha

theorem writes_read {a : Call} (ha : a.reads = true) (r : Reply a) (log : List Entry) :
    writes (.did o ⟨a, r⟩ :: log) = writes log := by
  cases a with
  | registerUser | markDelivered | addFriendRequest | acceptFriendRequest | submit => cases ha
  | _ => rfl

section Calls

variable {s s₁ : State} {db : Store} {ai : AIManager} {calls : List Call} {xs : List ℕ} {σ : ℕ → Ext}

theorem Footprint.answer (hf : Footprint s db ai calls xs s₁) {a : Call} {r : Reply a}
    (h : Answer s₁ a r) : Answer s a r := by
  cases a with
  | loadUid x => exact h.trans (hf.uid x)
  | loadFd x => exact h.trans (hf.fd x)
  | ownerWorker x => exact h.trans (hf.owner x)
  | sessionGet uid => exact h.trans (by rw [hf.sessions])
  | dbWriter => exact h
  | _ => trivial

theorem wp_recorded {a : Call} {Q : Reply a → (ℕ → Ext) → State → Prop}
    (h : ∀ r s₂, act P o a (σ 0) s₁ = some (r, s₂) →
      Q r (fun n => σ (n + 1)) { s₂ with log := .did o ⟨a, r⟩ :: s₂.log }) :
    wp (actRecorded P o) (call a) Q σ s₁ := by
  intro r s₂ ha
  simp only [actRecorded, Option.map_eq_some_iff, Prod.mk.injEq] at ha
  obtain ⟨⟨r, s₃⟩, hact, rfl, rfl⟩ := ha
  exact h r s₃ hact

theorem wp_read {a : Call} (hf : Footprint s db ai calls xs s₁) (ha : a.reads = true)
    {Q : Reply a → (ℕ → Ext) → State → Prop}
    (hQ : ∀ r σ s₂, Answer s a r → Footprint s db ai calls xs s₂ → Q r σ s₂) :
    wp (actRecorded P o) (call a) Q σ s₁ := by
  refine wp_recorded fun r s₂ hact => ?_
  obtain ⟨rfl, hr⟩ := act_read ha hact
  refine hQ _ _ _ (hf.answer hr) ⟨hf.db, hf.ai, hf.sessions, hf.uid, hf.fd, hf.owner, ?_, hf.sent⟩
  rw [← hf.calls]
  exact writes_read ha r _

/-- A packet is queued to a context that may be sent packets. -/
theorem wp_send (hf : Footprint s db ai calls xs s₁) {x : ℕ} (hx : x ∈ xs) (cmd : CmdType)
    (seq : UInt32) (b : Bytes) (why : Purpose) {Q : Unit → (ℕ → Ext) → State → Prop}
    (hQ : ∀ σ s₂, Footprint s db ai calls xs s₂ → Q () σ s₂) :
    wp (actRecorded P o) (call (.queueSendPacket x cmd seq b why)) Q σ s₁ := by
  refine wp_recorded fun r s₂ hact => ?_
  simp only [act, Option.map_eq_some_iff, Prod.mk.injEq] at hact
  obtain ⟨w, -, -, rfl⟩ := hact
  obtain ⟨new, hnew, hmem⟩ := hf.sent
  refine hQ _ _ ⟨hf.db, hf.ai, hf.sessions, hf.uid, hf.fd, hf.owner, hf.calls,
    ⟨o, x, cmd, seq, b, why⟩ :: new, congrArg (_ :: ·) hnew, fun f hmf => ?_⟩
  rcases List.mem_cons.mp hmf with rfl | hmf
  · exact hx
  · exact hmem f hmf

theorem wp_reply (hf : Footprint s db ai calls xs s₁) (hx : o.ctx ∈ xs) (r : Response)
    {Q : Unit → (ℕ → Ext) → State → Prop} (hQ : ∀ σ s₂, Footprint s db ai calls xs s₂ → Q () σ s₂) :
    wp (actRecorded P o) (reply P o hdr r) Q σ s₁ :=
  wp_send hf hx _ _ _ _ hQ

theorem wp_runReply (hf : Footprint s db ai calls xs s₁) (hx : o.ctx ∈ xs) (r : Response) :
    wp (actRecorded P o) (run (reply P o hdr r)).run
      (fun _ _ s' => Footprint s db ai calls xs s') σ s₁ := by
  rw [run, wp_run_lift]
  exact wp_reply hf hx r fun _ _ hf => hf

theorem wp_reply_null (hf : Footprint s db ai calls xs s₁)
    (hnull : (s.net.ctxs o.ctx).ownerWorker = none) (r : Response)
    {Q : Unit → (ℕ → Ext) → State → Prop} : wp (actRecorded P o) (reply P o hdr r) Q σ s₁ := by
  refine wp_recorded fun _ s₂ hact => ?_
  simp only [act, hf.owner, hnull, Option.map_none] at hact
  cases hact

theorem rateTick_frame (cfg : Config) (now : Int) (c : ClientContext) :
    (c.rateTick cfg now).1.fd = c.fd ∧ (c.rateTick cfg now).1.ownerWorker = c.ownerWorker := by
  simp only [ClientContext.rateTick]
  split_ifs <;> exact ⟨rfl, rfl⟩

theorem wp_rateTick (hf : Footprint s db ai calls xs s₁) (x : ℕ) (now : Int)
    {Q : Bool → (ℕ → Ext) → State → Prop}
    (hQ : ∀ σ s₂, Footprint s db ai calls xs s₂ → Q ((s₁.net.ctxs x).rateTick P.cfg now).2 σ s₂) :
    wp (actRecorded P o) (call (.rateTick x now)) Q σ s₁ := by
  refine wp_recorded fun r s₂ hact => ?_
  simp only [act, Option.some.injEq, Prod.mk.injEq] at hact
  obtain ⟨rfl, rfl⟩ := hact
  have hframe : ∀ y, ((s₁.net.updCtx x fun c => (c.rateTick P.cfg now).1).ctxs y).fd =
        (s₁.net.ctxs y).fd ∧
      ((s₁.net.updCtx x fun c => (c.rateTick P.cfg now).1).ctxs y).ownerWorker =
        (s₁.net.ctxs y).ownerWorker := by
    intro y
    rw [Net.updCtx_apply]
    split_ifs with hy
    · rw [hy]
      exact rateTick_frame P.cfg now _
    · exact ⟨rfl, rfl⟩
  exact hQ _ _ ⟨hf.db, hf.ai, hf.sessions,
    fun y => (updCtx_uid _ _ _ (rateTick_uid P.cfg now) y).trans (hf.uid y),
    fun y => (hframe y).1.trans (hf.fd y), fun y => (hframe y).2.trans (hf.owner y), hf.calls, hf.sent⟩

theorem wp_submit (hf : Footprint s db ai calls xs s₁) (m : DBChatMessage)
    {Q : Unit → (ℕ → Ext) → State → Prop}
    (hQ : ∀ σ s₂, Footprint s (db.submit m) ai (.submit m :: calls) xs s₂ → Q () σ s₂) :
    wp (actRecorded P o) (call (.submit m)) Q σ s₁ := by
  refine wp_recorded fun r s₂ hact => ?_
  simp only [act, Option.some.injEq, Prod.mk.injEq, true_and] at hact
  subst hact
  exact hQ _ _ ⟨congrArg (Store.submit m) hf.db, hf.ai, hf.sessions, hf.uid, hf.fd, hf.owner,
    congrArg (_ :: ·) hf.calls, hf.sent⟩

theorem wp_aiEnqueue (hf : Footprint s db ai calls xs s₁) (fd : Int) (req : StreamRequest)
    {Q : Bool → (ℕ → Ext) → State → Prop}
    (hQ : ∀ b σ s₂, Footprint s db (ai.enqueue fd req).2 calls xs s₂ → Q b σ s₂) :
    wp (actRecorded P o) (call (.aiEnqueue fd req)) Q σ s₁ := by
  refine wp_recorded fun r s₂ hact => ?_
  simp only [act, Option.some.injEq, Prod.mk.injEq] at hact
  obtain ⟨-, rfl⟩ := hact
  exact hQ _ _ _ ⟨hf.db, congrArg (fun ai => (AIManager.enqueue fd req ai).2) hf.ai, hf.sessions,
    hf.uid, hf.fd, hf.owner, hf.calls, hf.sent⟩

/-- The friend tables after a request is made, in file mode; in MySQL mode they are in the database. -/
def requested (f t : Int) (m : String) (db : Store) : Store :=
  if db.useFileStorage then (db.addFriendRequest f t m).2 else db

/-- The friend tables after a request is accepted. -/
def accepted (id uid : Int) (db : Store) : Store :=
  if db.useFileStorage then (db.acceptFriendRequest id uid).2 else db

theorem give_eq_ok {α : Type} {e : Ext} {x v : α} (h : e.give x = .ok v) : v = x := by
  unfold Ext.give at h
  split_ifs at h
  exact (Except.ok.inj h).symm

theorem wp_addFriendRequest (hf : Footprint s db ai calls xs s₁) (f t : Int) (m : String)
    {Q : Except Unit Int → (ℕ → Ext) → State → Prop}
    (hQ : ∀ r σ s₂,
      (∀ v, r = .ok v → db.useFileStorage = true → v = (db.addFriendRequest f t m).1) →
      Footprint s (requested f t m db) ai (.addFriendRequest f t m :: calls) xs s₂ → Q r σ s₂) :
    wp (actRecorded P o) (call (.addFriendRequest f t m)) Q σ s₁ := by
  refine wp_recorded fun r s₂ hact => ?_
  obtain ⟨rfl, h2, h3, h4, h5, h6, h7, h8⟩ := hf
  unfold requested at hQ
  simp only [act] at hact
  split_ifs at hact hQ with hm <;> simp only [Option.some.injEq, Prod.mk.injEq] at hact <;>
    obtain ⟨rfl, rfl⟩ := hact
  · exact hQ _ _ _ (fun v hv _ => give_eq_ok hv) ⟨rfl, h2, h3, h4, h5, h6, congrArg (_ :: ·) h7, h8⟩
  · exact hQ _ _ _ (fun v _ h => absurd h hm) ⟨rfl, h2, h3, h4, h5, h6, congrArg (_ :: ·) h7, h8⟩

theorem wp_acceptFriendRequest (hf : Footprint s db ai calls xs s₁) (id uid : Int)
    {Q : Except Unit Int → (ℕ → Ext) → State → Prop}
    (hQ : ∀ r σ s₂,
      (∀ v, r = .ok v → db.useFileStorage = true → v = (db.acceptFriendRequest id uid).1) →
      Footprint s (accepted id uid db) ai (.acceptFriendRequest id uid :: calls) xs s₂ → Q r σ s₂) :
    wp (actRecorded P o) (call (.acceptFriendRequest id uid)) Q σ s₁ := by
  refine wp_recorded fun r s₂ hact => ?_
  obtain ⟨rfl, h2, h3, h4, h5, h6, h7, h8⟩ := hf
  unfold accepted at hQ
  simp only [act] at hact
  split_ifs at hact hQ with hm <;> simp only [Option.some.injEq, Prod.mk.injEq] at hact <;>
    obtain ⟨rfl, rfl⟩ := hact
  · exact hQ _ _ _ (fun v hv _ => give_eq_ok hv) ⟨rfl, h2, h3, h4, h5, h6, congrArg (_ :: ·) h7, h8⟩
  · exact hQ _ _ _ (fun v _ h => absurd h hm) ⟨rfl, h2, h3, h4, h5, h6, congrArg (_ :: ·) h7, h8⟩

end Calls

end AuraChat

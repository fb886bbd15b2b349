import AuraChat.Model.Sample
import AuraChat.Server.Trace

set_option autoImplicit false

/-!
# One reply per request

The runs of `process_business` on a packet with a handled command and a body that parses, whatever is
replied to its calls. A call through a null `owner_worker` ends a run.

* `Ran`, `Stopped`: what a run has done, and where it ends;
* `Addresses`: the contexts of other users that a request finds and writes to;
* `Parses`: the packet has a handled command and a body that parses;
* `Fresh`, `Facing`, `Good`: a run before its reply, at a call on another context, and after its reply;
* `handleLogin_good`, …, `processBusiness_good`;
* **`one_reply_iff`**: a run replies exactly once, or not at all when the AI manager has taken the message,
  if and only if the contexts that it writes to have their workers.
-/

namespace AuraChat

open Interleave Interleave.Prog

/-! ## Runs and replies -/

section Runs

variable (own : ℕ → Option ℕ)

/-- The call goes through a null `owner_worker`. -/
def Call.Null : Call → Prop
  | .queueSendPacket x _ _ _ _ => own x = none
  | .queueCloseConnection old _ => own old.ctx = none
  | _ => False

instance (a : Call) : Decidable (a.Null own) := by
  cases a <;> (unfold Call.Null; infer_instance)

/-- The reply that the owners of the contexts fix. -/
def Tells : (a : Call) → Reply a → Prop
  | .ownerWorker x, r => r = own x
  | _, _ => True

/-- What a run has done. -/
def Ran (h : List (Event Reply)) : Prop := ∀ e ∈ h, ¬ e.1.Null own ∧ Tells own e.1 e.2

/-- The program has returned, or its next call goes through a null `owner_worker`. -/
def Stopped (q : Prog Reply Unit) : Prop := q = .ret () ∨ ∃ a k, q = .call a k ∧ a.Null own

end Runs

/-- A packet queued to the sender with the sequence number of the request. -/
def isReply (o : Origin) (seq : UInt32) (e : Event Reply) : Bool :=
  match e.1 with
  | .queueSendPacket x _ seq' _ _ => x == o.ctx && seq' == seq
  | _ => false

/-- The AI manager takes a message. -/
def isAccepted (e : Event Reply) : Bool :=
  match e with
  | ⟨.aiEnqueue _ _, true⟩ => true
  | _ => false

/-- The requests that send a packet to a session they look up. -/
def WritesToSession (cmd : UInt32) : Prop :=
  cmd = CmdType.chat.code ∨ cmd = CmdType.addFriend.code ∨ cmd = CmdType.acceptFriend.code

instance (cmd : UInt32) : Decidable (WritesToSession cmd) := by unfold WritesToSession; infer_instance

/-- The context of the session that a lookup finds. -/
def found (e : Event Reply) : Option ℕ :=
  match e with
  | ⟨.sessionGet _, r⟩ => r
  | _ => none

/-- The context of the older session that a bind finds. -/
def replaced (e : Event Reply) : Option ℕ :=
  match e with
  | ⟨.bindEnter _ _, some old⟩ => some old.ctx
  | _ => none

/-- The context that a load finds to have a descriptor. -/
def connected (e : Event Reply) : Option ℕ :=
  match e with
  | ⟨.loadFd x, fd⟩ => if fd = -1 then none else some x
  | _ => none

/-- A context that a request writes to besides the sender's: the one of a session that it looks up, or of
the older session of the user that it binds, while that has a descriptor. -/
def Addresses (cmd : UInt32) (h : List (Event Reply)) (x : ℕ) : Prop :=
  (WritesToSession cmd ∧ some x ∈ h.map found) ∨ (some x ∈ h.map replaced ∧ some x ∈ h.map connected)

/-- The packet has a handled command and a body that parses. -/
inductive Parses (P : Params) (body : Bytes) : UInt32 → Prop
  | login (h : (P.codec.parseLoginRequest body).isSome) : Parses P body CmdType.login.code
  | chat (h : (P.codec.parseChatMessage body).isSome) : Parses P body CmdType.chat.code
  | register (h : (P.codec.parseRegisterRequest body).isSome) : Parses P body CmdType.register.code
  | heartbeat : Parses P body CmdType.heartbeat.code
  | addFriend (h : (P.codec.parseAddFriendRequest body).isSome) : Parses P body CmdType.addFriend.code
  | acceptFriend (h : (P.codec.parseAcceptFriendRequest body).isSome) :
      Parses P body CmdType.acceptFriend.code
  | friendList : Parses P body CmdType.friendList.code
  | searchUser (h : (P.codec.parseSearchUserRequest body).isSome) : Parses P body CmdType.searchUser.code
  | friendRequests : Parses P body CmdType.friendRequests.code

/-! ## Before and after the reply -/

section Stages

variable (own : ℕ → Option ℕ) (o : Origin) (hdr : PacketHeader) (h : List (Event Reply))

/-- The replies are as many as they should be if and only if every context that is written to has its
worker. -/
def Good : Prop :=
  h.countP (isReply o hdr.seq) = (if h.any isAccepted then 0 else 1) ↔
    own o.ctx ≠ none ∧ ∀ x, Addresses hdr.cmd h x → own x ≠ none

/-- Nothing has been replied, and the contexts found so far have their workers, except for `x`. -/
structure Open (x : Option ℕ) : Prop where
  replies : h.countP (isReply o hdr.seq) = 0
  accepted : h.any isAccepted = false
  owned : ∀ y, Addresses hdr.cmd h y → own y ≠ none ∨ x = some y

/-- A run before its reply. -/
def Fresh : Prop := Ran own h → Open own o hdr h none

/-- A run before its reply that is about to write to the context `x`. -/
def Facing (x : ℕ) : Prop := Ran own h → Open own o hdr h (some x) ∧ (x = o.ctx ∨ Addresses hdr.cmd h x)

/-- A call through a null `owner_worker` ends the run with as many replies as it should have. -/
def EndsWell : Call → Prop
  | .queueSendPacket x _ _ _ _ => Ran own h → own x = none → Good own o hdr h
  | .queueCloseConnection old _ => Ran own h → own old.ctx = none → Good own o hdr h
  | _ => True

/-- What a handler ends in: a reply, or an exception before it. -/
def Handled (r : Except Unit Unit) : Prop :=
  match r with
  | .ok _ => Ran own h → Good own o hdr h
  | .error _ => Fresh own o hdr h

end Stages

/-- A call that neither sends nor finds a session, and that is not about a descriptor. -/
def Call.plain : Call → Bool
  | .queueSendPacket _ _ _ _ _ | .queueCloseConnection _ _ | .aiEnqueue _ _ | .sessionGet _
  | .bindEnter _ _ | .loadFd _ => false
  | _ => true

section Handlers

variable {P : Params} {own : ℕ → Option ℕ} {o : Origin} {hdr : PacketHeader} {body : Bytes}
  {h : List (Event Reply)} {a : Call} {r : Reply a} {x : ℕ}

theorem ran_snoc (hr : Ran own (h ++ [⟨a, r⟩])) : Ran own h ∧ ¬ a.Null own ∧ Tells own a r :=
  ⟨fun e he => hr e (List.mem_append_left _ he), hr ⟨a, r⟩ (by simp)⟩

theorem addresses_snoc {cmd : UInt32} {e : Event Reply} : Addresses cmd (h ++ [e]) x ↔
    (WritesToSession cmd ∧ (some x ∈ h.map found ∨ found e = some x)) ∨
      ((some x ∈ h.map replaced ∨ replaced e = some x) ∧
        (some x ∈ h.map connected ∨ connected e = some x)) := by
  simp only [Addresses, List.map_append, List.mem_append, List.map_cons, List.map_nil,
    List.mem_singleton, eq_comm]

theorem plain_event (o : Origin) (hdr : PacketHeader) (ha : a.plain = true) (r : Reply a) :
    isReply o hdr.seq ⟨a, r⟩ = false ∧ isAccepted ⟨a, r⟩ = false ∧ found ⟨a, r⟩ = none ∧
    replaced ⟨a, r⟩ = none ∧ connected ⟨a, r⟩ = none := by
  cases a <;> first | exact ⟨rfl, rfl, rfl, rfl, rfl⟩ | cases ha

theorem addresses_same {cmd : UInt32} {e : Event Reply} (hf : found e = none)
    (hb : replaced e = none) (hc : connected e = none) :
    Addresses cmd (h ++ [e]) x ↔ Addresses cmd h x := by
  rw [addresses_snoc, hf, hb, hc]
  simp only [reduceCtorEq, or_false]
  exact Iff.rfl

theorem countP_same {e : Event Reply} (hr : isReply o hdr.seq e = false) :
    (h ++ [e]).countP (isReply o hdr.seq) = h.countP (isReply o hdr.seq) := by
  rw [List.countP_append, List.countP_cons_of_neg (by simp [hr]), List.countP_nil, Nat.add_zero]

theorem any_same {e : Event Reply} (ha : isAccepted e = false) :
    (h ++ [e]).any isAccepted = h.any isAccepted := by
  rw [List.any_append, List.any_cons, List.any_nil, ha, Bool.or_false, Bool.or_false]

theorem Open.same {e : Event Reply} {y : Option ℕ} (ho : Open own o hdr h y)
    (hr : isReply o hdr.seq e = false) (ha : isAccepted e = false) (hf : found e = none)
    (hb : replaced e = none) (hc : connected e = none) : Open own o hdr (h ++ [e]) y where
  replies := (countP_same hr).trans ho.replies
  accepted := (any_same ha).trans ho.accepted
  owned z hz := ho.owned z ((addresses_same hf hb hc).mp hz)

theorem Good.same {e : Event Reply} (hg : Good own o hdr h) (hr : isReply o hdr.seq e = false)
    (ha : isAccepted e = false) (hf : found e = none) (hb : replaced e = none)
    (hc : connected e = none) : Good own o hdr (h ++ [e]) := by
  rw [Good, countP_same hr, any_same ha]
  simp only [addresses_same hf hb hc]
  exact hg

theorem Fresh.plain (hf : Fresh own o hdr h) (ha : a.plain = true) (r : Reply a) :
    Fresh own o hdr (h ++ [⟨a, r⟩]) := by
  obtain ⟨h1, h2, h3, h4, h5⟩ := plain_event o hdr ha r
  exact fun hr => (hf (ran_snoc hr).1).same h1 h2 h3 h4 h5

theorem Good.plain (hg : Ran own h → Good own o hdr h) (ha : a.plain = true) (r : Reply a) :
    Ran own (h ++ [⟨a, r⟩]) → Good own o hdr (h ++ [⟨a, r⟩]) := by
  obtain ⟨h1, h2, h3, h4, h5⟩ := plain_event o hdr ha r
  exact fun hr => (hg (ran_snoc hr).1).same h1 h2 h3 h4 h5

theorem Fresh.facing (hf : Fresh own o hdr h) : Facing own o hdr h o.ctx := by
  intro hr
  obtain ⟨h1, h2, h3⟩ := hf hr
  exact ⟨⟨h1, h2, fun y hy => .inl ((h3 y hy).resolve_right nofun)⟩, .inl rfl⟩

theorem Facing.null (hf : Facing own o hdr h x) (hr : Ran own h) (hx : own x = none) :
    Good own o hdr h := by
  obtain ⟨⟨h1, h2, h3⟩, hx'⟩ := hf hr
  simp only [Good, h1, h2]
  refine iff_of_false (by simp) fun ⟨ho, ha⟩ => ?_
  rcases hx' with rfl | hx'
  · exact ho hx
  · exact ha x hx' hx

theorem Facing.sent (hf : Facing own o hdr h x) (hn : ¬ a.Null own → own x ≠ none)
    (hr : isReply o hdr.seq ⟨a, r⟩ = false) (ha : isAccepted ⟨a, r⟩ = false)
    (h3 : found ⟨a, r⟩ = none) (h4 : replaced ⟨a, r⟩ = none) (h5 : connected ⟨a, r⟩ = none) :
    Fresh own o hdr (h ++ [⟨a, r⟩]) := by
  intro hran
  obtain ⟨hran', hnull, -⟩ := ran_snoc hran
  obtain ⟨ho, -⟩ := hf hran'
  obtain ⟨h1, h2, howned⟩ := ho.same hr ha h3 h4 h5
  refine ⟨h1, h2, fun y hy => .inl ?_⟩
  rcases howned y hy with hy | hy
  · exact hy
  · exact Option.some.inj hy ▸ hn hnull

/-- **The reply.** -/
theorem Fresh.answer (hf : Fresh own o hdr h) (cmd : CmdType) (b : Bytes) (why : Purpose) :
    EndsWell own o hdr h (.queueSendPacket o.ctx cmd hdr.seq b why) ∧ ∀ r,
      Ran own (h ++ [⟨.queueSendPacket o.ctx cmd hdr.seq b why, r⟩]) →
        Good own o hdr (h ++ [⟨.queueSendPacket o.ctx cmd hdr.seq b why, r⟩]) := by
  refine ⟨hf.facing.null, fun r hran => ?_⟩
  obtain ⟨hran', hnull, -⟩ := ran_snoc hran
  obtain ⟨h1, h2, h3⟩ := hf hran'
  simp only [Good, addresses_same (e := ⟨Call.queueSendPacket o.ctx cmd hdr.seq b why, r⟩) rfl rfl rfl]
  refine iff_of_true ?_ ⟨hnull, fun y hy => (h3 y hy).resolve_right nofun⟩
  rw [List.countP_append, h1, List.any_append, h2]
  simp [isReply, isAccepted]

theorem reply_good (hf : Fresh own o hdr h) (resp : Response) :
    Sat (EndsWell own o hdr) h (reply P o hdr resp) fun h' _ => Ran own h' → Good own o hdr h' := by
  simp only [reply, call, sat_perform]
  exact hf.answer _ _ _

theorem runReply_good (hf : Fresh own o hdr h) (resp : Response) :
    Sat (EndsWell own o hdr) h (run (reply P o hdr resp)).run (Handled own o hdr) := by
  simp only [run, sat_run_lift]
  exact reply_good hf resp

theorem Facing.send (hf : Facing own o hdr h x) (hseq : hdr.seq ≠ 0) (cmd : CmdType) (b : Bytes)
    (why : Purpose) : EndsWell own o hdr h (.queueSendPacket x cmd 0 b why) ∧ ∀ r,
      Fresh own o hdr (h ++ [⟨.queueSendPacket x cmd 0 b why, r⟩]) := by
  refine ⟨hf.null, fun r => hf.sent id ?_ rfl rfl rfl rfl⟩
  simp [isReply, hseq.symm]

/-! ## The pieces of the handlers -/

/-- Before a run has found a session. -/
def PlainOnly (h : List (Event Reply)) : Prop := ∀ e ∈ h, e.1.plain = true

theorem PlainOnly.snoc (hp : PlainOnly h) (ha : a.plain = true) (r : Reply a) :
    PlainOnly (h ++ [⟨a, r⟩]) :=
  List.forall_mem_append.mpr ⟨hp, List.forall_mem_singleton.mpr ha⟩

theorem PlainOnly.none_found (hp : PlainOnly h) : some x ∉ h.map found ∧ some x ∉ h.map replaced ∧
    some x ∉ h.map connected := by
  refine ⟨fun hm => ?_, fun hm => ?_, fun hm => ?_⟩
  all_goals
    obtain ⟨⟨a, r⟩, he, hx⟩ := List.mem_map.mp hm
    obtain ⟨-, -, h3, h4, h5⟩ := plain_event ⟨0, 0, 0⟩ ⟨0, 0, 0, 0⟩ (hp _ he) r
    simp_all

theorem PlainOnly.fresh (hp : PlainOnly h) : Fresh own o hdr h := by
  have hevent : ∀ e ∈ h, isReply o hdr.seq e = false ∧ isAccepted e = false := fun ⟨a, r⟩ he =>
    ⟨(plain_event o hdr (hp _ he) r).1, (plain_event o hdr (hp _ he) r).2.1⟩
  refine fun _ => ⟨List.countP_eq_zero.mpr fun e he => ?_, List.any_eq_false.mpr fun e he => ?_,
    fun y hy => ?_⟩
  · simp [(hevent e he).1]
  · simp [(hevent e he).2]
  · obtain ⟨h1, h2, -⟩ := hp.none_found (x := y)
    rcases hy with ⟨-, hy⟩ | ⟨hy, -⟩
    · exact absurd hy h1
    · exact absurd hy h2

theorem Fresh.lookup (hf : Fresh own o hdr h) (hw : WritesToSession hdr.cmd) (uid : Int) :
    Fresh own o hdr (h ++ [⟨.sessionGet uid, none⟩]) ∧
      ∀ x, Facing own o hdr (h ++ [⟨.sessionGet uid, some x⟩]) x := by
  refine ⟨fun hr => (hf (ran_snoc hr).1).same rfl rfl rfl rfl rfl, fun x hr => ?_⟩
  obtain ⟨h1, h2, h3⟩ := hf (ran_snoc hr).1
  refine ⟨⟨(countP_same rfl).trans h1, (any_same rfl).trans h2, fun y hy => ?_⟩, .inr ?_⟩
  · rw [addresses_snoc] at hy
    rcases hy with ⟨-, hy | hy⟩ | ⟨hy | hy, hy' | hy'⟩
    · exact .inl ((h3 y (.inl ⟨hw, hy⟩)).resolve_right nofun)
    · exact .inr hy
    · exact .inl ((h3 y (.inr ⟨hy, hy'⟩)).resolve_right nofun)
    all_goals first | cases hy | cases hy'
  · exact addresses_snoc.mpr (.inl ⟨hw, .inr rfl⟩)

theorem Fresh.online (hf : Fresh own o hdr h) (hw : ¬ WritesToSession hdr.cmd) (uid : Int)
    (r : Option ℕ) : Fresh own o hdr (h ++ [⟨.sessionGet uid, r⟩]) := by
  intro hr
  obtain ⟨h1, h2, h3⟩ := hf (ran_snoc hr).1
  refine ⟨(countP_same rfl).trans h1, (any_same rfl).trans h2, fun y hy => h3 y ?_⟩
  rw [addresses_snoc] at hy
  rcases hy with ⟨hy, -⟩ | ⟨hy | hy, hy' | hy'⟩
  · exact absurd hy hw
  · exact .inr ⟨hy, hy'⟩
  all_goals first | cases hy | cases hy'

/-- The history of a bind that has found an older session and has loaded its descriptor. -/
def boundHistory (h : List (Event Reply)) (uid : Int) (y : ℕ) (old : Session) (fds : List Int) :
    List (Event Reply) :=
  h ++ [⟨.bindEnter uid y, some old⟩] ++ fds.map fun fd => ⟨.loadFd old.ctx, fd⟩

theorem mem_boundHistory (f : Event Reply → Option ℕ) {uid : Int} {y : ℕ} {old : Session}
    {fds : List Int} : some x ∈ (boundHistory h uid y old fds).map f ↔ some x ∈ h.map f ∨
      f ⟨.bindEnter uid y, some old⟩ = some x ∨ ∃ fd ∈ fds, f ⟨.loadFd old.ctx, fd⟩ = some x := by
  simp only [boundHistory, List.map_append, List.mem_append, List.map_cons, List.map_nil,
    List.mem_singleton, List.map_map, List.mem_map, Function.comp_apply, or_assoc, eq_comm]

theorem boundHistory_addresses (hp : PlainOnly h) {cmd : UInt32} {uid : Int} {y : ℕ} {old : Session}
    {fds : List Int} :
    Addresses cmd (boundHistory h uid y old fds) x ↔ x = old.ctx ∧ ∃ fd ∈ fds, fd ≠ -1 := by
  obtain ⟨h1, h2, h3⟩ := hp.none_found (x := x)
  have hload : ∀ fd : Int, connected ⟨.loadFd old.ctx, fd⟩ = some x ↔ x = old.ctx ∧ fd ≠ -1 := by
    intro fd
    simp only [connected]
    split_ifs with hfd <;> simp [hfd, eq_comm]
  constructor
  · rintro (⟨-, hx⟩ | ⟨-, hx⟩)
    · rcases (mem_boundHistory found).mp hx with hx | hx | ⟨fd, -, hx⟩
      · exact absurd hx h1
      all_goals cases hx
    · rcases (mem_boundHistory connected).mp hx with hx | hx | ⟨fd, hfd, hx⟩
      · exact absurd hx h3
      · cases hx
      · exact ⟨((hload fd).mp hx).1, fd, hfd, ((hload fd).mp hx).2⟩
  · rintro ⟨rfl, fd, hfd, hne⟩
    exact .inr ⟨(mem_boundHistory replaced).mpr (.inr (.inl rfl)),
      (mem_boundHistory connected).mpr (.inr (.inr ⟨fd, hfd, (hload fd).mpr ⟨rfl, hne⟩⟩))⟩

theorem boundHistory_open (hp : PlainOnly h) {uid : Int} {y : ℕ} {old : Session} {fds : List Int}
    {z : Option ℕ} (hr : Ran own (boundHistory h uid y old fds))
    (hz : (∃ fd ∈ fds, fd ≠ -1) → z = some old.ctx) :
    Open own o hdr (boundHistory h uid y old fds) z := by
  have hran : Ran own h := fun e he =>
    hr e (List.mem_append_left _ (List.mem_append_left _ he))
  obtain ⟨h1, h2, -⟩ := (hp.fresh : Fresh own o hdr h) hran
  refine ⟨?_, ?_, fun x hx => .inr ?_⟩
  · simp [boundHistory, h1, isReply, List.countP_eq_zero]
  · simp [boundHistory, isAccepted] at h2 ⊢
    exact h2
  · obtain ⟨rfl, hfd⟩ := (boundHistory_addresses hp).mp hx
    exact hz hfd

theorem sessionBind_good (hp : PlainOnly h) (uid : Int) (y : ℕ) :
    Sat (EndsWell own o hdr) h (sessionBind uid y) fun h' _ => Fresh own o hdr h' := by
  simp only [sessionBind, call, sat_bind, sat_perform, EndsWell, true_and]
  have hf : Fresh own o hdr h := hp.fresh
  rintro (_ | old)
  · exact fun hr => (hf (ran_snoc hr).1).same rfl rfl rfl rfl rfl
  simp only [sat_bind, sat_perform, EndsWell, true_and]
  intro fd
  split_ifs with hfd
  · -- the older session has a descriptor, so its worker is told to close it
    simp only [sat_bind, sat_perform, EndsWell, true_and]
    intro fd'
    have hface : Facing own o hdr (boundHistory h uid y old [fd, fd']) old.ctx := fun hr =>
      ⟨boundHistory_open hp hr fun _ => rfl,
        .inr ((boundHistory_addresses hp).mpr ⟨rfl, fd, List.mem_cons_self, hfd⟩)⟩
    have heq : boundHistory h uid y old [fd, fd'] = h ++ [⟨.bindEnter uid y, some old⟩] ++
        [⟨.loadFd old.ctx, fd⟩] ++ [⟨.loadFd old.ctx, fd'⟩] := by
      simp [boundHistory]
    rw [heq] at hface
    exact ⟨hface.null, fun r r' => (hface.sent id rfl rfl rfl rfl rfl).plain rfl r'⟩
  · have hfresh : Fresh own o hdr (boundHistory h uid y old [fd]) := fun hr =>
      boundHistory_open hp hr fun ⟨_, hmem, hne⟩ =>
        absurd (List.mem_singleton.mp hmem ▸ hne) hfd
    simp only [sat_perform, EndsWell, true_and]
    exact fun r => hfresh.plain rfl r

/-- The stored messages carry no number. -/
theorem deliverOfflineMessages_good (hf : Fresh own o hdr h) (hseq : hdr.seq ≠ 0) (uid : Int) :
    Sat (EndsWell own o hdr) h (deliverOfflineMessages P o uid).run fun h' _ => Fresh own o hdr h' := by
  simp only [deliverOfflineMessages, sys, store, call, sat_run_bind, sat_run_lift, sat_perform,
    EndsWell, true_and]
  rintro (_ | _)
  · exact hf.plain rfl _
  simp only [if_true, sat_run_bind, sat_run_mk, sat_perform, EndsWell, true_and]
  have hf := hf.plain (a := .dbWriter) rfl true
  rintro (_ | rows)
  · exact hf.plain rfl _
  dsimp only
  have hf := hf.plain (a := .queryOfflineMessages uid) rfl (.ok rows)
  split_ifs
  · simp only [run, sat_run_bind, sat_run_lift, sat_run_mk, sat_perform, EndsWell, true_and]
    refine (sat_forM (fun h' _ => Fresh own o hdr h') _ (fun h' m rest hf' => ?_) rows _ hf).mono
      (fun _ _ hg => hg) fun h' _ hf' r => hf'.plain rfl r
    simp only [deliverOffline, call, sat_bind, sat_perform, EndsWell, true_and]
    exact fun now => (hf'.plain rfl now).facing.send hseq _ _ _
  · exact hf

theorem withWriter_good (hp : PlainOnly h) (refusal : Response) {rest : Biz Unit}
    (hrest : PlainOnly (h ++ [⟨.dbWriter, true⟩]) →
      Sat (EndsWell own o hdr) (h ++ [⟨.dbWriter, true⟩]) rest.run (Handled own o hdr)) :
    Sat (EndsWell own o hdr) h
      (do if !(← sys .dbWriter) then run (reply P o hdr refusal) else rest : Biz Unit).run
      (Handled own o hdr) :=
  sat_withWriter trivial (runReply_good (hp.fresh.plain rfl _) _)
    (hrest (hp.snoc (a := .dbWriter) rfl true))

theorem handleLogin_good (hp : PlainOnly h) (hseq : hdr.seq ≠ 0)
    (hparse : (P.codec.parseLoginRequest body).isSome) :
    Sat (EndsWell own o hdr) h (handleLogin P o hdr body).run (Handled own o hdr) := by
  have rest : ∀ {h : List (Event Reply)} (uid : Int), PlainOnly h → Sat (EndsWell own o hdr) h
      (do
        if 0 < uid then
          run (sessionBind uid o.ctx)
          deliverOfflineMessages P o uid
          run (reply P o hdr { success := true, uid := uid, msg := "login success" })
        else run (reply P o hdr { msg := "用户名或密码错误" }) : Biz Unit).run
      (Handled own o hdr) := by
    intro h uid hp
    split_ifs
    · simp only [run, sat_run_bind, sat_run_lift]
      refine (sessionBind_good hp uid o.ctx).mono (fun _ _ hg => hg) fun h' _ hf => ?_
      refine (deliverOfflineMessages_good hf hseq uid).mono (fun _ _ hg => hg) ?_
      rintro h'' (_ | _) hf
      · exact hf
      · exact reply_good hf _
    · exact runReply_good hp.fresh _
  obtain ⟨req, hreq⟩ := Option.isSome_iff_exists.mp hparse
  simp only [handleLogin, hreq, sys, call, sat_run_bind, sat_run_lift, sat_perform, EndsWell, true_and]
  rintro (_ | _)
  · exact rest (-1) (hp.snoc (a := .dbWriter) rfl false)
  · simp only [if_true, store, sat_run_bind, sat_run_mk, sat_perform, EndsWell, true_and]
    have hp := hp.snoc (a := .dbWriter) rfl true
    rintro (_ | uid)
    · exact PlainOnly.fresh (hp.snoc rfl _)
    · exact rest uid (hp.snoc rfl _)

theorem handleRegister_good (hp : PlainOnly h)
    (hparse : (P.codec.parseRegisterRequest body).isSome) :
    Sat (EndsWell own o hdr) h (handleRegister P o hdr body).run (Handled own o hdr) := by
  obtain ⟨req, hreq⟩ := Option.isSome_iff_exists.mp hparse
  simp only [handleRegister, hreq]
  split_ifs
  · exact runReply_good hp.fresh _
  refine withWriter_good hp _ fun hp => ?_
  simp only [store, call, sat_run_bind, sat_run_mk, sat_perform, EndsWell, true_and]
  rintro (_ | uid)
  · exact PlainOnly.fresh (hp.snoc rfl _)
  dsimp only
  split_ifs
  · exact runReply_good (PlainOnly.fresh (hp.snoc rfl _)) _
  · exact runReply_good (PlainOnly.fresh (hp.snoc rfl _)) _
  · simp only [run, sat_run_bind, sat_run_lift]
    exact (sessionBind_good (hp.snoc rfl _) uid o.ctx).mono (fun _ _ hg => hg)
      fun h' _ hf => reply_good hf _

theorem handleHeartbeat_good (hp : PlainOnly h) :
    Sat (EndsWell own o hdr) h (handleHeartbeat P o hdr).run (Handled own o hdr) := by
  simp only [handleHeartbeat, sys, call, sat_run_bind, sat_run_lift, sat_perform, EndsWell, true_and]
  exact fun uid => runReply_good (hp.fresh.plain rfl uid) _

/-- The notification of a friend carries no number; then the reply to the sender. -/
theorem notify_reply_good (hf : Fresh own o hdr h) (hseq : hdr.seq ≠ 0)
    (hw : WritesToSession hdr.cmd) (uid : Int) (text : String) (resp : Response) :
    Sat (EndsWell own o hdr) h (do notifyFriend P uid text; run (reply P o hdr resp) : Biz Unit).run
      (Handled own o hdr) := by
  simp only [notifyFriend, sys, call, sat_run_bind, sat_run_lift, sat_perform, EndsWell, true_and]
  obtain ⟨hnone, hsome⟩ := hf.lookup hw uid
  rintro (_ | target)
  · exact runReply_good hnone _
  · simp only [sat_run_lift, sat_perform]
    obtain ⟨hsound, hsent⟩ := (hsome target).send hseq .ack
      (P.codec.serializeResponse { success := true, msg := text }) (.notify uid)
    exact ⟨hsound, fun r => runReply_good (hsent r) _⟩

theorem handleAddFriend_good (hp : PlainOnly h) (hseq : hdr.seq ≠ 0) (hw : WritesToSession hdr.cmd)
    (hparse : (P.codec.parseAddFriendRequest body).isSome) :
    Sat (EndsWell own o hdr) h (handleAddFriend P o hdr body).run (Handled own o hdr) := by
  obtain ⟨req, hreq⟩ := Option.isSome_iff_exists.mp hparse
  simp only [handleAddFriend, hreq]
  refine (sat_run_sys (.loadUid o.ctx) _).mpr ⟨trivial, fun uid => ?_⟩
  have hp := hp.snoc (a := .loadUid o.ctx) rfl uid
  split_ifs
  · exact runReply_good hp.fresh _
  refine withWriter_good hp _ fun hp => ?_
  simp only [store, call, sat_run_bind, sat_run_mk, sat_perform, EndsWell, true_and]
  rintro (_ | ret)
  · exact PlainOnly.fresh (hp.snoc rfl _)
  dsimp only
  split_ifs
  · exact runReply_good (PlainOnly.fresh (hp.snoc rfl _)) _
  · exact runReply_good (PlainOnly.fresh (hp.snoc rfl _)) _
  · exact runReply_good (PlainOnly.fresh (hp.snoc rfl _)) _
  · exact notify_reply_good (PlainOnly.fresh (hp.snoc rfl _)) hseq hw _ _ _

theorem handleAcceptFriend_good (hp : PlainOnly h) (hseq : hdr.seq ≠ 0)
    (hw : WritesToSession hdr.cmd) (hparse : (P.codec.parseAcceptFriendRequest body).isSome) :
    Sat (EndsWell own o hdr) h (handleAcceptFriend P o hdr body).run (Handled own o hdr) := by
  obtain ⟨req, hreq⟩ := Option.isSome_iff_exists.mp hparse
  simp only [handleAcceptFriend, hreq]
  refine (sat_run_sys (.loadUid o.ctx) _).mpr ⟨trivial, fun uid => ?_⟩
  refine withWriter_good (hp.snoc (a := .loadUid o.ctx) rfl uid) _ fun hp => ?_
  simp only [store, call, sat_run_bind, sat_run_mk, sat_perform, EndsWell, true_and]
  rintro (_ | ret)
  · exact PlainOnly.fresh (hp.snoc rfl _)
  dsimp only
  split_ifs
  · exact runReply_good (PlainOnly.fresh (hp.snoc rfl _)) _
  · exact notify_reply_good (PlainOnly.fresh (hp.snoc rfl _)) hseq hw _ _ _

theorem withOnline_good (hf : Fresh own o hdr h) (hw : ¬ WritesToSession hdr.cmd)
    (users : List (Int × String)) {Q : List (Event Reply) → List FriendInfo → Prop}
    (hQ : ∀ h l, Fresh own o hdr h → Q h l) : Sat (EndsWell own o hdr) h (withOnline users) Q := by
  induction users generalizing h Q with
  | nil => exact hQ _ _ hf
  | cons u us ih =>
      simp only [withOnline, call, sat_bind, sat_perform, EndsWell, true_and]
      exact fun r => ih (hf.online hw _ r) fun _ _ hf' => hQ _ _ hf'

theorem replyUsers_good (hf : Fresh own o hdr h) (hw : ¬ WritesToSession hdr.cmd) (cmd : CmdType)
    (users : List (Int × String)) :
    Sat (EndsWell own o hdr) h (replyUsers P o hdr cmd users).run (Handled own o hdr) := by
  simp only [replyUsers, run, sys, call, sat_run_bind, sat_run_lift]
  refine withOnline_good hf hw users fun h' infos hf' => ?_
  simp only [sat_perform]
  exact hf'.answer _ _ _

theorem handleFriendList_good (hp : PlainOnly h) (hw : ¬ WritesToSession hdr.cmd) :
    Sat (EndsWell own o hdr) h (handleFriendList P o hdr).run (Handled own o hdr) := by
  unfold handleFriendList
  refine withWriter_good hp _ fun hp => (sat_run_sys (.loadUid o.ctx) _).mpr ⟨trivial, fun uid => ?_⟩
  have hp := hp.snoc (a := .loadUid o.ctx) rfl uid
  simp only [store, call, sat_run_bind, sat_run_mk, sat_perform, EndsWell, true_and]
  rintro (_ | users)
  · exact PlainOnly.fresh (hp.snoc rfl _)
  · exact replyUsers_good (PlainOnly.fresh (hp.snoc rfl _)) hw _ _

theorem handleSearchUser_good (hp : PlainOnly h) (hw : ¬ WritesToSession hdr.cmd)
    (hparse : (P.codec.parseSearchUserRequest body).isSome) :
    Sat (EndsWell own o hdr) h (handleSearchUser P o hdr body).run (Handled own o hdr) := by
  obtain ⟨req, hreq⟩ := Option.isSome_iff_exists.mp hparse
  simp only [handleSearchUser, hreq]
  refine withWriter_good hp _ fun hp => ?_
  simp only [store, call, sat_run_bind, sat_run_mk, sat_perform, EndsWell, true_and]
  rintro (_ | users)
  · exact PlainOnly.fresh (hp.snoc rfl _)
  · exact replyUsers_good (PlainOnly.fresh (hp.snoc rfl _)) hw _ _

theorem handleFriendRequests_good (hp : PlainOnly h) :
    Sat (EndsWell own o hdr) h (handleFriendRequests P o hdr).run (Handled own o hdr) := by
  unfold handleFriendRequests
  refine withWriter_good hp _ fun hp => (sat_run_sys (.loadUid o.ctx) _).mpr ⟨trivial, fun uid => ?_⟩
  have hp := hp.snoc (a := .loadUid o.ctx) rfl uid
  simp only [sys, store, call, sat_run_bind, sat_run_lift, sat_run_mk, sat_perform, EndsWell, true_and]
  rintro (_ | requests)
  · exact PlainOnly.fresh (hp.snoc rfl _)
  · exact (PlainOnly.fresh (hp.snoc rfl _)).answer _ _ _

/-! ## Chat messages -/

theorem Facing.plain (hf : Facing own o hdr h x) (ha : a.plain = true) (r : Reply a) :
    Facing own o hdr (h ++ [⟨a, r⟩]) x := by
  obtain ⟨h1, h2, h3, h4, h5⟩ := plain_event o hdr ha r
  intro hr
  obtain ⟨ho, hx⟩ := hf (ran_snoc hr).1
  exact ⟨ho.same h1 h2 h3 h4 h5, hx.imp_right (addresses_same h3 h4 h5).mpr⟩

theorem forwardChat_good {target : ℕ} (hf : Facing own o hdr h target) (hseq : hdr.seq ≠ 0)
    (msg : ChatMessage) :
    Sat (EndsWell own o hdr) h (forwardChat P o hdr msg target).run (Handled own o hdr) := by
  simp only [forwardChat, reply, sys, run, call, sat_run_bind, sat_run_lift, sat_perform]
  refine ⟨trivial, fun fromUid => ?_⟩
  obtain ⟨hsound, hsent⟩ := (hf.plain rfl fromUid).send hseq .chat
    (P.codec.serializeChatMessage { msg with fromUid := fromUid }) (.forward msg.toUid)
  refine ⟨hsound, fun r => ⟨trivial, fun ackUid => ?_⟩⟩
  obtain ⟨hsound, hgood⟩ := ((hsent r).plain (a := .loadUid o.ctx) rfl ackUid).answer .ack
    (P.codec.serializeResponse
      { success := true, uid := ackUid, msg := "消息已发送给用户" ++ toString msg.toUid }) .reply
  -- what follows the reply is plain
  refine ⟨hsound, fun r => ⟨trivial, ?_⟩⟩
  rintro (_ | _)
  · exact Good.plain (hgood r) rfl _
  · simp only [if_true, sat_run_bind, sat_run_lift, sat_perform]
    exact ⟨trivial, fun uid => ⟨trivial, fun r' =>
      Good.plain (Good.plain (Good.plain (hgood r) rfl _) rfl _) rfl _⟩⟩

theorem storeChat_good (hf : Fresh own o hdr h) (msg : ChatMessage) :
    Sat (EndsWell own o hdr) h (storeChat P o hdr msg).run (Handled own o hdr) := by
  simp only [storeChat, sys, call, sat_run_bind, sat_run_lift, sat_perform, EndsWell, true_and]
  rintro (_ | _)
  · simp only [Bool.false_eq_true, if_false, sat_run_bind, sat_run_lift, sat_perform, EndsWell, true_and]
    have hf := hf.plain (a := .dbWriter) rfl false
    exact fun uid => runReply_good (hf.plain rfl uid) _
  · simp only [if_true, sat_run_bind, sat_run_lift, sat_perform, EndsWell, true_and]
    intro uid r ackUid
    have hf := (hf.plain (a := .dbWriter) rfl true).plain (a := .loadUid o.ctx) rfl uid
    exact runReply_good (Fresh.plain (hf.plain rfl r) rfl ackUid) _

theorem PlainOnly.loadFd (hp : PlainOnly h) (y : ℕ) (fd : Int) :
    Fresh own o hdr (h ++ [⟨.loadFd y, fd⟩]) := by
  intro hr
  obtain ⟨h1, h2, h3⟩ := (hp.fresh : Fresh own o hdr h) (ran_snoc hr).1
  refine ⟨(countP_same rfl).trans h1, (any_same rfl).trans h2, fun z hz => h3 z ?_⟩
  rw [addresses_snoc] at hz
  rcases hz with ⟨hw, hz | hz⟩ | ⟨hz | hz, -⟩
  · exact .inl ⟨hw, hz⟩
  · cases hz
  · exact absurd hz hp.none_found.2.1
  · cases hz

theorem Fresh.accepted (hf : Fresh own o hdr h) (hown : Ran own h → own o.ctx ≠ none) (fd : Int)
    (req : StreamRequest) (hr : Ran own (h ++ [⟨.aiEnqueue fd req, true⟩])) :
    Good own o hdr (h ++ [⟨.aiEnqueue fd req, true⟩]) := by
  obtain ⟨hran, -⟩ := ran_snoc hr
  obtain ⟨h1, h2, h3⟩ := hf hran
  have hany : (h ++ [(⟨.aiEnqueue fd req, true⟩ : Event Reply)]).any isAccepted = true := by
    rw [List.any_append, h2]
    rfl
  rw [Good, hany, countP_same rfl, h1, if_pos rfl]
  refine iff_of_true rfl ⟨hown hran, fun y hy => ?_⟩
  exact (h3 y ((addresses_same rfl rfl rfl).mp hy)).resolve_right nofun

theorem handleAiChat_good (hp : PlainOnly h) (msg : ChatMessage) :
    Sat (EndsWell own o hdr) h (handleAiChat P o hdr msg).run (Handled own o hdr) := by
  have refused : ∀ {h : List (Event Reply)} (uid : Int), Fresh own o hdr h →
      Sat (EndsWell own o hdr) h (if (!false) = true then
        run (reply P o hdr { uid := uid, msg := "AI服务繁忙，请稍后再试" }) else pure () : Biz Unit).run
        (Handled own o hdr) := fun uid hf => runReply_good hf _
  simp only [handleAiChat, submitStreamRequest, sys, run, call, sat_run_bind, sat_run_lift, sat_bind,
    sat_perform]
  refine ⟨trivial, fun uid => ⟨trivial, fun w => ?_⟩⟩
  have hp := hp.snoc (a := .loadUid o.ctx) rfl uid
  split_ifs with hw
  · exact refused uid (hp.fresh.plain rfl _)
  have hp' := hp.snoc (a := .ownerWorker o.ctx) rfl w
  rw [sat_bind, sat_perform]
  refine ⟨trivial, fun fd => ?_⟩
  have hfd : Fresh own o hdr _ := hp'.loadFd o.ctx fd
  split_ifs
  · exact refused uid hfd
  simp only [sat_bind, sat_perform]
  refine ⟨trivial, fun now => ⟨trivial, ?_⟩⟩
  have hnow := hfd.plain (a := .steadyClock) rfl now
  rintro (_ | _)
  · exact refused uid fun hr => (hnow (ran_snoc hr).1).same rfl rfl rfl rfl rfl
  · -- the sender's context has a worker, which the manager has looked at
    refine fun hr => hnow.accepted (fun hr' => ?_) fd _ hr
    have htells : w = own o.ctx := (ran_snoc (ran_snoc (ran_snoc hr').1).1).2.2
    rw [← htells]
    rintro rfl
    exact hw rfl

theorem handleChat_good (hp : PlainOnly h) (hseq : hdr.seq ≠ 0) (hw : WritesToSession hdr.cmd)
    (hparse : (P.codec.parseChatMessage body).isSome) :
    Sat (EndsWell own o hdr) h (handleChat P o hdr body).run (Handled own o hdr) := by
  obtain ⟨msg, hmsg⟩ := Option.isSome_iff_exists.mp hparse
  simp only [handleChat, hmsg]
  split_ifs
  · exact handleAiChat_good hp msg
  obtain ⟨hnone, hsome⟩ := (hp.fresh : Fresh own o hdr h).lookup hw msg.toUid
  simp only [sys, call, sat_run_bind, sat_run_lift, sat_perform, EndsWell, true_and]
  rintro (_ | target)
  · exact storeChat_good hnone msg
  · exact forwardChat_good (hsome target) hseq msg

/-! ## `process_business` -/

theorem dispatch_good (hp : PlainOnly h) (hseq : hdr.seq ≠ 0) (hreq : Parses P body hdr.cmd) :
    Sat (EndsWell own o hdr) h (dispatch P o hdr body).run (Handled own o hdr) := by
  obtain ⟨magic, len, cmd, seq⟩ := hdr
  dsimp only at hreq hseq
  cases hreq with
  | login hparse => exact handleLogin_good hp hseq hparse
  | chat hparse => exact handleChat_good hp hseq (.inl rfl) hparse
  | register hparse => exact handleRegister_good hp hparse
  | heartbeat => exact handleHeartbeat_good hp
  | addFriend hparse => exact handleAddFriend_good hp hseq (.inr (.inl rfl)) hparse
  | acceptFriend hparse => exact handleAcceptFriend_good hp hseq (.inr (.inr rfl)) hparse
  | friendList => exact handleFriendList_good hp (show ¬ WritesToSession CmdType.friendList.code by decide)
  | searchUser hparse =>
      exact handleSearchUser_good hp (show ¬ WritesToSession CmdType.searchUser.code by decide) hparse
  | friendRequests => exact handleFriendRequests_good hp

theorem businessBody_good (hseq : hdr.seq ≠ 0) (hreq : Parses P body hdr.cmd) :
    Sat (EndsWell own o hdr) [] (businessBody P o hdr body).run (Handled own o hdr) := by
  have hp : PlainOnly [] := nofun
  unfold businessBody
  split_ifs
  · simp only [sys, call, sat_run_bind, sat_run_lift, sat_perform, EndsWell, true_and]
    intro now
    have hp := hp.snoc (a := .steadyClock) rfl now
    rintro (_ | _)
    · simp only [Bool.false_eq_true, if_false]
      exact dispatch_good (hp.snoc rfl _) hseq hreq
    · simp only [if_true]
      exact runReply_good (PlainOnly.fresh (hp.snoc rfl _)) _
  · exact dispatch_good hp hseq hreq

theorem processBusiness_good (hseq : hdr.seq ≠ 0) (hreq : Parses P body hdr.cmd) :
    Sat (EndsWell own o hdr) [] (processBusiness P o hdr body) fun h' _ =>
      Ran own h' → Good own o hdr h' := by
  rw [processBusiness, sat_bind]
  refine (businessBody_good hseq hreq).mono (fun _ _ hg => hg) ?_
  rintro h' (_ | _) hh
  · exact reply_good hh _
  · exact hh

/-- **One reply per request.** A run of `process_business` on a request queues exactly one packet with its
number to its sender, or none when the AI manager has taken the message, if and only if the sender's
context and every other context that the request addresses have their workers. -/
theorem one_reply_iff (own : ℕ → Option ℕ) (o : Origin) (hdr : PacketHeader) (hseq : hdr.seq ≠ 0)
    (hreq : Parses P body hdr.cmd) {h : List (Event Reply)} {q : Prog Reply Unit}
    (hp : Path (processBusiness P o hdr body) h q) (hran : Ran own h) (hstop : Stopped own q) :
    h.countP (isReply o hdr.seq) = (if h.any isAccepted then 0 else 1) ↔
      own o.ctx ≠ none ∧ ∀ x, Addresses hdr.cmd h x → own x ≠ none := by
  have hgood : Sat (EndsWell own o hdr) [] _ _ := processBusiness_good hseq hreq
  rcases hstop with rfl | ⟨a, k, rfl, hnull⟩
  · exact hp.sat hgood hran
  · have hsound : EndsWell own o hdr h a := hp.guard hgood
    cases a with
    | queueSendPacket | queueCloseConnection => exact hsound hran hnull
    | _ => cases hnull

/-- The run in which a heartbeat is answered. -/
theorem one_reply_sample :
    let h : List (Event Reply) := [⟨.loadUid 2, 7⟩, ⟨.queueSendPacket 2 .ack 1
      (Sample.codec.serializeResponse { success := true, uid := 7, msg := "PONG" }) .reply, ()⟩]
    Path (processBusiness Sample.params ⟨0, 0, 2⟩ (Sample.header .heartbeat [] 1) []) h (.ret ()) ∧
      h.countP (isReply ⟨0, 0, 2⟩ 1) = 1 := by
  intro h
  have hpath : Path (processBusiness Sample.params ⟨0, 0, 2⟩ (Sample.header .heartbeat [] 1) []) h
      (.ret ()) := by
    change Path (.call (.loadUid 2) fun uid => .call (.queueSendPacket 2 .ack 1 (Sample.codec.serializeResponse
      { success := true, uid := uid, msg := "PONG" }) .reply) fun _ => .ret ()) h (.ret ())
    exact .cons (.cons .nil)
  refine ⟨hpath, (one_reply_iff (fun _ => some 0) ⟨0, 0, 2⟩ (Sample.header .heartbeat [] 1) (by decide)
    .heartbeat hpath ?_ (.inl rfl)).mpr ⟨nofun, fun _ _ => nofun⟩⟩
  exact List.forall_mem_cons.mpr ⟨⟨id, trivial⟩, List.forall_mem_singleton.mpr ⟨nofun, trivial⟩⟩

end Handlers

/-! ## The runs of the server -/

section Server

variable {P : Params} {db : Store} {C : Label → State → Prop} {s s' : State} {l : Label}

/-- The workers of the contexts. -/
def State.owners (s : State) (x : ℕ) : Option ℕ := (s.net.ctxs x).ownerWorker

theorem ran_of_act {o : Origin} {a : Call} {e : Ext} {r : Reply a} {s₁ : State}
    (h : act P o a e s = some (r, s₁)) : ¬ a.Null s.owners ∧ Tells s.owners a r := by
  cases a with
  | queueSendPacket | queueCloseConnection =>
      simp only [act, Option.map_eq_some_iff] at h
      obtain ⟨w, hw, -⟩ := h
      refine ⟨fun hnull => ?_, trivial⟩
      rw [Call.Null, State.owners, hw] at hnull
      cases hnull
  | ownerWorker x =>
      simp only [act, Option.some.injEq, Prod.mk.injEq] at h
      exact ⟨id, h.1.symm⟩
  | _ => exact ⟨id, trivial⟩

theorem ran_of_run (h : RunTo P db C s) :
    ∀ i t, s.threads i = some t → Ran s.owners t.hist := by
  refine h.invariant_reach (fun s => ∀ i t, s.threads i = some t → Ran s.owners t.hist) nofun ?_
  intro l s s' hr _ hi hs i t' ht'
  have hwf := wf_of_run hr
  have hm := move_of_step hwf hs
  have howners : s'.owners = s.owners := funext (hwf.owner_eq (wf_move hwf hm))
  rw [howners]
  rcases move_thread hm ht' with ht | ⟨-, t, -, script, rfl⟩ | ⟨e, t, a, k, r, -, ht, -, rfl, -, s₁, ha, -⟩
  · exact hi i t' ht
  · nofun
  · exact List.forall_mem_append.mpr ⟨hi i t ht, List.forall_mem_singleton.mpr (ran_of_act ha)⟩

/-- **A heartbeat on a context without a worker is not answered**: the fourth connection to a worker whose
pool has three contexts. -/
theorem heartbeat_unanswered : ∃ s t, RunTo Sample.params Sample.db (fun _ _ => True) s ∧
    s.threads 0 = some t ∧ t.task = .business ⟨0, 3, 3⟩ (Sample.header .heartbeat [] 1) [] ∧
    Ran s.owners t.hist ∧ Stopped s.owners t.prog ∧ t.hist.countP (isReply ⟨0, 3, 3⟩ 1) = 0 ∧
    t.hist.any isAccepted = false := by
  obtain ⟨s, hr, ⟨t, ht, htask, hcount, hany⟩, hnext⟩ := Sample.exists_run (fun _ _ => True)
    (Sample.connect 5 ++ Sample.connect 6 ++ Sample.connect 7 ++ Sample.connect 8 ++
      [Sample.packet 3 .heartbeat []] ++ Sample.work 0 1)
    (fun s => (∃ t ∈ s.threads 0,
        t.task = .business ⟨0, 3, 3⟩ (Sample.header .heartbeat [] 1) [] ∧
        t.hist.countP (isReply ⟨0, 3, 3⟩ 1) = 0 ∧ t.hist.any isAccepted = false) ∧
      ∃ oa ∈ s.next (.thread 0 {}), oa.2.Null s.owners) (by decide)
  refine ⟨s, t, hr, ht, htask, ran_of_run hr 0 t ht, .inr ?_, hcount, hany⟩
  obtain ⟨⟨o, a⟩, hn, hnull⟩ := hnext
  obtain ⟨task, script, hist, prog⟩ := t
  cases prog with
  | ret u => simp [State.next, show s.threads 0 = _ from ht] at hn
  | call a' k =>
      have ha : a' = a := by
        simp [State.next, show s.threads 0 = _ from ht] at hn
        exact hn.2
      exact ⟨a', k, rfl, ha ▸ hnull⟩

end Server

end AuraChat

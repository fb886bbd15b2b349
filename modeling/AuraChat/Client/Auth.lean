import AuraChat.Lib.Lists
import AuraChat.Model.Client
import AuraChat.Server.Guards

set_option autoImplicit false

/-!
# Which answer ends a login

`handle_ack_response` gives any `ACK` to a pending `LOGIN` or `REGISTER`, whatever packet it answers.

* **`authReplies`**: an answer of the server to a `LOGIN` or `REGISTER` with a uid is a success;
* `Client.Attributed`: an `ACK` with a uid that reaches a pending call is the answer to its packet;
* **`Client.logins_attributed`**: under this condition a call returns `true` with the uid of the
  server's answer to its own packet;
* `Client.login_misattributed`: the late answer to a login that has timed out ends the next one.
-/

namespace AuraChat

open Interleave Interleave.Prog

/-! ## The answers of the server -/

section Server

variable {P : Params} {o : Origin} {hdr : PacketHeader} {body : Bytes} {h : List (Event Reply)}

/-- A reply is an `ACK` with the sequence number of the packet, and with a uid only for a success. -/
def AnswersAuth (P : Params) (hdr : PacketHeader) (_ : List (Event Reply)) : Call → Prop
  | .queueSendPacket _ cmd seq body .reply => cmd = .ack ∧ seq = hdr.seq ∧
      ∃ r, Client.AuthReply r ∧ body = P.codec.serializeResponse r
  | _ => True

theorem authReply_failed (msg : String) : Client.AuthReply { msg := msg } :=
  fun h => absurd h (Int.lt_irrefl 0)

theorem reply_answers {r : Response} (hr : Client.AuthReply r) {Q : List (Event Reply) → Unit → Prop}
    (hQ : ∀ h, Q h ()) : Sat (AnswersAuth P hdr) h (reply P o hdr r) Q := by
  simp only [reply, call, sat_perform, AnswersAuth, true_and]
  exact ⟨⟨r, hr, rfl⟩, fun _ => hQ _⟩

theorem runReply_answers {r : Response} (hr : Client.AuthReply r) :
    Sat (AnswersAuth P hdr) h (run (reply P o hdr r)).run fun _ _ => True := by
  simp only [run, sat_run_lift]
  exact reply_answers hr fun _ => trivial

theorem sessionBind_answers (uid : Int) (x : ℕ) {Q : List (Event Reply) → Unit → Prop}
    (hQ : ∀ h, Q h ()) : Sat (AnswersAuth P hdr) h (sessionBind uid x) Q :=
  sat_sessionBind (fun _ => trivial) (fun _ _ => trivial) (fun _ _ _ => trivial) (fun _ => trivial) hQ

theorem deliverOfflineMessages_answers (uid : Int)
    {Q : List (Event Reply) → Except Unit Unit → Prop} (hQ : ∀ h r, Q h r) :
    Sat (AnswersAuth P hdr) h (deliverOfflineMessages P o uid).run Q :=
  sat_deliverOfflineMessages (fun _ => trivial) (fun _ => trivial) (fun _ => trivial)
    (fun _ _ _ => trivial) (fun _ => trivial) hQ

theorem handleLogin_answers :
    Sat (AnswersAuth P hdr) h (handleLogin P o hdr body).run fun _ _ => True := by
  have finish : ∀ (h : List (Event Reply)) (uid : Int), Sat (AnswersAuth P hdr) h
      (do
        if 0 < uid then
          run (sessionBind uid o.ctx)
          deliverOfflineMessages P o uid
          run (reply P o hdr { success := true, uid := uid, msg := "login success" })
        else run (reply P o hdr { msg := "用户名或密码错误" }) : Biz Unit).run fun _ _ => True := by
    intro h uid
    split_ifs
    · simp only [run, sat_run_bind, sat_run_lift]
      refine sessionBind_answers uid o.ctx fun h' => ?_
      refine deliverOfflineMessages_answers uid ?_
      rintro h'' (_ | _)
      · trivial
      · exact reply_answers (fun _ => rfl) fun _ => trivial
    · exact runReply_answers (authReply_failed _)
  unfold handleLogin
  split
  · trivial
  simp only [sys, call, sat_run_bind, sat_run_lift, sat_perform, AnswersAuth, true_and]
  rintro (_ | _)
  · exact finish _ (-1)
  · simp only [if_true, store, sat_run_bind, sat_run_mk, sat_perform, AnswersAuth, true_and]
    rintro (_ | uid)
    · trivial
    · exact finish _ uid

theorem handleRegister_answers :
    Sat (AnswersAuth P hdr) h (handleRegister P o hdr body).run fun _ _ => True := by
  unfold handleRegister
  split
  · trivial
  split_ifs
  · exact runReply_answers (authReply_failed _)
  refine sat_withWriter trivial (runReply_answers (authReply_failed _)) ?_
  simp only [store, call, sat_run_bind, sat_run_mk, sat_perform, AnswersAuth, true_and]
  rintro (_ | uid)
  · trivial
  dsimp only
  split_ifs
  · exact runReply_answers (authReply_failed _)
  · exact runReply_answers (authReply_failed _)
  · simp only [run, sat_run_bind, sat_run_lift]
    refine sessionBind_answers uid o.ctx fun h' => ?_
    exact reply_answers (fun _ => rfl) fun _ => trivial

/-- **The answer to a `LOGIN` or `REGISTER` carries a uid only if it is a success.** -/
theorem authReplies (hc : hdr.cmd = CmdType.login.code ∨ hdr.cmd = CmdType.register.code) :
    Sat (AnswersAuth P hdr) [] (processBusiness P o hdr body) fun _ _ => True := by
  have hbody : Sat (AnswersAuth P hdr) [] (businessBody P o hdr body).run
      fun _ _ => True := by
    have hchat : hdr.cmd ≠ CmdType.chat.code := by
      rcases hc with hc | hc <;> rw [hc] <;> decide
    rw [businessBody, if_neg hchat, dispatch]
    rcases hc with hc | hc
    · rw [if_pos hc]
      exact handleLogin_answers
    · have hlogin : hdr.cmd ≠ CmdType.login.code := by rw [hc]; decide
      rw [if_neg hlogin, if_neg hchat, if_pos hc]
      exact handleRegister_answers
  rw [processBusiness, sat_bind]
  refine hbody.mono (fun _ _ hg => hg) ?_
  rintro h' (_ | _) _
  · exact reply_answers (authReply_failed _) fun _ => trivial
  · trivial

end Server

/-! ## The client -/

namespace Client

/-- The main thread is in `do_login` or `do_register`. -/
def authenticating (s : Client) : Bool :=
  match s.main with
  | .armed _ _ | .auth _ | .waiting _ => true
  | _ => false

/-- The number of the packet that the main thread is to be answered. -/
def awaited (s : Client) : Option ℕ :=
  match s.main with
  | .auth o => some o.num
  | .waiting num => some num
  | _ => none

/-- An `ACK` with a uid that reaches a pending `LOGIN` or `REGISTER` is the answer to its packet. -/
def Attributed : Label → Client → Prop
  | .receive, s => ∀ a ∈ s.inbox.head?, a.resp.msg ≠ "PONG" → 0 < a.resp.uid →
      s.pending.active = true → s.authenticating = true → a.answers = s.awaited
  | _, _ => True

/-- The server has answered the packet `num` with the uid `u`. -/
def Answered (s : Client) (num : ℕ) (u : Int) : Prop := ∃ r, (num, r) ∈ s.replies ∧ r.uid = u

/-- The packet with the number `num` is a `LOGIN` or a `REGISTER`. -/
def AuthPacket (s : Client) (num : ℕ) : Prop := ∃ p, s.packets[num]? = some p ∧ isAuth p.cmd = true

/-- What the client knows comes from the server. -/
structure Attribution (s : Client) : Prop where
  /-- An `ACK` under way is an answer, or a notification without a uid. -/
  inbox : ∀ a ∈ s.inbox, 0 < a.resp.uid → ∃ num, a.answers = some num ∧ (num, a.resp) ∈ s.replies
  replies : ∀ num r, (num, r) ∈ s.replies → ∃ p, s.packets[num]? = some p ∧
    (isAuth p.cmd = true → AuthReply r)
  armed : ∀ cmd body, s.main = .armed cmd body → isAuth cmd = true
  awaited : ∀ num, s.awaited = some num → s.AuthPacket num
  /-- A uid that a call is about to take is the uid of the answer to its packet. -/
  pending : s.authenticating = true → 0 < s.pending.uid →
    ∃ num, s.awaited = some num ∧ s.Answered num s.pending.uid
  accepted : ∀ num u, (num, u) ∈ s.accepted →
    s.AuthPacket num ∧ ∃ r, (num, r) ∈ s.replies ∧ r.success = true ∧ r.uid = u
  uid : 0 < s.uid → ∃ num, (num, s.uid) ∈ s.accepted

theorem AuthPacket.mono {s s' : Client} {num : ℕ} (h : s.AuthPacket num)
    (hp : s.packets <+: s'.packets) : s'.AuthPacket num := by
  obtain ⟨p, hget, hauth⟩ := h
  exact ⟨p, getElem?_of_isPrefix hp hget, hauth⟩

/-- What a step does that leaves the answers alone. -/
theorem Attribution.of_same {s s' : Client} (h : Attribution s) (hin : s'.inbox = s.inbox)
    (hrep : s'.replies = s.replies) (hacc : s'.accepted = s.accepted) (huid : s'.uid = s.uid)
    (hpk : s.packets <+: s'.packets)
    (harmed : ∀ cmd body, s'.main = .armed cmd body → isAuth cmd = true)
    (haw : ∀ num, s'.awaited = some num → s'.AuthPacket num)
    (hpend : s'.authenticating = true → 0 < s'.pending.uid →
      ∃ num, s'.awaited = some num ∧ s.Answered num s'.pending.uid) : Attribution s' where
  inbox := by
    rw [hin, hrep]
    exact h.inbox
  replies num r hr := by
    rw [hrep] at hr
    obtain ⟨p, hget, hauth⟩ := h.replies num r hr
    exact ⟨p, getElem?_of_isPrefix hpk hget, hauth⟩
  armed := harmed
  awaited := haw
  pending ha hu := by
    obtain ⟨num, hnum, r, hr, hru⟩ := hpend ha hu
    exact ⟨num, hnum, r, hrep ▸ hr, hru⟩
  accepted num u hmem := by
    rw [hacc] at hmem
    rw [hrep]
    obtain ⟨hpacket, hans⟩ := h.accepted num u hmem
    exact ⟨hpacket.mono hpk, hans⟩
  uid := by
    rw [huid, hacc]
    exact h.uid

theorem Attribution.at_rest {s : Client} {m : MainPc} (h : Attribution s)
    (hm : m = .prompt ∨ ∃ o, m = .chat o) (pend : PendingAuth) :
    Attribution { s with main := m, pending := pend } := by
  refine h.of_same rfl rfl rfl rfl (List.prefix_refl _) ?_ ?_ ?_
  · rcases hm with rfl | ⟨o, rfl⟩ <;> exact fun _ _ => nofun
  · rcases hm with rfl | ⟨o, rfl⟩ <;> exact fun _ => nofun
  · rcases hm with rfl | ⟨o, rfl⟩ <;> exact nofun

theorem Attribution.same_packet {s : Client} {m : MainPc} (h : Attribution s) {o : PacketSend}
    (ho : s.main = .auth o) (hm : m = .waiting o.num ∨ ∃ o', m = .auth o' ∧ o'.num = o.num) :
    Attribution { s with main := m } := by
  have haw : s.awaited = some o.num := by rw [Client.awaited, ho]
  have hauth : s.authenticating = true := by rw [authenticating, ho]
  have haw' : Client.awaited { s with main := m } = some o.num := by
    obtain rfl | ⟨o', rfl, hnum⟩ := hm
    · rfl
    · exact congrArg some hnum
  refine h.of_same rfl rfl rfl rfl (List.prefix_refl _) ?_ ?_ ?_
  · obtain rfl | ⟨o', rfl, -⟩ := hm <;> exact fun _ _ => nofun
  · intro num hnum
    exact h.awaited num (haw.trans (haw'.symm.trans hnum))
  · intro _ hu
    obtain ⟨num, hnum, hans⟩ := h.pending hauth hu
    exact ⟨num, haw'.trans (haw.symm.trans hnum), hans⟩

theorem Attribution.set_heartbeat {s : Client} (h : Attribution s) (b : HeartbeatPc) :
    Attribution { s with heartbeat := b } :=
  h.of_same rfl rfl rfl rfl (List.prefix_refl _) h.armed h.awaited h.pending

theorem Attribution.set_wire {s : Client} (h : Attribution s) (w : Bytes) :
    Attribution { s with wire := w } :=
  h.of_same rfl rfl rfl rfl (List.prefix_refl _) h.armed h.awaited h.pending

theorem Attribution.leaveSend {s : Client} (h : Attribution s) (t : Sender) (ok : Bool) :
    Attribution (s.leaveSend t ok) := by
  cases t with
  | heartbeat => exact h.set_heartbeat _
  | main =>
      simp only [Client.leaveSend]
      split
      · rename_i o hm
        cases ok with
        | true => exact h.same_packet hm (.inl rfl)
        | false => exact h.at_rest (.inl rfl) s.pending
      · exact h.at_rest (.inl rfl) s.pending

theorem Attribution.setOutgoing {s : Client} (h : Attribution s) {t : Sender} {o o' : PacketSend}
    (ho : s.outgoing t = some o) (hnum : o'.num = o.num) : Attribution (s.setOutgoing t o') := by
  cases t with
  | heartbeat => exact h.set_heartbeat _
  | main =>
      simp only [Client.setOutgoing]
      split
      · rename_i o₁ hm
        rw [outgoing, hm] at ho
        cases ho
        exact h.same_packet hm (.inr ⟨o', rfl, hnum⟩)
      · exact h.at_rest (.inr ⟨o', rfl⟩) s.pending

/-- The server sends an `ACK`: an answer to a packet, or a notification without a uid. -/
theorem Attribution.send {s : Client} (h : Attribution s) (a : Ack) (rs : List (ℕ × Response))
    (ha : 0 < a.resp.uid → ∃ num, a.answers = some num ∧ (num, a.resp) ∈ rs)
    (hrs : ∀ num r, (num, r) ∈ rs → ∃ p, s.packets[num]? = some p ∧
      (isAuth p.cmd = true → AuthReply r)) :
    Attribution { s with inbox := s.inbox ++ [a], replies := s.replies ++ rs } where
  inbox b hb hu := by
    rcases List.mem_append.mp hb with hb | hb
    · obtain ⟨num, hnum, hmem⟩ := h.inbox b hb hu
      exact ⟨num, hnum, List.mem_append_left _ hmem⟩
    · obtain rfl := List.mem_singleton.mp hb
      obtain ⟨num, hnum, hmem⟩ := ha hu
      exact ⟨num, hnum, List.mem_append_right _ hmem⟩
  replies num r hr := by
    rcases List.mem_append.mp hr with hr | hr
    · exact h.replies num r hr
    · exact hrs num r hr
  armed := h.armed
  awaited := h.awaited
  pending hauth hu := by
    obtain ⟨num, hnum, r, hr, hru⟩ := h.pending hauth hu
    exact ⟨num, hnum, r, List.mem_append_left _ hr, hru⟩
  accepted num u hmem := by
    obtain ⟨hpacket, r, hr, hru⟩ := h.accepted num u hmem
    exact ⟨hpacket, r, List.mem_append_left _ hr, hru⟩
  uid := h.uid

theorem Attribution.receive {s : Client} (h : Attribution s) {a : Ack} {rest : List Ack}
    (hin : s.inbox = a :: rest) (hc : Attributed .receive s) :
    Attribution (handleAckResponse a.resp { s with inbox := rest }) := by
  have hrest : Attribution { s with inbox := rest } :=
    { h with inbox := fun b hb => h.inbox b (by rw [hin]; exact List.mem_cons_of_mem _ hb) }
  unfold handleAckResponse
  split_ifs with hpong hactive
  · exact hrest
  · refine hrest.of_same rfl rfl rfl rfl (List.prefix_refl _) h.armed h.awaited ?_
    intro hauth hu
    obtain ⟨num, hnum, hmem⟩ := h.inbox a (by rw [hin]; exact List.mem_cons_self) hu
    refine ⟨num, ?_, a.resp, hmem, rfl⟩
    exact (hc a (by rw [hin]; rfl) hpong hu hactive hauth).symm.trans hnum
  · exact hrest

/-- `wait_auth_result` ends: a uid that it takes is that of a success. -/
theorem Attribution.wake {s : Client} (h : Attribution s) {num : ℕ} (hm : s.main = .waiting num) :
    Attribution (s.wake num) := by
  by_cases hu : 0 < s.pending.uid
  · rw [Client.wake, if_pos hu]
    have haw : s.awaited = some num := by rw [Client.awaited, hm]
    obtain ⟨num', hnum, r, hr, hru⟩ := h.pending (by rw [authenticating, hm]) hu
    obtain rfl : num = num' := Option.some.inj (haw.symm.trans hnum)
    obtain ⟨p, hp, hauth⟩ := h.awaited num haw
    obtain ⟨p', hp', hreply⟩ := h.replies num r hr
    obtain rfl : p = p' := Option.some.inj (hp.symm.trans hp')
    have hsucc : r.success = true := hreply hauth (by rw [hru]; exact hu)
    have hrest := (h.at_rest (.inl rfl) s.pending).set_heartbeat
      (if s.heartbeat = .off then .asleep else s.heartbeat)
    refine { hrest with accepted := ?_, uid := ?_ }
    · intro n u hmem
      rcases List.mem_append.mp hmem with hmem | hmem
      · exact h.accepted n u hmem
      · obtain ⟨rfl, rfl⟩ := Prod.mk.inj (List.mem_singleton.mp hmem)
        exact ⟨⟨p, hp, hauth⟩, r, hr, hsucc, hru⟩
    · exact fun _ => ⟨num, List.mem_append_right _ (List.mem_singleton.mpr rfl)⟩
  · rw [Client.wake, if_neg hu]
    exact h.at_rest (.inl rfl) s.pending

/-- **An attributed step keeps the attribution.** -/
theorem Attribution.step {l : Label} {s s' : Client} (h : Attribution s) (hc : Attributed l s)
    (hs : step l s = some s') : Attribution s' := by
  cases l with
  | chat body =>
      simp only [Client.step] at hs
      split_ifs at hs with hm
      cases hs
      exact h.of_same rfl rfl rfl rfl (List.prefix_append _ _) (fun _ _ => nofun) (fun _ => nofun)
        nofun
  | arm register body =>
      simp only [Client.step, Option.ite_none_right_eq_some, Option.some.injEq] at hs
      obtain ⟨-, rfl⟩ := hs
      refine h.of_same rfl rfl rfl rfl (List.prefix_refl _) ?_ (fun _ => nofun) ?_
      · intro cmd body he
        cases he
        cases register <;> rfl
      · exact fun _ hu => absurd hu (show ¬ (0 : Int) < -1 by decide)
  | sendAuth =>
      simp only [Client.step] at hs
      split at hs
      · rename_i cmd body hm
        cases hs
        refine h.of_same rfl rfl rfl rfl (List.prefix_append _ _) (fun _ _ => nofun) ?_ ?_
        · rintro num he
          cases he
          exact ⟨⟨s.seq + 1, cmd, body⟩, by simp [enterSend], h.armed cmd body hm⟩
        · -- nothing has come in yet: the call was only armed
          intro _ hu
          obtain ⟨num, hnum, -⟩ := h.pending (by rw [authenticating, hm]) hu
          rw [Client.awaited, hm] at hnum
          cases hnum
      · cases hs
  | beat body =>
      simp only [Client.step] at hs
      split_ifs at hs with hm
      cases hs
      refine h.of_same rfl rfl rfl rfl (List.prefix_append _ _) h.armed ?_ h.pending
      exact fun num he => (h.awaited num he).mono (List.prefix_append _ _)
  | header t =>
      simp only [Client.step, sendHeader] at hs
      split at hs
      · rename_i num p ho
        cases hs
        split_ifs
        · exact (h.set_wire _).leaveSend t true
        · refine (h.set_wire _).setOutgoing (o := ⟨num, p, false⟩) ?_ rfl
          cases t <;> exact ho
      · cases hs
  | body t =>
      simp only [Client.step, sendBody] at hs
      split at hs
      · cases hs
        exact (h.set_wire _).leaveSend t true
      · cases hs
  | fail t =>
      simp only [Client.step, Option.map_eq_some_iff] at hs
      obtain ⟨-, -, rfl⟩ := hs
      exact h.leaveSend t false
  | answer num r =>
      simp only [Client.step] at hs
      split at hs
      · rename_i p hp
        split_ifs at hs with hr
        cases hs
        refine h.send ⟨some num, r⟩ [(num, r)] (fun _ => ⟨num, rfl, List.mem_singleton.mpr rfl⟩) ?_
        intro n r' hmem
        obtain ⟨rfl, rfl⟩ := Prod.mk.inj (List.mem_singleton.mp hmem)
        exact ⟨p, hp, hr⟩
      · cases hs
  | notify text =>
      cases hs
      have hsend := h.send ⟨none, { success := true, msg := text }⟩ []
        (fun hu => absurd hu (Int.lt_irrefl 0)) fun _ _ hmem => absurd hmem List.not_mem_nil
      rw [List.append_nil] at hsend
      exact hsend
  | receive =>
      simp only [Client.step] at hs
      split at hs
      · rename_i a rest hin
        cases hs
        exact h.receive hin hc
      · cases hs
  | wake =>
      simp only [Client.step] at hs
      split at hs
      · rename_i num hm
        split_ifs at hs
        cases hs
        exact h.wake hm
      · cases hs
  | timeout =>
      simp only [Client.step] at hs
      split at hs
      · split_ifs at hs
        cases hs
        exact h.at_rest (.inl rfl) _
      · cases hs

theorem attribution_init : Attribution {} where
  inbox _ hb := absurd hb List.not_mem_nil
  replies _ _ hr := absurd hr List.not_mem_nil
  armed _ _ := nofun
  awaited _ := nofun
  pending := nofun
  accepted _ _ hmem := absurd hmem List.not_mem_nil
  uid hu := absurd hu (by decide)

/-- **A login that succeeds has been answered.** In every run in which an `ACK` with a uid reaches a
pending `LOGIN` or `REGISTER` only as the answer to its packet: each call that returned `true` and set
`uid_` to `u` has sent a `LOGIN` or `REGISTER` that the server has answered with a success carrying
`u`, and `uid_` comes from such a call. -/
theorem logins_attributed (s : Client) (hr : RunTo Attributed s) :
    (∀ num u, (num, u) ∈ s.accepted →
      s.AuthPacket num ∧ ∃ r, (num, r) ∈ s.replies ∧ r.success = true ∧ r.uid = u) ∧
    (0 < s.uid → ∃ num, (num, s.uid) ∈ s.accepted) := by
  have h := hr.invariant Attribution attribution_init fun _ _ _ hc h hs => h.step hc hs
  exact ⟨h.accepted, h.uid⟩

instance decidableAttributed : ∀ l s, Decidable (Attributed l s)
  | .receive, s => inferInstanceAs (Decidable (∀ a ∈ s.inbox.head?, a.resp.msg ≠ "PONG" →
      0 < a.resp.uid → s.pending.active = true → s.authenticating = true → a.answers = s.awaited))
  | .chat _, _ | .arm _ _, _ | .sendAuth, _ | .beat _, _ | .header _, _ | .body _, _ | .fail _, _
  | .answer _ _, _ | .notify _, _ | .wake, _ | .timeout, _ => inferInstanceAs (Decidable True)

/-- A `LOGIN` is sent. -/
def askLogin (body : Bytes) : List Label := [.arm false body, .sendAuth, .header .main, .body .main]

/-- The server accepts the packet with the given number as a login of user 1000, and the client takes
the answer. -/
def acceptLogin (num : ℕ) : List Label :=
  [.answer num { success := true, uid := 1000, msg := "login success" }, .receive, .wake]

/-- A login that succeeds. -/
theorem logins_attributed_sample : ∃ s, RunTo Attributed s ∧ s.accepted = [(0, 1000)] ∧
    s.AuthPacket 0 ∧ ∃ r, (0, r) ∈ s.replies ∧ r.success = true ∧ r.uid = 1000 := by
  obtain ⟨s, hr, hacc⟩ := exists_run Attributed
    (askLogin [0x0A, 1, 0x61, 0x12, 1, 0x70] ++ acceptLogin 0) (fun s => s.accepted = [(0, 1000)])
    (by decide)
  refine ⟨s, hr, hacc, (logins_attributed s hr).1 0 1000 ?_⟩
  rw [hacc]
  exact List.mem_singleton.mpr rfl

/-- **The late answer to a login that has timed out ends the next one**: the second `LOGIN`, of another
user, has not been answered at all, and `do_login` returns `true` with the uid of the first. -/
theorem login_misattributed : ∃ s, RunTo (fun _ _ => True) s ∧ (1, 1000) ∈ s.accepted ∧ s.uid = 1000 ∧
    s.AuthPacket 1 ∧ ∀ r, (1, r) ∉ s.replies := by
  obtain ⟨s, hr, hacc, huid, hpacket, hrep⟩ := exists_run (fun _ _ => True)
    (askLogin [0x0A, 1, 0x61, 0x12, 1, 0x70] ++ [.timeout] ++
      askLogin [0x0A, 1, 0x62, 0x12, 1, 0x71] ++ acceptLogin 0)
    (fun s => (1, 1000) ∈ s.accepted ∧ s.uid = 1000 ∧
      s.packets[1]? = some ⟨2, .login, [0x0A, 1, 0x62, 0x12, 1, 0x71]⟩ ∧
      s.replies.map Prod.fst = [0]) (by decide)
  refine ⟨s, hr, hacc, huid, ⟨_, hpacket, rfl⟩, fun r hmem => ?_⟩
  have hnum : 1 ∈ s.replies.map Prod.fst := List.mem_map_of_mem hmem
  rw [hrep] at hnum
  exact absurd hnum (by decide)

end Client

end AuraChat

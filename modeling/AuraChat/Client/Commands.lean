import AuraChat.Model.ChatLoop

set_option autoImplicit false

/-!
# Lines that begin with a slash

`handle_command` returns whether a line needs no more work, but after `/register`, `/login` and `/to` it
returns whether they succeeded. A line whose command fails is sent to the current chat, with the password
that may be in it.

* `AIChatClient.packets`, `AIChatClient.Refused`: what an iteration hands to `send_packet`, and whether the
  server, or the socket, refuses something;
* `AIChatClient.Handled`, **`AIChatClient.handled`**: what a command does, whichever it is;
* **`AIChatClient.command_not_sent_iff`**: when the line is not sent as a message;
* `AIChatClient.password_sent`: a login that fails.
-/

namespace AuraChat.AIChatClient

open Interleave Interleave.Prog

/-! ## What an iteration sends -/

/-- The packets handed to `send_packet`, each with what it returns. -/
def packets (h : List (Event Reply)) : List (Message × Bool) :=
  h.filterMap fun e => match e with
    | ⟨.sendPacket m, ok⟩ => some (m, ok)
    | _ => none

/-- A packet that cannot be sent, or no answer with a uid within ten seconds. -/
def refused : Event Reply → Bool
  | ⟨.sendPacket _, ok⟩ => ok = false
  | ⟨.waitAuth, some (uid, _)⟩ => uid ≤ 0
  | ⟨.waitAuth, none⟩ => true
  | _ => false

def Refused (h : List (Event Reply)) : Prop := h.any refused = true

/-- The text is handed to `send_packet` as a message. -/
def Offered (text : Bytes) (h : List (Event Reply)) : Prop :=
  ∃ m ok, (.chat m, ok) ∈ packets h ∧ m.content = text

/-- The text is sent as a message. -/
def Sent (text : Bytes) (h : List (Event Reply)) : Prop :=
  ∃ m, (.chat m, true) ∈ packets h ∧ m.content = text

/-- The last packet of the history is sent. -/
def LastSent (h : List (Event Reply)) : Prop := ∃ m, (packets h).getLast? = some (m, true)

theorem Sent.offered {text : Bytes} {h : List (Event Reply)} (hs : Sent text h) : Offered text h := by
  obtain ⟨m, hm, htext⟩ := hs
  exact ⟨m, true, hm, htext⟩

/-! ## Histories -/

/-- A call that neither sends nor waits for an answer. -/
def quiet : Call → Bool
  | .sendPacket _ | .waitAuth => false
  | _ => true

section Histories

variable (h : List (Event Reply))

@[simp] theorem packets_append (h' : List (Event Reply)) :
    packets (h ++ h') = packets h ++ packets h' := List.filterMap_append

@[simp] theorem packets_sendPacket (m : Message) (ok : Bool) :
    packets [⟨.sendPacket m, ok⟩] = [(m, ok)] := rfl

theorem packets_of_quiet {a : Call} (ha : quiet a = true) (r : Reply a) : packets [⟨a, r⟩] = [] := by
  cases a <;> first | rfl | cases ha

theorem refused_of_quiet {a : Call} (ha : quiet a = true) (r : Reply a) : refused ⟨a, r⟩ = false := by
  cases a <;> first | rfl | cases ha

@[simp] theorem packets_waitAuth (r : Option (Int × Bytes)) : packets [⟨.waitAuth, r⟩] = [] := rfl

end Histories

/-- Between the histories `h` and `h'` nothing is sent and no answer is waited for. -/
def Still (h h' : List (Event Reply)) : Prop :=
  packets h' = packets h ∧ h'.any refused = h.any refused

theorem Still.refl (h : List (Event Reply)) : Still h h := ⟨rfl, rfl⟩

theorem Still.trans {h₁ h₂ h₃ : List (Event Reply)} (h : Still h₁ h₂) (h' : Still h₂ h₃) :
    Still h₁ h₃ := ⟨h'.1.trans h.1, h'.2.trans h.2⟩

theorem still_of_quiet (h : List (Event Reply)) {a : Call} (ha : quiet a = true) (r : Reply a) :
    Still h (h ++ [⟨a, r⟩]) := by
  constructor
  · rw [packets_append, packets_of_quiet ha, List.append_nil]
  · simp only [List.any_append, List.any_cons, List.any_nil, refused_of_quiet ha, Bool.or_false]

theorem Still.sent {h h₁ : List (Event Reply)} (hs : Still h h₁) (m : Message) (ok : Bool) :
    packets (h₁ ++ [⟨.sendPacket m, ok⟩]) = packets h ++ [(m, ok)] ∧
      (h₁ ++ [(⟨.sendPacket m, ok⟩ : Event Reply)]).any refused = (h.any refused || !ok) := by
  constructor
  · rw [packets_append, packets_sendPacket, hs.1]
  · rw [List.any_append, hs.2]
    simp [refused]

/-- What holds of every way in which a program ends. -/
abbrev Ends {α : Type} (h : List (Event Reply)) (p : Prog Reply α)
    (Q : List (Event Reply) → α → Prop) : Prop := Sat (fun _ _ => True) h p Q

theorem ends_quiet {α : Type} {a : Call} (ha : quiet a = true) {h : List (Event Reply)}
    {k : Reply a → Prog Reply α} {Q : List (Event Reply) → α → Prop}
    (hk : ∀ h' r, Still h h' → Ends h' (k r) Q) : Ends h (call a >>= k) Q :=
  ⟨trivial, fun r => hk _ r (still_of_quiet h ha r)⟩

theorem ends_ite {α : Type} {c : Prop} [Decidable c] {h : List (Event Reply)} {p q : Prog Reply α}
    {Q : List (Event Reply) → α → Prop} (hp : c → Ends h p Q) (hq : ¬ c → Ends h q Q) :
    Ends h (if c then p else q) Q := by
  split_ifs with hc
  · exact hp hc
  · exact hq hc

theorem ends_print (text : Bytes) (h : List (Event Reply)) :
    Ends h (print text) fun h' _ => Still h h' := ⟨trivial, fun r => still_of_quiet h rfl r⟩

theorem ends_printAll {ι : Type} (text : ι → Bytes) (xs : List ι) (h : List (Event Reply)) :
    Ends h (xs.forM fun x => print (text x)) fun h' _ => Still h h' := by
  refine sat_forM (fun h' _ => Still h h') _ (fun h' x _ hs => ?_) xs h (Still.refl h)
  exact (ends_print (text x) h').mono (fun _ _ _ => trivial) fun _ _ hs' => hs.trans hs'

/-! ## Commands -/

/-- What a command leaves that is given the history `h` and the state `s`: none of its packets carries the
line, something is refused exactly if it returns `false`, and then `uid_` is as it was. -/
structure Handled (line : Bytes) (s : AIChatClient) (h h' : List (Event Reply))
    (r : Bool × AIChatClient) : Prop where
  packets : ∃ ms, packets h' = packets h ++ ms ∧ ∀ m ok, (.chat m, ok) ∈ ms → m.content ≠ line
  refused : h'.any refused = (h.any refused || !r.1)
  uid : r.1 = false → r.2.uid = s.uid

section Commands

variable {line : Bytes} {s s' : AIChatClient} {h h₁ h' : List (Event Reply)} {r : Bool × AIChatClient}

theorem handled_of_still (hs : Still h h') : Handled line s h h' (true, s') where
  packets := ⟨[], by rw [hs.1, List.append_nil], fun _ _ hm => absurd hm List.not_mem_nil⟩
  refused := by rw [hs.2, Bool.not_true, Bool.or_false]
  uid hr := Bool.noConfusion hr

theorem Handled.of_still (hs : Still h h₁) (hh : Handled line s h₁ h' r) : Handled line s h h' r where
  packets := by
    rw [← hs.1]
    exact hh.packets
  refused := by rw [hh.refused, hs.2]
  uid := hh.uid

theorem handled_print (text : Bytes) :
    Ends h (do print text; pure (true, s')) (Handled line s h) :=
  ends_quiet rfl fun _ _ hs => handled_of_still hs

theorem handled_of_packet {m : Message} {ok : Bool} (hm : ∀ c, m ≠ .chat c)
    (hp : packets h' = packets h ++ [(m, ok)])
    (hr : h'.any refused = (h.any refused || !r.1))
    (hu : r.1 = false → r.2.uid = s.uid) : Handled line s h h' r where
  packets := by
    refine ⟨_, hp, fun c ok' hc => ?_⟩
    exact absurd (congrArg Prod.fst (List.mem_singleton.mp hc)).symm (hm c)
  refused := hr
  uid := hu

theorem handled_waitAuthResult (action : Bytes) {m : Message} (hm : ∀ c, m ≠ .chat c)
    (hp : packets h₁ = packets h ++ [(m, true)])
    (hr : h₁.any refused = h.any refused) :
    Ends h₁ (waitAuthResult action s) (Handled line s h) := by
  -- the history after the answer, and what is printed about it
  have hanswer : ∀ {reply : Option (Int × Bytes)} {h₂ : List (Event Reply)} {r : Bool × AIChatClient},
      Still (h₁ ++ [⟨Call.waitAuth, reply⟩]) h₂ → refused ⟨.waitAuth, reply⟩ = !r.1 →
      (r.1 = false → r.2.uid = s.uid) → Handled line s h h₂ r := by
    intro reply h₂ r hs hreply hu
    have hpackets : packets h₂ = packets h ++ [(m, true)] := by
      rw [hs.1, packets_append, packets_waitAuth, List.append_nil, hp]
    refine handled_of_packet hm hpackets ?_ hu
    rw [hs.2, List.any_append, hr, List.any_cons, List.any_nil, Bool.or_false, hreply]
  refine ⟨trivial, fun reply => ?_⟩
  rcases reply with _ | ⟨uid, msg⟩
  · exact ends_quiet rfl fun _ _ hs => hanswer hs rfl fun _ => rfl
  · refine ends_ite (fun huid => ?_) fun huid => ?_
    · refine ends_quiet rfl fun _ _ hs => ends_quiet rfl fun _ _ hs' => ?_
      exact hanswer (hs.trans hs') (decide_eq_false (Int.not_le.mpr huid)) fun hf => Bool.noConfusion hf
    · exact ends_quiet rfl fun _ _ hs => hanswer hs (decide_eq_true (Int.not_lt.mp huid)) fun _ => rfl

theorem handled_authenticate {m : Message} (hm : ∀ c, m ≠ .chat c) {username password : Bytes}
    (hu : username ≠ []) (hp : password ≠ []) (action : Bytes) :
    Ends h (authenticate m username password action s) (Handled line s h) := by
  rw [authenticate, if_neg (by simp [hu, hp])]
  refine ends_quiet rfl fun h₁ _ hs => ⟨trivial, fun ok => ?_⟩
  obtain ⟨hpackets, hrefused⟩ := hs.sent m ok
  cases ok with
  | true => exact handled_waitAuthResult action hm hpackets (hrefused.trans (Bool.or_false _))
  | false => exact handled_of_packet hm hpackets hrefused fun _ => rfl

theorem ends_sendMessage (toUid : Int) (text : Bytes) (huid : 0 < s.uid) :
    Ends h (sendMessage toUid text s) fun h' ok =>
      (∃ m, packets h' = packets h ++ [(.chat m, ok)] ∧ m.content = text) ∧
      h'.any refused = (h.any refused || !ok) := by
  rw [sendMessage, if_neg (not_not_intro huid)]
  refine ends_quiet rfl fun h₁ now hs => ⟨trivial, fun ok => ?_⟩
  obtain ⟨hpackets, hrefused⟩ :=
    hs.sent (.chat { fromUid := s.uid, toUid := toUid, content := text, timestamp := now }) ok
  exact ⟨⟨_, hpackets, rfl⟩, hrefused⟩

theorem handled_sendMessage (toUid : Int) {text : Bytes} (huid : 0 < s.uid) (htext : text ≠ line) :
    Ends h (do let ok ← sendMessage toUid text s; pure (ok, addRecentContact toUid s))
      (Handled line s h) := by
  rw [Ends, sat_bind]
  refine (ends_sendMessage toUid text huid).mono (fun _ _ _ => trivial) ?_
  rintro h' ok ⟨⟨m, hp, hm⟩, hr⟩
  refine ⟨⟨_, hp, ?_⟩, hr, fun _ => rfl⟩
  intro c ok' hc
  obtain ⟨hc, -⟩ := Prod.mk.inj (List.mem_singleton.mp hc)
  obtain rfl : c = m := Message.chat.inj hc
  rw [hm]
  exact htext

theorem twoWords_ne_nil {iss u p : Bytes} (h : twoWords iss = some (u, p)) : u ≠ [] ∧ p ≠ [] := by
  simp only [twoWords, Option.bind_eq_bind, Option.bind_eq_some_iff, Option.pure_def,
    Option.some.injEq, Prod.mk.injEq] at h
  obtain ⟨⟨u', iss'⟩, hu, ⟨p', iss''⟩, hp, rfl, rfl⟩ := h
  exact ⟨Scan.word_ne_nil hu, Scan.word_ne_nil hp⟩

theorem length_restOfLine (iss : Bytes) : (restOfLine iss).length ≤ iss.length := by
  have hle := (List.takeWhile_sublist (fun b => decide (b ≠ 0x0A)) (l := iss)).length_le
  unfold restOfLine
  split
  · next m hm =>
      rw [hm, List.length_cons] at hle
      omega
  · exact hle

/-- **A command.** -/
theorem handled (hline : line.head? = some 0x2F) :
    Ends h (handleCommand line s) (Handled line s h) := by
  rw [handleCommand, if_neg (not_not_intro hline)]
  obtain ⟨rest, rfl⟩ := List.head?_eq_some_iff.mp hline
  obtain ⟨cmd, iss, hword⟩ := Scan.exists_word (b := 0x2F) rfl rest
  have hshort := Scan.length_word hword
  simp only [hword, Option.getD_some]
  refine ends_ite (fun _ => ?_) fun _ => ends_ite (fun _ => ?_) fun _ => ends_ite (fun _ => ?_)
    fun huid => ends_ite (fun _ => ?_) fun _ => ends_ite (fun _ => ?_) fun _ => ends_ite (fun _ => ?_)
    fun _ => ends_ite (fun _ => ?_) fun _ => ends_ite (fun _ => ?_) fun _ => ends_ite (fun _ => ?_)
    fun _ => ends_ite (fun _ => ?_) fun _ => ?_
  · -- `/register`
    split
    · next u p hwords =>
        obtain ⟨hu, hp⟩ := twoWords_ne_nil hwords
        exact handled_authenticate (fun _ => Message.noConfusion) hu hp _
    · exact handled_print _
  · -- `/login`
    split
    · next u p hwords =>
        obtain ⟨hu, hp⟩ := twoWords_ne_nil hwords
        exact handled_authenticate (fun _ => Message.noConfusion) hu hp _
    · exact handled_print _
  · exact handled_print _
  · exact handled_print _
  · -- `/chat`
    split
    · exact ends_ite (fun _ => handled_print _) fun _ => handled_print _
    · exact handled_print _
  · -- `/to`
    split
    · next t b m hto =>
        obtain ⟨⟨t', iss'⟩, hint, heq⟩ := Option.map_eq_some_iff.mp hto
        obtain ⟨rfl, hm⟩ := Prod.mk.inj heq
        have hlen := Scan.length_int hint
        have hlen' := length_restOfLine iss'
        rw [hm] at hlen'
        refine ends_quiet rfl fun h₁ _ hs => ?_
        refine (handled_sendMessage t' (not_not.mp huid) ?_).mono (fun _ _ _ => trivial)
          fun _ _ hh => hh.of_still hs
        -- what follows the user is shorter than the line
        rintro heq
        rw [heq] at hlen'
        exact absurd (hlen'.trans (hlen.trans_lt hshort).le) (by omega)
    · exact handled_print _
  · -- `/list`
    refine ends_ite (fun _ => handled_print _) fun _ => ends_quiet rfl fun h₁ _ hs => ?_
    rw [Ends, sat_bind]
    exact (ends_printAll _ _ h₁).mono (fun _ _ _ => trivial) fun _ _ hs' =>
      handled_of_still (hs.trans hs')
  · -- `/status`
    refine ends_quiet rfl fun _ _ h₁ => ends_quiet rfl fun _ _ h₂ => ends_quiet rfl fun _ _ h₃ =>
      ends_quiet rfl fun _ _ h₄ => ends_quiet rfl fun _ _ h₅ => ?_
    exact handled_of_still ((((h₁.trans h₂).trans h₃).trans h₄).trans h₅)
  · -- `/help`
    rw [Ends, sat_bind]
    exact (ends_printAll _ _ h).mono (fun _ _ _ => trivial) fun _ _ hs => handled_of_still hs
  · -- `/quit`
    exact ends_quiet rfl fun _ _ hs => handled_of_still hs
  · exact handled_print _

end Commands

/-! ## Iterations of the loop -/

/-- When a line is handed to `send_packet` as a message, and when it is sent. -/
def Outcome (line : Bytes) (uid : Int) (h : List (Event Reply)) : Prop :=
  (Offered line h ↔ 0 < uid ∧ Refused h) ∧ (Sent line h ↔ 0 < uid ∧ Refused h ∧ LastSent h)

section Turns

variable {line : Bytes} {s : AIChatClient} {h h' : List (Event Reply)}

theorem Outcome.of_still (hs : Still h h') (ho : Outcome line s.uid h) :
    Outcome line s.uid h' := by
  simp only [Outcome, Offered, Sent, Refused, LastSent, hs.1, hs.2] at ho ⊢
  exact ho

theorem outcome_none (hnone : ∀ m ok, (.chat m, ok) ∈ packets h → m.content ≠ line)
    (hlogin : ¬ (0 < s.uid ∧ Refused h)) : Outcome line s.uid h := by
  have hoff : ¬ Offered line h := by
    rintro ⟨m, ok, hm, hc⟩
    exact hnone m ok hm hc
  exact ⟨iff_of_false hoff hlogin, iff_of_false (fun hs => hoff hs.offered) fun hr => hlogin ⟨hr.1, hr.2.1⟩⟩

theorem outcome_sent {ms : List (Message × Bool)} {m : ChatMessage} {ok : Bool} (huid : 0 < s.uid)
    (hr : Refused h) (hp : packets h = ms ++ [(.chat m, ok)]) (hm : m.content = line)
    (hnone : ∀ m ok, (.chat m, ok) ∈ ms → m.content ≠ line) : Outcome line s.uid h := by
  have hmem : (Message.chat m, ok) ∈ packets h := by
    rw [hp]
    exact List.mem_concat_self
  refine ⟨iff_of_true ⟨m, ok, hmem, hm⟩ ⟨huid, hr⟩, ?_⟩
  constructor
  · rintro ⟨c, hc, hline⟩
    rw [hp] at hc
    rcases List.mem_append.mp hc with hc | hc
    · exact absurd hline (hnone c true hc)
    · refine ⟨huid, hr, .chat m, ?_⟩
      rw [hp, List.getLast?_concat, (Prod.mk.inj (List.mem_singleton.mp hc)).2]
  · rintro ⟨-, -, c, hc⟩
    rw [hp, List.getLast?_concat] at hc
    obtain rfl := (Prod.mk.inj (Option.some.inj hc)).2
    exact ⟨m, hmem, hm⟩

theorem ends_printPrompt : Ends h (printPrompt s) fun h' _ => Still h h' := by
  refine ends_quiet rfl fun h₁ _ hs => ends_ite (fun _ => ?_) fun _ => ends_ite (fun _ => ?_) fun _ => hs
  · exact (ends_print _ h₁).mono (fun _ _ _ => trivial) fun _ _ hs' => hs.trans hs'
  · exact (ends_print _ h₁).mono (fun _ _ _ => trivial) fun _ _ hs' => hs.trans hs'

theorem outcome_sendMessage (toUid : Int) (huid : 0 < s.uid) (hr : Refused h)
    (hnone : ∀ m ok, (.chat m, ok) ∈ packets h → m.content ≠ line) :
    Ends h (sendMessage toUid line s) fun h' _ => Outcome line s.uid h' := by
  refine (ends_sendMessage toUid line huid).mono (fun _ _ _ => trivial) ?_
  rintro h' ok ⟨⟨m, hp, hm⟩, hr'⟩
  refine outcome_sent huid ?_ hp hm hnone
  rw [Refused, hr', hr, Bool.true_or]

theorem outcome_chatTurn (hline : line.head? = some 0x2F) :
    Ends [] (chatTurn (some line) s) fun h _ => Outcome line s.uid h := by
  rw [Ends, chatTurn, sat_bind]
  refine ends_printPrompt.mono (fun _ _ _ => trivial) fun h₀ _ h₀s => ?_
  refine ends_ite (fun hnil => ?_) fun _ => ?_
  · rw [hnil] at hline
    cases hline
  rw [Ends, sat_bind]
  refine (handled hline).mono (fun _ _ _ => trivial) ?_
  rintro h₁ ⟨ok, s'⟩ ⟨⟨ms, hp, hms⟩, hr, huid⟩
  have hnone : ∀ m ok, (.chat m, ok) ∈ packets h₁ → m.content ≠ line := by
    rw [hp, h₀s.1]
    exact hms
  rw [h₀s.2] at hr
  cases ok with
  | true =>
      -- the command is done
      refine outcome_none hnone fun hl => ?_
      rw [Refused, hr] at hl
      exact Bool.noConfusion hl.2
  | false =>
      replace huid : s'.uid = s.uid := huid rfl
      have hR : Refused h₁ := by
        rw [Refused, hr]
        rfl
      rw [← huid]
      refine ends_ite (fun hf => Bool.noConfusion hf) fun _ => ends_ite (fun hlogin => ?_)
        fun hlogin => ends_ite (fun _ => ?_) fun _ => ?_
      · exact ends_quiet rfl fun _ _ hs => (outcome_none hnone fun hl => hlogin hl.1).of_still hs
      · -- the chat with the AI
        refine ends_quiet rfl fun h₂ _ hs => ?_
        rw [Ends, sat_bind]
        refine (outcome_sendMessage 9999 (not_not.mp hlogin) ?_ ?_).mono (fun _ _ _ => trivial)
          fun h₃ ok ho => ?_
        · rwa [Refused, hs.2]
        · rwa [hs.1]
        · exact ends_ite (fun _ => ends_quiet rfl fun _ _ hs' => ho.of_still hs') fun _ =>
            ends_quiet rfl fun _ _ hs' => ho.of_still hs'
      · -- the chat with a user
        refine ends_quiet rfl fun h₂ _ hs => ?_
        rw [Ends, sat_bind]
        refine (outcome_sendMessage s'.chatTarget (not_not.mp hlogin) ?_ ?_).mono
          (fun _ _ _ => trivial) fun h₃ ok ho => ?_
        · rwa [Refused, hs.2]
        · rwa [hs.1]
        · exact ends_ite (fun _ => ho) fun _ => ends_quiet rfl fun _ _ hs' => ho.of_still hs'

end Turns

/-- **A line that begins with a slash is not handed to `send_packet` as a message if and only if the client
is not logged in before it or nothing of its command is refused**, and it is not sent if and only if, in
addition, the last packet of the iteration may be the one that cannot be sent. -/
theorem command_not_sent_iff (s : AIChatClient) {line : Bytes} (hline : line.head? = some 0x2F)
    {h : List (Event Reply)} {r : Bool × AIChatClient}
    (hp : Path (chatTurn (some line) s) h (.ret r)) :
    (¬ Offered line h ↔ ¬ (0 < s.uid ∧ Refused h)) ∧
      (¬ Sent line h ↔ ¬ (0 < s.uid ∧ Refused h ∧ LastSent h)) := by
  have ho : Outcome line s.uid h := hp.sat (outcome_chatTurn hline)
  exact ⟨not_congr ho.1, not_congr ho.2⟩

/-- Every packet is sent, and every answer says that the password is wrong. -/
def denied : (a : Call) → Reply a
  | .loadInStream => false
  | .loadRunning => true
  | .systemClock => (0 : Int)
  | .sendPacket _ => true
  | .waitAuth => some (-1, bytes "密码错误")
  | .print _ | .stopRunning | .armPending | .startHeartbeat | .resetStream
  | .waitForStreamCompletion => ()

/-- A client that is not logged in keeps the line for itself. -/
theorem command_not_sent_sample :
    ¬ Sent (bytes "/login bob wrong") (answered denied (chatTurn (some (bytes "/login bob wrong")) {})).1 :=
  (command_not_sent_iff {} (by decide) (path_answered denied _)).2.mpr fun h => absurd h.1 (by decide)

/-- **A login that fails goes to the current chat**: a user who is logged in as 1000 and talks to 1001 tries
to log in under another name. -/
theorem password_sent :
    ∃ (h : List (Event Reply)) (r : Bool × AIChatClient) (m : ChatMessage),
      Path (chatTurn (some (bytes "/login bob wrong")) { uid := 1000, chatTarget := 1001 }) h (.ret r) ∧
      (.chat m, true) ∈ packets h ∧ m.toUid = 1001 ∧ m.content = bytes "/login bob wrong" := by
  refine ⟨_, _, { fromUid := 1000, toUid := 1001, content := bytes "/login bob wrong" },
    path_answered denied _, ?_, rfl, rfl⟩
  decide

end AuraChat.AIChatClient

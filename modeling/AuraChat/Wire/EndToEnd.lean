import AuraChat.Wire.Delivery
import AuraChat.Wire.Intake

set_option autoImplicit false

/-!
# From one client to another

The server with the bytes that come in and the bytes that go out: a worker runs the loops of `handle_read` and
`handle_write` of its connections, one after another, between the steps of all other threads.

* `Wires`, `Wires.step`: both sides of the server in one system;
* `intakeRun_of_wires`, `pipesRun_of_wires`: a run of it is one of either side;
* `Heard`, **`heard_was_said`**: a chat message that a client takes out was in the bytes of a client.
-/

namespace AuraChat

open Interleave Stream

variable {P : Params} {db : Store}

/-! ## Both sides of the server -/

/-- The server, what comes into it and what goes out of it. -/
structure Wires where
  intake : Intake
  epollOut : ℕ → Bool
  written : ℕ → Bytes

inductive WiresLabel
  /-- A step of the server that is not part of a `handle_write`. -/
  | intake (l : IntakeLabel)
  /-- A worker runs `handle_write` of a connection. -/
  | handleWrite (c : ℕ) (results : List WriteResult)

namespace Wires

def pipes (p : Wires) : Pipes := ⟨p.intake.server, p.epollOut, p.written⟩

/-- What epoll watches after a step. -/
def watch (P : Params) (p : Wires) : IntakeLabel → ℕ → Bool
  | .server l => p.pipes.watch P l
  -- `handle_read` calls no `send`
  | .receive _ _ | .parse _ => p.epollOut

/-- `handle_write` of the connection `c`. -/
def write (c : ℕ) (d : Conn) (results : List WriteResult) (p : Wires) : Wires where
  intake := { p.intake with server := (p.pipes.write c d results).server }
  epollOut := (p.pipes.write c d results).epollOut
  written := (p.pipes.write c d results).written

def step (P : Params) : WiresLabel → Wires → Option Wires
  | .intake (.server (.write _ _)), _ => none
  | .intake l, p => (Intake.step P l p.intake).map fun q =>
      { p with intake := q, epollOut := p.watch P l }
  | .handleWrite c results, p =>
      match p.intake.server.net.conns c with
      | none => none
      | some d =>
          if p.intake.server.atEvents d ∧ p.intake.parsing d.worker = none then some (p.write c d results)
          else none

/-- The server before the first connection. -/
def init (P : Params) (db : Store) : Wires := ⟨Intake.init P db, fun _ => false, fun _ => []⟩

/-- The states that a run reaches, from a start on the store `db`. -/
abbrev RunTo (P : Params) (db : Store) (p : Wires) : Prop := Reach (step P) (fun _ _ => True) (init P db) p

end Wires

/-! ## A run of either side -/

theorem wires_cases {p p' : Wires} {l : WiresLabel} (hs : Wires.step P l p = some p') :
    (∃ il q, (∀ c n, il ≠ .server (.write c n)) ∧ Intake.step P il p.intake = some q ∧
      p' = { p with intake := q, epollOut := p.watch P il }) ∨
    ∃ c d results, p.intake.server.net.conns c = some d ∧ p.intake.server.atEvents d ∧
      p.intake.parsing d.worker = none ∧ p' = p.write c d results := by
  cases l with
  | intake il =>
      have hmap : (Intake.step P il p.intake).map (fun q =>
          ({ p with intake := q, epollOut := p.watch P il } : Wires)) = some p' ∧
          ∀ c n, il ≠ .server (.write c n) := by
        cases il with
        | server l =>
            cases l with
            | write c n => cases hs
            | _ => exact ⟨hs, fun _ _ e => by cases e⟩
        | receive | parse => exact ⟨hs, fun _ _ e => by cases e⟩
      obtain ⟨hmap, hl⟩ := hmap
      obtain ⟨q, hq, rfl⟩ := Option.map_eq_some_iff.mp hmap
      exact .inl ⟨il, q, hl, hq, rfl⟩
  | handleWrite c results =>
      simp only [Wires.step] at hs
      split at hs
      · cases hs
      · rename_i d hd
        split_ifs at hs with hev
        exact .inr ⟨c, d, results, hd, hev.1, hev.2, (Option.some.inj hs).symm⟩

theorem intake_server {p : Intake} {l : Label} {c : ℕ} {d : Conn} {s' : State}
    (hl : (∃ n, l = .write c n) ∨ l = .drop c) (hd : p.server.net.conns c = some d)
    (hnone : p.parsing d.worker = none) (hs : step P l p.server = some s') :
    Intake.step P (.server l) p = some { p with server := s' } := by
  rcases hl with ⟨n, rfl⟩ | rfl
  all_goals
    have hfree : (p.parsing d.worker).isSome = false := by rw [hnone]; rfl
    simp only [Intake.step, Intake.engaged, State.runner, hd, Option.map_some, hfree, hs]
    rfl

theorem intakeRun_of_wires {p : Wires} (h : Wires.RunTo P db p) : Intake.RunTo P db p.intake := by
  refine h.map Wires.intake fun l p p' _ hs => ?_
  rcases wires_cases hs with ⟨il, q, -, hq, rfl⟩ | ⟨c, d, results, hd, hev, hnone, rfl⟩
  · exact .tail .refl trivial hq
  · have hwrites := intake_server (.inl ⟨_, rfl⟩) hd hnone
      (afterWrites_step (P := P) (p := p.pipes) hd hev results)
    have hwritten : Reach (Intake.step P) (fun _ _ => True) p.intake
        { p.intake with server := p.pipes.afterWrites c d results } := .tail .refl trivial hwrites
    have hclose := afterWrites_close (P := P) (p := p.pipes) hd hev results
    have hend : (p.pipes.write c d results).server = p.pipes.afterWrites c d results ∨
        step P (.drop c) (p.pipes.afterWrites c d results) = some (p.pipes.write c d results).server := by
      rw [Pipes.write]
      split_ifs
      · exact .inr hclose
      · exact .inl rfl
    rcases hend with heq | hdrop
    · rw [Wires.write, heq]
      exact hwritten
    · exact hwritten.tail trivial
        (intake_server (p := { p.intake with server := p.pipes.afterWrites c d results }) (.inr rfl) hd hnone hdrop)

/-- A `handle_read` leaves the server as it is, takes off a packet, or closes the connection. -/
theorem server_handleRead {p p' : Intake} {l : IntakeLabel} (hl : ∀ sl, l ≠ .server sl)
    (hs : Intake.step P l p = some p') : p'.server = p.server ∨
      ∃ sl, (∀ c n, sl ≠ .write c n) ∧ p.server.adds sl = none ∧ p.server.delivers sl = none ∧
        step P sl p.server = some p'.server := by
  have hleave : ∀ {q q' : Intake} {c : ℕ} {d : Conn}, q.leave P c d = some q' → q.server = p.server →
      ∃ sl, (∀ c n, sl ≠ .write c n) ∧ p.server.adds sl = none ∧ p.server.delivers sl = none ∧
        step P sl p.server = some q'.server := by
    intro q q' c d hq heq
    obtain ⟨s', hs', rfl⟩ := leave_cases hq
    rw [heq] at hs'
    exact ⟨.drop c, fun _ _ e => (by cases e), rfl, rfl, hs'⟩
  cases l with
  | server sl => exact absurd rfl (hl sl)
  | receive c results =>
      simp only [Intake.step] at hs
      split at hs
      · cases hs
      split_ifs at hs
      · exact .inr (hleave hs rfl)
      · obtain rfl := Option.some.inj hs
        exact .inl rfl
  | parse c =>
      simp only [Intake.step] at hs
      split at hs
      · cases hs
      split_ifs at hs
      rcases turn_cases hs with ⟨-, rfl⟩ | hq | ⟨hdr, body, rest, s', -, hs', rfl⟩
      · exact .inl rfl
      · exact .inr (hleave hq rfl)
      · exact .inr ⟨.read c hdr body, fun _ _ e => (by cases e), rfl, rfl, hs'⟩

theorem server_of_intake {p q : Intake} {sl : Label} (hs : Intake.step P (.server sl) p = some q) :
    step P sl p.server = some q.server := by
  cases sl with
  | read => cases hs
  | _ =>
      simp only [Intake.step] at hs
      split_ifs at hs
      obtain ⟨s', hs', rfl⟩ := Option.map_eq_some_iff.mp hs
      exact hs'

theorem pipesRun_of_wires {p : Wires} (h : Wires.RunTo P db p) : Pipes.RunTo P db p.pipes := by
  refine h.map Wires.pipes fun l p p' _ hs => ?_
  have hserver : ∀ sl s', (∀ c n, sl ≠ .write c n) → step P sl p.pipes.server = some s' →
      Pipes.step P (.server sl) p.pipes = some ⟨s', p.pipes.watch P sl, p.written⟩ := by
    intro sl s' hsl hs'
    cases sl with
    | write c n => exact absurd rfl (hsl c n)
    | _ => simp only [Pipes.step, hs', Option.map_some]; rfl
  rcases wires_cases hs with ⟨il, q, hil, hq, rfl⟩ | ⟨c, d, results, hd, hev, hnone, rfl⟩
  · by_cases hl : ∃ sl, il = .server sl
    · obtain ⟨sl, rfl⟩ := hl
      exact .tail .refl trivial (hserver sl _ (fun c n e => hil c n (congrArg _ e)) (server_of_intake hq))
    · have hquiet : p.watch P il = p.epollOut := by
        cases il with
        | server sl => exact absurd ⟨sl, rfl⟩ hl
        | receive | parse => rfl
      rcases server_handleRead (fun sl e => hl ⟨sl, e⟩) hq with heq | ⟨sl, hsl, hadds, hdelivers, hs'⟩
      · have hsame : Wires.pipes { p with intake := q, epollOut := p.watch P il } = p.pipes := by
          rw [Wires.pipes, heq, hquiet]
          rfl
        rw [hsame]
        exact .refl
      · have hwatch : p.pipes.watch P sl = p.epollOut := by
          rw [Pipes.watch, show p.pipes.server.adds sl = none from hadds,
            show p.pipes.server.delivers sl = none from hdelivers]
          rfl
        have hstep := hserver sl _ hsl hs'
        rw [hwatch, ← hquiet] at hstep
        exact .tail .refl trivial hstep
  · have hstep : Pipes.step P (.handleWrite c results) p.pipes = some (p.pipes.write c d results) := by
      simp only [Pipes.step, show p.pipes.server.net.conns c = some d from hd]
      exact if_pos hev
    exact .tail .refl trivial hstep

/-! ## End to end -/

/-- A packet is in the bytes that a client has sent on a connection. -/
def Wires.Sends (p : Wires) (c : ℕ) (hdr : PacketHeader) (body : Bytes) : Prop :=
  (hdr, body) ∈ (parseStream (p.intake.arrived c)).1

theorem sends_of_received {p : Wires} (h : Wires.RunTo P db p) {o : Origin} {hdr : PacketHeader} {body : Bytes}
    (hr : .received o hdr body ∈ p.intake.server.log) : p.Sends o.conn hdr body := by
  refine (packets_front (intakeRun_of_wires h) o.conn).subset ?_
  rw [packetsOn, List.mem_reverse, List.mem_filterMap]
  exact ⟨_, hr, if_pos rfl⟩

/-- A chat message is in the bytes that a client has sent on a connection, and the server has received it
there, with this context. -/
def Wires.Says (P : Params) (p : Wires) (o : Origin) (msg : ChatMessage) : Prop :=
  ∃ hdr body, p.Sends o.conn hdr body ∧ .received o hdr body ∈ p.intake.server.log ∧
    hdr.cmd = CmdType.chat.code ∧ P.codec.parseChatMessage body = some msg

theorem says_of_received {p : Wires} (h : Wires.RunTo P db p) {o : Origin} {hdr : PacketHeader} {body : Bytes}
    {msg : ChatMessage} (hr : .received o hdr body ∈ p.intake.server.log)
    (hc : hdr.cmd = CmdType.chat.code) (hp : P.codec.parseChatMessage body = some msg) : p.Says P o msg :=
  ⟨hdr, body, sends_of_received h hr, hr, hc, hp⟩

/-- What a client hears: the body of a `CHAT` packet that it takes out of its connection. -/
inductive Heard (P : Params) (db : Store) (p : Wires) : Bytes → Prop
  | said (o : Origin) (msg : ChatMessage) (fromUid : Int) (hs : p.Says P o msg)
      (hv : fromUid = 0 ∨ Vouched P p.intake.server.log o.ctx fromUid) :
      Heard P db p (P.codec.serializeChatMessage { msg with fromUid := fromUid })
  | old (m : DBChatMessage) (now : Int) (hm : m.payload ∈ db.texts) :
      Heard P db p (P.codec.serializeChatMessage
        { fromUid := m.fromUid, toUid := m.toUid, content := m.content, timestamp := now })
  | kept (o : Origin) (msg : ChatMessage) (fromUid now : Int) (hs : p.Says P o msg)
      (hv : fromUid = 0 ∨ Vouched P p.intake.server.log o.ctx fromUid) :
      Heard P db p (P.codec.serializeChatMessage
        { fromUid := fromUid, toUid := msg.toUid, content := msg.content, timestamp := now })
  | answered (o : Origin) (msg : ChatMessage) (uid : Int) (chunk : Bytes) (isLast : Bool)
      (streamSeq now : Int) (hs : p.Says P o msg) (h9 : msg.toUid = 9999)
      (hv : uid = 0 ∨ Vouched P p.intake.server.log o.ctx uid) :
      Heard P db p (P.codec.serializeChatMessage (chunkMessage uid chunk isLast streamSeq now))

theorem Sample.exists_wiresRun (ls : List WiresLabel) (q : Wires → Prop)
    (h : ∃ p ∈ runAll (Wires.step params) (fun _ _ => True) ls (Wires.init params Sample.db), q p) :
    ∃ p, Wires.RunTo params Sample.db p ∧ q p :=
  exists_reach ls h

/-- A packet that arrives in two pieces. -/
def Sample.arrive (c : ℕ) (cmd : CmdType) (body : Bytes) : List WiresLabel :=
  let packet := (header cmd body 1).toBytes ++ body
  [.intake (.receive c [.bytes (packet.take 9), .again]), .intake (.parse c),
    .intake (.receive c [.bytes (packet.drop 9), .again]), .intake (.parse c), .intake (.parse c)]

end AuraChat

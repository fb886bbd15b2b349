import AuraChat.Model.Sample
import AuraChat.Server.Trace

set_option autoImplicit false

/-!
# Isolation of replies and streams

A packet for the requester is addressed to a context, and goes to whichever connection holds the
context when its functor runs. If the requester's connection has been closed and its context handed
out again, that is a stranger (`reply_to_stranger`). When the requester's connection is still there,
or the context is free, the packet goes home or is dropped.

* `Frame.Own`, `Purpose.toRequester`: the packets for the requester's own context;
* `RoutesHome`: the condition on a step;
* `Isolated`, **`own_frames_isolated`**.
-/

namespace AuraChat

open Interleave

variable {P : Params} {db : Store} {s s' : State} {l : Label}

/-- The frame is queued to the context of the request that it is made for. -/
def Frame.Own (f : Frame) : Prop := f.ctx = f.origin.ctx

instance (f : Frame) : Decidable f.Own := by unfold Frame.Own; infer_instance

/-- Acknowledgements, lists, stored messages, chunks of a stream and its error responses. -/
def Purpose.toRequester : Purpose → Bool
  | .reply | .offline _ | .chunk => true
  | .forward _ | .notify _ => false

/-- A step that sends a frame to the context of its request does so while the connection of the
request is not closed to the end, or while no connection has the context. -/
def RoutesHome (l : Label) (s : State) : Prop :=
  ∀ f ∈ s.sends l, f.Own →
    (∃ d ∈ s.net.conns f.origin.conn, d.phase ≠ .closed) ∨ (s.net.ctxs f.ctx).fd < 0

instance (l : Label) (s : State) : Decidable (RoutesHome l s) := by
  unfold RoutesHome; infer_instance

/-- The frames for a requester have the context of the request, and have gone to its connection. -/
structure Isolated (s : State) : Prop where
  queued : ∀ w, ∀ g ∈ (s.net.workers w).queue, ∀ f, g.job = .send f → f.why.toRequester = true → f.Own
  appended : ∀ c f uid, .appended c f uid ∈ s.log →
    (f.why.toRequester = true → f.Own) ∧ (f.Own → c = f.origin.conn)

theorem isolated_init : Isolated (State.init P db) where
  queued w g hg := by simp [State.init] at hg
  appended _ _ _ h := by cases h

theorem own_of_guard {t : Task} {h : List (Event Reply)} {x : ℕ} {cmd : CmdType} {seq : UInt32}
    {body : Bytes} {why : Purpose} (hg : Guard P t h (.queueSendPacket x cmd seq body why))
    (hw : why.toRequester = true) : x = t.origin.ctx := by
  cases why with
  | reply => exact hg
  | chunk => exact hg
  | offline id => exact hg.1
  | forward _ => cases hw
  | notify _ => cases hw

theorem isolated_move (hwf : s.net.WF P) (ht : Traced P s) (hi : Isolated s) (hC : RoutesHome l s)
    (h : Move P s l s') : Isolated s' := by
  refine ⟨fun w g hg f hjob hw => ?_, fun c f uid ha => ?_⟩
  · rcases move_queue h hg with hg | ⟨-, hnew⟩
    · exact hi.queued w g hg f hjob hw
    · rw [hjob] at hnew
      cases hnew with
      | send o x cmd seq body why hn =>
          obtain ⟨i, e, t, -, -, rfl, hguard⟩ := ht.next_guard hn
          exact own_of_guard hguard hw
      | expire req _ hr ho hx hy => exact hx.trans (congrArg _ ho).symm
  · rcases move_appended h ha with ha | ⟨w, num, rest, d, rfl, hb, hq, hacc, -⟩
    · exact hi.appended c f uid ha
    have hmem : (⟨num, .send f⟩ : Functor) ∈ (s.net.workers w).queue := by simp [Worker.queue, hq]
    refine ⟨hi.queued w _ hmem f rfl, fun hown => ?_⟩
    obtain ⟨hd, hp, hx⟩ := accepts_eq hwf hb hq hacc
    obtain ⟨e, he, hex⟩ := ht.conn_of_received (ht.frame w _ hmem f rfl)
    rcases hC f (by simp [State.sends, hq]) hown with ⟨e', he', hl⟩ | hfd
    · -- the connection of the request still has the context
      obtain rfl : e = e' := Option.some.inj (he.symm.trans he')
      exact hwf.ctx_inj c d _ e hd he (Conn.holds_of_opened hp).live hl
        (hx.trans (hown.trans hex.symm))
    · -- an open connection has a descriptor
      rw [← hx, hwf.ctx_fd c d hd (Conn.holds_of_opened hp).live] at hfd
      exact absurd (hwf.fd_nonneg c d hd) (by omega)

/-- **Isolation.** In a run in which a requester's packet is sent only while its connection is still
there or its context is free, each such packet that is appended to a send buffer is appended to that
of the connection on which the request was received. -/
theorem own_frames_isolated (h : RunTo P db RoutesHome s) (c : ℕ) (f : Frame) (uid : Int)
    (ha : .appended c f uid ∈ s.log) :
    (f.why.toRequester = true → f.Own) ∧ (f.Own → c = f.origin.conn) := by
  have hi : Isolated s := run_invariant h Isolated isolated_init
    fun _ _ _ hr hwf hC hi hm => isolated_move hwf (traced_of_run hr) hi hC hm
  exact hi.appended c f uid ha

/-- A heartbeat is answered on its connection. -/
theorem own_frames_isolated_sample : ∃ s, RunTo Sample.params Sample.db RoutesHome s ∧
    ∃ f uid, .appended 0 f uid ∈ s.log ∧ f.why = .reply ∧ f.Own ∧ 0 = f.origin.conn := by
  obtain ⟨s, hr, ⟨c, f, uid⟩, hm, hc, hw⟩ := Sample.exists_run RoutesHome
    (Sample.connect 5 ++ [Sample.packet 0 .heartbeat []] ++ Sample.work 0 2 ++
      [.swap 0, .functor 0])
    (fun s => ∃ a ∈ appends s.log, a.1 = 0 ∧ a.2.1.why = .reply) (by decide)
  obtain rfl : c = 0 := hc
  obtain ⟨h1, h2⟩ := own_frames_isolated hr 0 f uid (mem_appends.mp hm)
  have hown := h1 (by rw [show f.why = .reply from hw]; rfl)
  exact ⟨s, hr, f, uid, mem_appends.mp hm, hw, hown, h2 hown⟩

/-- The reply to a heartbeat is queued after its connection has been closed and its context has been
handed to the next connection, which receives the reply. -/
theorem reply_to_stranger : ∃ s, RunTo Sample.params Sample.db (fun _ _ => True) s ∧
    ∃ f uid, .appended 1 f uid ∈ s.log ∧ f.why = .reply ∧ f.Own ∧ f.origin.conn = 0 := by
  obtain ⟨s, hr, ⟨c, f, uid⟩, hm, hc, hw⟩ := Sample.exists_run (fun _ _ => True)
    (Sample.connect 5 ++ [Sample.packet 0 .heartbeat []] ++ Sample.work 0 1 ++
      Sample.disconnect 0 false ++ Sample.connect 5 ++ [.thread 0 {}, .swap 0, .functor 0])
    (fun s => ∃ a ∈ appends s.log, a.1 = 1 ∧ a.2.1.why = .reply ∧ a.2.1.Own ∧ a.2.1.origin.conn = 0)
    (by decide)
  obtain rfl : c = 1 := hc
  exact ⟨s, hr, f, uid, mem_appends.mp hm, hw⟩

end AuraChat

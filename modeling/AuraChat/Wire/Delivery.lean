import AuraChat.Safety.Provenance
import AuraChat.Wire.Framing
import AuraChat.Wire.Gaps

set_option autoImplicit false

/-!
# What a client takes out of its connection

The bytes that a client has received are a part of those that were written to its socket, and the writes stop
anywhere when a connection closes. What `receive_loop` takes out of them are the first packets that were
accepted for the connection.

* `Cut`, `cut_of_run`: what was written on a connection, open or closed, is the front of its packets;
* `receiveLoop_front`: a client that has received the front of a stream of packets;
* **`client_sees`**: the packets that a client takes out, and where its chat messages come from.
-/

namespace AuraChat

open Interleave Stream

variable {P : Params} {db : Store} {s' : State} {l : Label}

/-! ## What is written -/

/-- What was written are the first bytes of the accepted packets, which fit into a send buffer. -/
structure Cut (P : Params) (written : Bytes) (frames : List Frame) : Prop where
  front : written <+: frames.flatMap Net.packetBytes
  fits : ∀ f ∈ frames, (Net.packetBytes f).length ≤ P.cfg.maxSendBuf

theorem Cut.concat {written : Bytes} {frames : List Frame} {f : Frame} (h : Cut P written frames)
    (hf : (Net.packetBytes f).length ≤ P.cfg.maxSendBuf) : Cut P written (frames ++ [f]) where
  front := by
    rw [List.flatMap_append]
    exact h.front.trans (List.prefix_append _ _)
  fits g hg := by
    rcases List.mem_append.mp hg with hg | hg
    · exact h.fits g hg
    · rwa [List.mem_singleton.mp hg]

theorem cut_server {p : Pipes} (h : SendStep P p.server l s') {c : ℕ}
    (hc : Cut P (p.written c) (acceptedFrames c p.server.log)) :
    Cut P (p.written c) (acceptedFrames c s'.log) := by
  cases h with
  | kept hk ha hr => rwa [acceptedFrames_congr hk.log]
  | sent c' d f ha hv hd ho hf hnet hs hlog =>
      obtain ⟨uid, hlog⟩ := hlog
      rw [acceptedFrames_cons hlog]
      split_ifs
      · exact hc.concat (Nat.le_trans (Nat.le_add_left _ _) hf)
      · exact hc
  | opens w fd x ha hx hy hnew hn hs hsx hlog => rwa [acceptedFrames_congr hlog]
  | released c' d ha hv hd ho hx hnet hs hsx hlog => rwa [acceptedFrames_congr hlog]

theorem cut_step {p p' : Pipes} {l : PipesLabel} (hwf : p.server.net.WF P) (hp : Piped P p)
    (h : ∀ c, Cut P (p.written c) (acceptedFrames c p.server.log)) (hs : Pipes.step P l p = some p') :
    ∀ c, Cut P (p'.written c) (acceptedFrames c p'.server.log) := by
  rcases pipes_cases hs with ⟨sl, s', hsl, hs', rfl⟩ | ⟨c₀, results, d, hd, hev, rfl⟩
  · exact fun c => cut_server (sendStep_of_move hwf (move_of_step hwf hs') hsl) (h c)
  · -- the packets are the same, and the buffer of the connection holds those not written
    have hflow := (piped_afterWrites hwf hp hd hev.1 results).flow c₀ d hd hev.1
    have hlog : appends (p.write c₀ d results).server.log = appends p.server.log := by
      rw [Pipes.write]
      split_ifs
      · exact appends_forceClose _ _ _ _
      · rfl
    intro c
    rw [acceptedFrames_congr hlog]
    refine ⟨?_, (h c).fits⟩
    show Function.update p.written c₀ _ c <+: _
    by_cases hc : c = c₀
    · subst hc
      have hbytes := hflow.bytes
      change Function.update p.written c _ c ++ _ = _ at hbytes
      exact ⟨_, hbytes⟩
    · rw [Function.update_of_ne hc]
      exact (h c).front

theorem cut_of_run {p : Pipes} (h : Pipes.RunTo P db p) (c : ℕ) :
    Cut P (p.written c) (acceptedFrames c p.server.log) :=
  h.invariant_reach (fun p => ∀ c, Cut P (p.written c) (acceptedFrames c p.server.log))
    (fun _ => ⟨List.prefix_rfl, fun _ hf => (List.not_mem_nil hf).elim⟩)
    (fun _ _ _ hr _ hc hs => cut_step (wf_of_run (run_of_pipesRun hr)) (piped_of_run hr) hc hs) c

/-! ## What is taken out -/

/-- A packet as the client sees it: its command and its body. -/
def Frame.seen (f : Frame) : UInt32 × Bytes := (f.cmd.code, f.body)

theorem packetBytes_eq (f : Frame) : Net.packetBytes f = packetOf f.cmd.code f.seq f.body := rfl

theorem drain_frames {frames : List Frame} (h : ∀ f ∈ frames, (Net.packetBytes f).length < uint32Size) :
    receiveDecoder.drain (frames.flatMap Net.packetBytes) = ⟨frames.map Frame.seen, [], false⟩ := by
  refine Decoder.drain_encodeAll Frame.seen frames (fun f hf more => ?_) rfl
  have hbody : f.body.length < uint32Size - headerSize := by
    have hlen := h f hf
    rw [packetBytes_eq, packetOf, List.length_append, length_toBytes] at hlen
    omega
  rw [packetBytes_eq]
  exact receiveNext_packet f.cmd.code f.seq hbody more

/-- **The front of a stream of packets.** However it is cut into results of `recv`, the client takes out the
first packets, and all of them once it has all of the stream. -/
theorem receiveLoop_front {frames : List Frame}
    (hfits : ∀ f ∈ frames, (Net.packetBytes f).length < uint32Size) {recvs : List Bytes}
    (hne : ∀ r ∈ recvs, r ≠ []) (hfront : recvs.flatten <+: frames.flatMap Net.packetBytes) :
    (receiveLoop (recvs.map .bytes)).failed = false ∧
      (receiveLoop (recvs.map .bytes)).emitted <+: frames.map Frame.seen ∧
      (recvs.flatten = frames.flatMap Net.packetBytes →
        (receiveLoop (recvs.map .bytes)).emitted = frames.map Frame.seen) := by
  obtain ⟨more, hmore⟩ := hfront
  have hall := drain_frames hfits
  have hgoes : (receiveDecoder.drain recvs.flatten).failed = false := by
    by_contra hf
    have hfailed := Decoder.drain_append_failed recvs.flatten more (eq_true_of_ne_false hf)
    rw [hmore, hall] at hfailed
    cases hfailed
  have hloop : receiveLoop (recvs.map .bytes) = receiveDecoder.drain recvs.flatten := by
    rw [receiveLoop, foldl_receiveStep_bytes recvs hne,
      Decoder.feed_eq_drain recvs ⟨[], [], false⟩ rfl rfl (by rwa [List.nil_append])]
    rfl
  have happend := Decoder.drain_append recvs.flatten more hgoes
  rw [hmore, hall] at happend
  rw [hloop]
  refine ⟨hgoes, ⟨_, (congrArg Outcome.emitted happend).symm⟩, fun e => ?_⟩
  rw [e, hall]

theorem fits_of_run {p : Pipes} (h : Pipes.RunTo P db p) (hmax : P.cfg.maxSendBuf < uint32Size) (c : ℕ) :
    ∀ f ∈ acceptedFrames c p.server.log, (Net.packetBytes f).length < uint32Size :=
  fun f hf => Nat.lt_of_le_of_lt ((cut_of_run h c).fits f hf) hmax

theorem appended_of_emitted {p : Pipes} (h : Pipes.RunTo P db p) (hmax : P.cfg.maxSendBuf < uint32Size)
    {c : ℕ} {recvs : List Bytes} (hne : ∀ r ∈ recvs, r ≠ []) (hfront : recvs.flatten <+: p.written c)
    {body : Bytes} (hbody : (CmdType.chat.code, body) ∈ (receiveLoop (recvs.map .bytes)).emitted) :
    ∃ f uid, f ∈ acceptedFrames c p.server.log ∧ .appended c f uid ∈ p.server.log ∧ f.cmd = .chat ∧
      f.body = body := by
  have htaken := (receiveLoop_front (fits_of_run h hmax c) hne (hfront.trans (cut_of_run h c).front)).2.1
  obtain ⟨f, hf, hseen⟩ := List.mem_map.mp (htaken.subset hbody)
  obtain ⟨hcode, hbody⟩ := Prod.mk.inj hseen
  have hcmd : f.cmd = .chat := by
    cases hf : f.cmd <;> rw [hf] at hcode <;> first | rfl | exact absurd hcode (by decide)
  have happ : ∃ uid, .appended c f uid ∈ p.server.log := by
    obtain ⟨⟨c', f', uid⟩, ha, rfl⟩ := List.mem_map.mp hf
    obtain ⟨hlog, hc⟩ := List.mem_filter.mp (List.mem_reverse.mp ha)
    obtain rfl : c' = c := of_decide_eq_true hc
    exact ⟨uid, mem_appends.mp hlog⟩
  obtain ⟨uid, happ⟩ := happ
  exact ⟨f, uid, hf, happ, hcmd, hbody⟩

end AuraChat

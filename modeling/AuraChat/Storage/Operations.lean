import AuraChat.Model.Files

set_option autoImplicit false

/-!
# What an operation does

Each operation of the store either finds nothing to do or changes the tables in one way, and saves
the files of the tables that it has changed. Only an accepted request from a negative uid is marked in
memory and not saved.

* `acceptLoop_none`, `acceptLoop_some`, `acceptLoop_split`: the request that is accepted;
* `StoreOp.pair`: the pair of friends that an operation stores;
* `StoreOp.Outcome`, **`StoreOp.outcome`**: what an operation changes and saves;
* `forall_friendReqs_apply`: what operations keep of all requests.
-/

namespace AuraChat

/-! ## Accepting a request -/

theorem acceptLoop_none {rid uid : Int} {reqs : List FileFriendRequest}
    (h : reqs.find? (Store.pendingFor rid uid) = none) :
    Store.acceptLoop rid uid reqs = (-1, reqs) := by
  induction reqs with
  | nil => rfl
  | cons r rs ih =>
      rw [List.find?_cons] at h
      split at h
      · cases h
      · rename_i hr
        simp only [Store.acceptLoop, hr, Bool.false_eq_true, if_false, ih h]

/-- The request that is accepted gets another status. -/
theorem acceptLoop_some {rid uid : Int} {reqs : List FileFriendRequest} {r : FileFriendRequest}
    (h : reqs.find? (Store.pendingFor rid uid) = some r) :
    (Store.acceptLoop rid uid reqs).1 = r.fromUid ∧ (Store.acceptLoop rid uid reqs).2 ≠ reqs := by
  induction reqs with
  | nil => cases h
  | cons r' rs ih =>
      rw [List.find?_cons] at h
      split at h
      · rename_i hr
        obtain rfl := Option.some.inj h
        simp only [Store.acceptLoop, hr, if_true, true_and]
        intro e
        have hstatus : r'.status = 1 := (congrArg FileFriendRequest.status (List.cons.inj e).1).symm
        simp [Store.pendingFor, hstatus] at hr
      · rename_i hr
        obtain ⟨h1, h2⟩ := ih h
        simp only [Store.acceptLoop, hr, Bool.false_eq_true, if_false]
        exact ⟨h1, fun e => h2 (List.cons.inj e).2⟩

/-- Only the request that is accepted changes, and only its status. -/
theorem acceptLoop_split {rid uid : Int} {reqs : List FileFriendRequest} {r : FileFriendRequest}
    (h : reqs.find? (Store.pendingFor rid uid) = some r) :
    ∃ pre post, reqs = pre ++ r :: post ∧
      (Store.acceptLoop rid uid reqs).2 = pre ++ { r with status := 1 } :: post := by
  induction reqs with
  | nil => cases h
  | cons r' rs ih =>
      rw [List.find?_cons] at h
      split at h
      · rename_i hr
        obtain rfl := Option.some.inj h
        exact ⟨[], rs, rfl, by simp only [Store.acceptLoop, hr, if_true, List.nil_append]⟩
      · rename_i hr
        obtain ⟨pre, post, rfl, hloop⟩ := ih h
        exact ⟨r' :: pre, post, rfl, by
          simp only [Store.acceptLoop, hr, Bool.false_eq_true, if_false, hloop, List.cons_append]⟩

theorem mem_acceptLoop {rid uid : Int} {reqs : List FileFriendRequest} {r : FileFriendRequest}
    (h : r ∈ (Store.acceptLoop rid uid reqs).2) :
    ∃ r' ∈ reqs, r.fromUid = r'.fromUid ∧ r.toUid = r'.toUid := by
  induction reqs with
  | nil => cases h
  | cons r' rs ih =>
      simp only [Store.acceptLoop] at h
      split_ifs at h
      · rcases List.mem_cons.mp h with rfl | h
        · exact ⟨r', List.mem_cons_self, rfl, rfl⟩
        · exact ⟨r, List.mem_cons_of_mem _ h, rfl, rfl⟩
      · rcases List.mem_cons.mp h with rfl | h
        · exact ⟨r, List.mem_cons_self, rfl, rfl⟩
        · obtain ⟨r'', hr, he⟩ := ih h
          exact ⟨r'', List.mem_cons_of_mem _ hr, he⟩

/-- The pair that an operation stores: that of the request it accepts. -/
def StoreOp.pair (st : Store) : StoreOp → Option (Int × Int)
  | .acceptFriendRequest rid uid => match st.friendReqs.find? (Store.pendingFor rid uid) with
    | some r => if 0 ≤ r.fromUid then some (min r.fromUid uid, max r.fromUid uid) else none
    | none => none
  | _ => none

/-! ## Outcomes -/

/-- What an operation saves and what it leaves. -/
inductive StoreOp.Outcome (st : Store) : StoreOp → List FileName → Store → Prop
  | same (op : StoreOp) (hp : op.pair st = none) : Outcome st op [] st
  | register (u p hash : String) : Outcome st (.registerUser u p) [.users] { st with
      nextUid := st.nextUid + 1
      users := st.users ++ [⟨st.nextUid, u, hash⟩] }
  | request (a b : Int) (msg : String) : Outcome st (.addFriendRequest a b msg) [.friendRequests]
      { st with
        nextReqId := st.nextReqId + 1
        friendReqs := st.friendReqs ++ [⟨st.nextReqId, a, b, msg, 0⟩] }
  | accept (rid uid : Int) (r : FileFriendRequest)
      (hr : st.friendReqs.find? (Store.pendingFor rid uid) = some r) (h0 : 0 ≤ r.fromUid) :
      Outcome st (.acceptFriendRequest rid uid) [.friendRequests, .friends] { st with
        friendReqs := (Store.acceptLoop rid uid st.friendReqs).2
        friends := st.friends ++ [(min r.fromUid uid, max r.fromUid uid)] }
  | slip (rid uid : Int) (r : FileFriendRequest)
      (hr : st.friendReqs.find? (Store.pendingFor rid uid) = some r) (h0 : r.fromUid < 0) :
      Outcome st (.acceptFriendRequest rid uid) []
        { st with friendReqs := (Store.acceptLoop rid uid st.friendReqs).2 }
  | mark (uid maxId : Int) :
      Outcome st (.markDelivered uid maxId) [.messages] (st.markDelivered uid maxId)
  | submit (m : DBChatMessage) : Outcome st (.submit m) [] (st.submit m)
  | drain (hb : st.batch = []) : Outcome st .drain [] st.drain
  | flush (hb : st.batch ≠ []) : Outcome st .flush [.messages] (st.flush true)

theorem StoreOp.outcome (hash : String → String) (st : Store) (op : StoreOp) :
    op.Outcome st (op.saves st) (op.apply hash st) := by
  cases op with
  | registerUser u p =>
      simp only [saves, apply, Store.registerUser]
      split_ifs
      · exact .same _ rfl
      · exact .register u p (hash p)
  | addFriendRequest a b msg =>
      simp only [saves, apply, Store.addFriendRequest]
      split_ifs
      · exact .same _ rfl
      · exact .same _ rfl
      · exact .request a b msg
  | acceptFriendRequest rid uid =>
      simp only [saves, apply, Store.acceptFriendRequest]
      cases hr : st.friendReqs.find? (Store.pendingFor rid uid) with
      | none =>
          simp only [acceptLoop_none hr]
          exact .same _ (by simp only [pair, hr])
      | some r =>
          rw [(acceptLoop_some hr).1]
          split_ifs with h0
          · exact .slip rid uid r hr h0
          · exact .accept rid uid r hr (Int.not_lt.mp h0)
  | markDelivered uid maxId => exact .mark uid maxId
  | submit m => exact .submit m
  | drain =>
      simp only [saves, apply]
      split_ifs with hb
      · exact .drain hb
      · exact .same _ rfl
  | flush =>
      simp only [saves, apply]
      split_ifs with hb
      · exact .same _ rfl
      · exact .flush hb
  | query => exact .same _ rfl

/-- What holds of the users of every request that is added keeps holding of all requests. -/
theorem forall_friendReqs_apply {hash : String → String} {st : Store} {op : StoreOp}
    {K : Int → Int → Prop} (hop : ∀ a b msg, op = .addFriendRequest a b msg → K a b)
    (h : ∀ r ∈ st.friendReqs, K r.fromUid r.toUid) :
    ∀ r ∈ (op.apply hash st).friendReqs, K r.fromUid r.toUid := by
  have ho := op.outcome hash st
  generalize op.apply hash st = st', op.saves st = names at ho ⊢
  cases ho with
  | request a b msg =>
      exact List.forall_mem_append.mpr ⟨h, List.forall_mem_singleton.mpr (hop a b msg rfl)⟩
  | accept | slip =>
      intro r hr
      obtain ⟨r', hr', hfrom, hto⟩ := mem_acceptLoop hr
      rw [hfrom, hto]
      exact h r' hr'
  | flush hb =>
      simp only [Store.flush, Bool.or_true, if_true]
      exact h
  | same | register | mark | submit | drain => exact h

end AuraChat

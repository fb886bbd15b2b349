import AuraChat.Storage.Restarts

set_option autoImplicit false

/-!
# Friend requests

A request is added with status 0, and `accept_friend_request` changes the status of one request to 1 and
stores its pair of users. So the friendships are those of the accepted requests, over any operations and
restarts.

* `Store.RequestsSound`: the ids, the pending requests and the friendships;
* `RequestStep`: what a step does to a request;
* `requests_run`: an operation keeps the former and does the latter;
* **`requests_sound`**.
-/

namespace AuraChat

open Interleave

variable {J : JsonLib} {hash : String → String} {st : Store} {d : Disk} {op : StoreOp}

/-! ## The law -/

/-- A request from `a` to `b` that waits for an answer. -/
def FileFriendRequest.pending (a b : Int) (r : FileFriendRequest) : Bool :=
  r.fromUid = a ∧ r.toUid = b ∧ r.status = 0

/-- The pair of users of a request, as it is stored. -/
def FileFriendRequest.users (r : FileFriendRequest) : Int × Int :=
  (min r.fromUid r.toUid, max r.fromUid r.toUid)

/-- The requests that have been accepted. -/
def Store.accepted (st : Store) : List FileFriendRequest := st.friendReqs.filter fun r => r.status = 1

/-- The friend requests of a store and its friendships. -/
structure Store.RequestsSound (st : Store) : Prop where
  /-- The ids are distinct. -/
  ids : (st.friendReqs.map FileFriendRequest.id).Nodup
  /-- The ids are below the counter. -/
  lt : ∀ r ∈ st.friendReqs, r.id < st.nextReqId
  /-- From one user to another at most one request is pending. -/
  pending : ∀ a b, st.friendReqs.countP (FileFriendRequest.pending a b) ≤ 1
  /-- The friendships are those of the accepted requests. -/
  friends : st.friends.Perm (st.accepted.map FileFriendRequest.users)

/-- A request stays as it is, or it is pending and its addressee accepts it. -/
def RequestStep (op : DiskOp) (r r' : FileFriendRequest) : Prop :=
  r' = r ∨ (r.status = 0 ∧ r' = { r with status := 1 } ∧
    op = .run (.acceptFriendRequest r.id r.toUid))

/-- What a step does to the requests: each stays or is accepted, and new ones are pending. -/
def RequestsStep (op : DiskOp) (st st' : Store) : Prop :=
  ∃ kept added, st'.friendReqs = kept ++ added ∧ List.Forall₂ (RequestStep op) st.friendReqs kept ∧
    ∀ r ∈ added, r.status = 0

theorem forall₂_requestStep_refl (op : DiskOp) (l : List FileFriendRequest) :
    List.Forall₂ (RequestStep op) l l :=
  List.forall₂_same.mpr fun _ _ => .inl rfl

theorem requestsStep_same {op : DiskOp} {st' : Store} (h : st'.friendReqs = st.friendReqs) :
    RequestsStep op st st' :=
  ⟨st.friendReqs, [], by rw [h, List.append_nil], forall₂_requestStep_refl op _,
    fun _ hr => absurd hr List.not_mem_nil⟩

theorem Store.RequestsSound.congr {st' : Store} (h : st.RequestsSound)
    (hr : st'.friendReqs = st.friendReqs) (hn : st'.nextReqId = st.nextReqId)
    (hf : st'.friends = st.friends) : st'.RequestsSound where
  ids := by rw [hr]; exact h.ids
  lt := by rw [hr, hn]; exact h.lt
  pending := by rw [hr]; exact h.pending
  friends := by rw [hf, Store.accepted, hr]; exact h.friends

/-! ## Operations -/

/-- A request is added where none from this user to the other is pending. -/
theorem Store.RequestsSound.add {st' : Store} (h : st.RequestsSound) {r : FileFriendRequest}
    (hid : r.id = st.nextReqId) (hstatus : r.status = 0)
    (hnone : ∀ r' ∈ st.friendReqs, ¬ FileFriendRequest.pending r.fromUid r.toUid r')
    (hr : st'.friendReqs = st.friendReqs ++ [r]) (hn : st'.nextReqId = st.nextReqId + 1)
    (hf : st'.friends = st.friends) : st'.RequestsSound := by
  constructor
  case ids =>
    rw [hr, List.map_append, List.map_singleton, (List.perm_append_singleton _ _).nodup_iff,
      List.nodup_cons]
    refine ⟨fun hmem => ?_, h.ids⟩
    obtain ⟨r', hr', he⟩ := List.mem_map.mp hmem
    have hlt := h.lt r' hr'
    omega
  case lt =>
    rw [hr, hn]
    refine List.forall_mem_append.mpr ⟨fun r' hr' => ?_, List.forall_mem_singleton.mpr ?_⟩
    · have hlt := h.lt r' hr'
      omega
    · omega
  case pending =>
    intro a b
    rw [hr, List.countP_append]
    by_cases hab : r.fromUid = a ∧ r.toUid = b
    · obtain ⟨rfl, rfl⟩ := hab
      rw [List.countP_eq_zero.mpr hnone, zero_add]
      exact List.countP_le_length
    · have hother : List.countP (FileFriendRequest.pending a b) [r] = 0 := by
        refine List.countP_eq_zero.mpr (List.forall_mem_singleton.mpr ?_)
        simpa [FileFriendRequest.pending, hstatus] using hab
      rw [hother, add_zero]
      exact h.pending a b
  case friends =>
    rw [hf, Store.accepted, hr, List.filter_append, List.filter_cons_of_neg (by simp [hstatus]),
      List.filter_nil, List.append_nil]
    exact h.friends

/-- A pending request is accepted, and its users are friends from then on. -/
theorem Store.RequestsSound.accept {st' : Store} (h : st.RequestsSound) {r : FileFriendRequest}
    {pre post : List FileFriendRequest} (hreqs : st.friendReqs = pre ++ r :: post) (hstatus : r.status = 0)
    (hr : st'.friendReqs = pre ++ { r with status := 1 } :: post) (hn : st'.nextReqId = st.nextReqId)
    (hf : st'.friends = st.friends ++ [r.users]) : st'.RequestsSound := by
  constructor
  case ids =>
    have hids := h.ids
    rw [hreqs] at hids
    rw [hr]
    simpa using hids
  case lt =>
    have hlt := h.lt
    rw [hreqs] at hlt
    obtain ⟨hpre, hpost⟩ := List.forall_mem_append.mp hlt
    obtain ⟨hone, hpost⟩ := List.forall_mem_cons.mp hpost
    rw [hr, hn]
    exact List.forall_mem_append.mpr ⟨hpre, List.forall_mem_cons.mpr ⟨hone, hpost⟩⟩
  case pending =>
    -- one pending request less, perhaps
    intro a b
    refine Nat.le_trans ?_ (h.pending a b)
    have hdone : FileFriendRequest.pending a b { r with status := 1 } = false := by
      simp [FileFriendRequest.pending]
    rw [hr, hreqs, List.countP_append, List.countP_append, List.countP_cons, List.countP_cons, hdone]
    simp only [Bool.false_eq_true, if_false]
    omega
  case friends =>
    have haccepted : st'.accepted = pre.filter (fun r => r.status = 1) ++
        { r with status := 1 } :: post.filter fun r => r.status = 1 := by
      rw [Store.accepted, hr, List.filter_append, List.filter_cons_of_pos (by simp)]
    have hbefore : st.accepted =
        pre.filter (fun r => r.status = 1) ++ post.filter fun r => r.status = 1 := by
      rw [Store.accepted, hreqs, List.filter_append, List.filter_cons_of_neg (by simp [hstatus])]
    rw [hf, haccepted, List.map_append, List.map_cons]
    apply (List.perm_append_singleton _ _).trans
    refine List.Perm.trans ?_ List.perm_middle.symm
    apply List.Perm.cons
    rw [← List.map_append, ← hbefore]
    exact h.friends

/-- `add_friend_request` adds a request unless there is one already. -/
theorem requests_add (h : st.RequestsSound) (a b : Int) (msg : String) :
    (st.addFriendRequest a b msg).2.RequestsSound ∧
      RequestsStep (.run (.addFriendRequest a b msg)) st (st.addFriendRequest a b msg).2 := by
  rw [Store.addFriendRequest]
  split_ifs with hfriends hdup
  · exact ⟨h, requestsStep_same rfl⟩
  · exact ⟨h, requestsStep_same rfl⟩
  · have hnone : ∀ r ∈ st.friendReqs, ¬ FileFriendRequest.pending a b r := by
      intro r hr hp
      refine hdup (List.any_eq_true.mpr ⟨r, hr, ?_⟩)
      simpa [FileFriendRequest.pending, and_assoc] using hp
    refine ⟨?_, st.friendReqs, [_], rfl, forall₂_requestStep_refl _ _, by simp⟩
    exact h.add (r := ⟨st.nextReqId, a, b, msg, 0⟩) rfl rfl hnone rfl rfl rfl

theorem pendingFor_eq {rid uid : Int} {r : FileFriendRequest} (h : Store.pendingFor rid uid r = true) :
    r.id = rid ∧ r.toUid = uid ∧ r.status = 0 := by
  simpa [Store.pendingFor, and_assoc] using h

/-- `accept_friend_request` accepts one request, or none. -/
theorem requests_accept (h : st.RequestsSound) (hs : st.Senders) (rid uid : Int) :
    (st.acceptFriendRequest rid uid).2.RequestsSound ∧
      RequestsStep (.run (.acceptFriendRequest rid uid)) st (st.acceptFriendRequest rid uid).2 := by
  rw [Store.acceptFriendRequest]
  cases hfind : st.friendReqs.find? (Store.pendingFor rid uid) with
  | none =>
      rw [acceptLoop_none hfind]
      exact ⟨h, requestsStep_same rfl⟩
  | some r =>
      obtain ⟨rfl, rfl, hstatus⟩ := pendingFor_eq (List.find?_some hfind)
      have hfrom := (acceptLoop_some hfind).1
      obtain ⟨pre, post, hreqs, hloop⟩ := acceptLoop_split hfind
      have hpos : ¬ r.fromUid < 0 := Int.not_lt.mpr (hs r (List.mem_of_find?_eq_some hfind))
      dsimp only
      rw [hfrom, if_neg hpos, hloop]
      refine ⟨h.accept hreqs hstatus rfl rfl rfl, _, [], (List.append_nil _).symm, ?_, by simp⟩
      rw [hreqs]
      refine List.rel_append (forall₂_requestStep_refl _ pre) ?_
      exact .cons (.inr ⟨hstatus, rfl, rfl⟩) (forall₂_requestStep_refl _ post)

/-- **What an operation does to the requests.** -/
theorem requests_run (h : st.RequestsSound) (hs : st.Senders) (op : StoreOp) :
    (op.apply hash st).RequestsSound ∧ RequestsStep (.run op) st (op.apply hash st) := by
  cases op with
  | addFriendRequest a b msg => exact requests_add h a b msg
  | acceptFriendRequest rid uid => exact requests_accept h hs rid uid
  | registerUser u p =>
      simp only [StoreOp.apply, Store.registerUser]
      split_ifs
      · exact ⟨h, requestsStep_same rfl⟩
      · exact ⟨h.congr rfl rfl rfl, requestsStep_same rfl⟩
  | markDelivered uid maxId => exact ⟨h.congr rfl rfl rfl, requestsStep_same rfl⟩
  | submit m => exact ⟨h.congr rfl rfl rfl, requestsStep_same rfl⟩
  | drain =>
      simp only [StoreOp.apply]
      split_ifs
      · exact ⟨h.congr rfl rfl rfl, requestsStep_same rfl⟩
      · exact ⟨h, requestsStep_same rfl⟩
  | flush =>
      simp only [StoreOp.apply, Store.flush, Bool.or_true, if_true]
      split_ifs
      · exact ⟨h, requestsStep_same rfl⟩
      · exact ⟨h.congr rfl rfl rfl, requestsStep_same rfl⟩
  | query => exact ⟨h, requestsStep_same rfl⟩

/-! ## Runs -/

theorem requestsSound_empty : ({} : Store).RequestsSound where
  ids := List.nodup_nil
  lt _ hr := absurd hr List.not_mem_nil
  pending _ _ := Nat.zero_le 1
  friends := .refl _

theorem requests_step {op : DiskOp} {d' : Disk} (hd : d.Sound J) (h : d.store.RequestsSound)
    (hs : Disk.step J hash op d = some d') : d'.store.RequestsSound ∧ RequestsStep op d.store d'.store := by
  cases op with
  | run op =>
      obtain rfl := Option.some.inj hs
      exact requests_run h hd.senders op
  | restart =>
      rw [restart_eq hd] at hs
      obtain rfl := Option.some.inj hs
      exact ⟨h.congr rfl rfl rfl, requestsStep_same rfl⟩

/-- **The life of a friend request.** Over any operations and restarts from an empty data directory, with
friend requests from non-negative uids: the ids are distinct and below the counter, from one user to another
at most one request is pending, and the friendships are those of the accepted requests; and a step changes
the status of a request only from 0 to 1, when its addressee accepts it. -/
theorem requests_sound (hJ : J.Lawful) (h : Disk.RunTo J hash d) :
    d.store.RequestsSound ∧
      ∀ op d', Disk.step J hash op d = some d' → RequestsStep op d.store d'.store := by
  have hsound : d.store.RequestsSound := by
    refine h.invariant_reach (fun d => d.store.RequestsSound) requestsSound_empty ?_
    exact fun op d d' hr _ hd hs => (requests_step (sound_of_run hJ hr) hd hs).1
  exact ⟨hsound, fun op d' hs => (requests_step (sound_of_run hJ h) hsound hs).2⟩

/-- User 1001 accepts a request of user 1000, and the server restarts. -/
theorem requests_sound_sample : ∃ d, Disk.RunTo JsonText.lib id d ∧ d.store.friends = [(1000, 1001)] ∧
    d.store.RequestsSound := by
  let ask : StoreOp := .addFriendRequest 1000 1001 "hello"
  let accept : StoreOp := .acceptFriendRequest 1 1001
  have hask : (DiskOp.run ask).Fair := by decide
  have haccept : (DiskOp.run accept).Fair := trivial
  have hrun : Disk.RunTo JsonText.lib id
      ((Disk.empty.run JsonText.lib id ask).run JsonText.lib id accept) :=
    .tail (.tail .refl hask rfl) haccept rfl
  have hfair : DiskOp.restart.Fair := trivial
  have hrestart := Reach.tail hrun hfair (restart_eq (sound_of_run JsonText.lib_lawful hrun))
  exact ⟨_, hrestart, rfl, (requests_sound JsonText.lib_lawful hrestart).1⟩

end AuraChat

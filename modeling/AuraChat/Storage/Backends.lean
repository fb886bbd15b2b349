import AuraChat.Lib.Lists
import AuraChat.Model.Tables
import AuraChat.Storage.Friends
import Mathlib.Order.MinMax

set_option autoImplicit false

/-!
# The two friend backends

File mode and MySQL mode implement the friend functions with different means. They agree on every call
until one of them meets something that the other does not: a constraint of a table, a user without a
row, or a string that is cut.

* `FriendOp.Diverges`: the call has different results in the two backends;
* `Mirrors`: the two stores hold the same rows;
* **`FriendOp.agree_iff`**, **`FriendOp.mirrors`**: on stores with the same rows, a call agrees exactly
  if it does not diverge, and then the rows stay the same;
* **`backends_agree_iff`**: a sequence of calls agrees exactly if none of them diverges.
-/

namespace AuraChat

open Interleave

/-! ## Calls that diverge -/

/-- A request as the table stores it. -/
def FileFriendRequest.stored (r : FileFriendRequest) : FileFriendRequest :=
  { r with message := String.ofList (r.message.toList.take 255) }

/-- The join finds the user and reads the name back whole. -/
def Store.Named (st : Store) (uid : Int) : Prop :=
  ∃ u ∈ st.users, u.uid = uid ∧ cString u.username = u.username

instance (st : Store) (uid : Int) : Decidable (st.Named uid) := by unfold Store.Named; infer_instance

/-- The two users are friends already. -/
def Store.Befriended (st : Store) (a b : Int) : Prop := (min a b, max a b) ∈ st.friends

instance (st : Store) (a b : Int) : Decidable (st.Befriended a b) :=
  decidable_of_iff (∃ p ∈ st.friends, p = (min a b, max a b)) (by simp [Store.Befriended])

/-- A request from the one user to the other is pending. -/
def Store.Requested (st : Store) (fromUid toUid : Int) : Prop :=
  ∃ r ∈ st.friendReqs, r.fromUid = fromUid ∧ r.toUid = toUid ∧ r.status = 0

instance (st : Store) (a b : Int) : Decidable (st.Requested a b) := by
  unfold Store.Requested; infer_instance

/-- The call has different results in the two backends: the message of a new request is too long for
its column; the accepted request is one of friends; a friend is the user himself or is not found by the
join; the sender of a request is not found by the join, or its message is cut. -/
def FriendOp.Diverges (st : Store) : FriendOp → Prop
  | .add a b msg => varchar 255 msg = none ∧ ¬ st.Befriended a b ∧ ¬ st.Requested a b
  | .accept rid uid => ∃ r ∈ st.friendReqs, Store.pendingFor rid uid r = true ∧
      st.Befriended r.fromUid uid
  | .friends uid => ∃ v ∈ st.friends.filterMap (friendOf uid), v = uid ∨ ¬ st.Named v
  | .pending uid => ∃ r ∈ st.friendReqs, r.toUid = uid ∧ r.status = 0 ∧
      (¬ st.Named r.fromUid ∨ cString r.stored.message ≠ r.message)

instance (st : Store) : (op : FriendOp) → Decidable (op.Diverges st)
  | .add _ _ _ | .accept _ _ | .friends _ | .pending _ => by unfold FriendOp.Diverges; infer_instance

/-- The uids of a call are not negative. -/
def FriendOp.NonNeg : FriendOp → Prop
  | .add a b _ => 0 ≤ a ∧ 0 ≤ b
  | .accept _ uid | .friends uid | .pending uid => 0 ≤ uid

instance : (op : FriendOp) → Decidable op.NonNeg
  | .add _ _ _ | .accept _ _ | .friends _ | .pending _ => by unfold FriendOp.NonNeg; infer_instance

/-! ## The same rows -/

structure Mirrors (st : Store) (t : FriendTables) : Prop where
  users : t.users = st.users
  friends : t.friends = st.friends
  requests : t.friendRequests = st.friendReqs.map FileFriendRequest.stored
  next : t.nextRequestId = st.nextReqId
  uids : (st.users.map FileUser.uid).Nodup
  sorted : ∀ p ∈ st.friends, p.1 ≤ p.2
  ids : st.friendReqs.Pairwise fun r r' => r.id < r'.id
  fresh : ∀ r ∈ st.friendReqs, r.id < st.nextReqId
  senders : ∀ r ∈ st.friendReqs, 0 ≤ r.fromUid
  positive : 0 < st.nextReqId

variable {st : Store} {t : FriendTables}

theorem Mirrors.eq_of_id (m : Mirrors st t) {r r' : FileFriendRequest} (hr : r ∈ st.friendReqs)
    (hr' : r' ∈ st.friendReqs) (h : r.id = r'.id) : r = r' :=
  List.inj_on_of_nodup_map (List.pairwise_map.mpr (m.ids.imp Int.ne_of_lt)) hr hr' h

/-! ## Adding -/

theorem varchar_eq_some {n : ℕ} {s s' : String} (h : varchar n s = some s') :
    s' = String.ofList (s.toList.take n) := by
  simp only [varchar] at h
  split_ifs at h
  exact (Option.some.inj h).symm

theorem addFriendRequest_files (a b : Int) (msg : String) (st : Store) :
    st.addFriendRequest a b msg = if (min a b, max a b) ∈ st.friends then (-2, st)
      else if st.Requested a b then (-3, st)
      else (st.nextReqId, { st with
        nextReqId := st.nextReqId + 1
        friendReqs := st.friendReqs ++ [⟨st.nextReqId, a, b, msg, 0⟩] }) := by
  simp only [Store.addFriendRequest, Store.Requested, List.any_eq_true, Bool.and_eq_true, beq_iff_eq,
    and_assoc, Prod.exists]
  congr 1
  simp

theorem addFriendRequest_tables (m : Mirrors st t) (a b : Int) (msg : String) :
    t.addFriendRequest a b msg = if (min a b, max a b) ∈ st.friends then (-2, t)
      else if st.Requested a b then (-3, t)
      else match varchar 255 msg with
        | none => (-1, t)
        | some message => (t.nextRequestId, { t with
            nextRequestId := t.nextRequestId + 1
            friendRequests := t.friendRequests ++ [⟨t.nextRequestId, a, b, message, 0⟩] }) := by
  have hf : (t.friends.any fun p => p.1 = min a b ∧ p.2 = max a b) = true ↔
      (min a b, max a b) ∈ st.friends := by
    rw [m.friends]
    simp
  have hr : (t.friendRequests.any fun r => r.fromUid = a ∧ r.toUid = b ∧ r.status = 0) = true ↔
      st.Requested a b := by
    rw [m.requests, List.any_map, List.any_eq_true]
    exact exists_congr fun r => and_congr_right fun _ => decide_eq_true_iff
  simp only [FriendTables.addFriendRequest, hf, hr]
  congr 2
  simp only [FriendTables.insertFriendRequest]
  cases varchar 255 msg <;> rfl

theorem add_agree (m : Mirrors st t) (a b : Int) (msg : String) :
    (st.addFriendRequest a b msg).1 = (t.addFriendRequest a b msg).1 ↔
      ¬ (FriendOp.add a b msg).Diverges st := by
  rw [addFriendRequest_files, addFriendRequest_tables m]
  simp only [FriendOp.Diverges]
  split_ifs with hf hr
  · exact iff_of_true rfl fun h => h.2.1 hf
  · exact iff_of_true rfl fun h => h.2.2 hr
  · have hpos := m.positive
    cases hv : varchar 255 msg with
    | none =>
        refine iff_of_false ?_ fun h => h ⟨rfl, hf, hr⟩
        simp only
        omega
    | some message => exact iff_of_true m.next.symm fun h => by cases h.1

theorem mirrors_add (m : Mirrors st t) {a b : Int} {msg : String} (ha : 0 ≤ a)
    (h : ¬ (FriendOp.add a b msg).Diverges st) :
    Mirrors (st.addFriendRequest a b msg).2 (t.addFriendRequest a b msg).2 := by
  rw [addFriendRequest_files, addFriendRequest_tables m]
  split_ifs with hf hr
  · exact m
  · exact m
  · cases hv : varchar 255 msg with
    | none => exact absurd ⟨hv, hf, hr⟩ h
    | some message =>
        have hpos := m.positive
        refine { m with
          requests := ?_, next := ?_, ids := ?_, fresh := ?_, senders := ?_, positive := ?_ }
        · rw [List.map_append, m.requests, m.next, varchar_eq_some hv]
          rfl
        · exact congrArg (· + 1) m.next
        · refine List.pairwise_append.mpr ⟨m.ids, List.pairwise_singleton _ _, fun r hr r' hr' => ?_⟩
          rw [List.mem_singleton.mp hr']
          exact m.fresh r hr
        · refine List.forall_mem_append.mpr ⟨fun r hr => ?_, List.forall_mem_singleton.mpr ?_⟩
          · exact (m.fresh r hr).trans (Int.lt_succ _)
          · exact Int.lt_succ _
        · exact List.forall_mem_append.mpr ⟨m.senders, List.forall_mem_singleton.mpr ha⟩
        · exact Int.add_pos hpos Int.one_pos

/-! ## Accepting -/

/-- The row after `UPDATE friend_requests`. -/
def FileFriendRequest.accepted (rid : Int) (r : FileFriendRequest) : FileFriendRequest :=
  if r.id = rid then { r with status := 1 } else r

theorem pendingFor_iff {rid uid : Int} {r : FileFriendRequest} :
    Store.pendingFor rid uid r = true ↔ r.id = rid ∧ r.toUid = uid ∧ r.status = 0 := by
  simp only [Store.pendingFor, Bool.and_eq_true, beq_iff_eq, and_assoc]

theorem accepted_id (rid : Int) (r : FileFriendRequest) : (r.accepted rid).id = r.id := by
  unfold FileFriendRequest.accepted
  split_ifs <;> rfl

theorem accepted_fromUid (rid : Int) (r : FileFriendRequest) :
    (r.accepted rid).fromUid = r.fromUid := by
  unfold FileFriendRequest.accepted
  split_ifs <;> rfl

/-- With distinct ids the loop marks the row that the statement updates. -/
theorem acceptLoop_eq_map {rid uid : Int} {reqs : List FileFriendRequest} {r : FileFriendRequest}
    (hids : reqs.Pairwise fun r r' => r.id < r'.id)
    (h : reqs.find? (Store.pendingFor rid uid) = some r) :
    (Store.acceptLoop rid uid reqs).2 = reqs.map (FileFriendRequest.accepted rid) := by
  induction reqs with
  | nil => cases h
  | cons a rs ih =>
      obtain ⟨hlt, hrs⟩ := List.pairwise_cons.mp hids
      rw [List.find?_cons] at h
      split at h
      · rename_i ha
        have hid := (pendingFor_iff.mp ha).1
        have hsame : rs.map (FileFriendRequest.accepted rid) = rs := by
          refine (List.map_congr_left fun b hb => ?_).trans (List.map_id rs)
          exact if_neg (by have := hlt b hb; omega)
        simp only [Store.acceptLoop, ha, if_true, List.map_cons, hsame, FileFriendRequest.accepted,
          hid]
      · rename_i ha
        have hid : a.id ≠ rid := by
          have := hlt r (List.mem_of_find?_eq_some h)
          have := (pendingFor_iff.mp (List.find?_some h)).1
          omega
        simp only [Store.acceptLoop, ha, Bool.false_eq_true, if_false, List.map_cons, ih hrs h,
          FileFriendRequest.accepted, hid]

theorem acceptFriendRequest_files (m : Mirrors st t) (rid uid : Int) :
    st.acceptFriendRequest rid uid = match st.friendReqs.find? (Store.pendingFor rid uid) with
      | none => (-1, st)
      | some r => (r.fromUid, { st with
          friendReqs := st.friendReqs.map (FileFriendRequest.accepted rid)
          friends := st.friends ++ [(min r.fromUid uid, max r.fromUid uid)] }) := by
  simp only [Store.acceptFriendRequest]
  cases hr : st.friendReqs.find? (Store.pendingFor rid uid) with
  | none =>
      rw [acceptLoop_none hr]
      rfl
  | some r =>
      have h0 := m.senders r (List.mem_of_find?_eq_some hr)
      rw [(acceptLoop_some hr).1, acceptLoop_eq_map m.ids hr, if_neg (Int.not_lt.mpr h0)]

theorem pairKey_of_le {p : Int × Int} (h : p.1 ≤ p.2) : FriendTables.pairKey p = p := by
  rw [FriendTables.pairKey, min_eq_left h, max_eq_right h]

theorem insertFriend_eq {p : Int × Int} (hp : p.1 ≤ p.2) (ht : ∀ q ∈ t.friends, q.1 ≤ q.2) :
    t.insertFriend p =
      if p ∈ t.friends then none else some { t with friends := t.friends ++ [p] } := by
  have hany : (t.friends.any fun q => FriendTables.pairKey q = FriendTables.pairKey p) = true ↔
      p ∈ t.friends := by
    rw [List.any_eq_true, pairKey_of_le hp]
    constructor
    · rintro ⟨q, hq, hkey⟩
      rwa [← of_decide_eq_true hkey, pairKey_of_le (ht q hq)]
    · exact fun h => ⟨p, h, decide_eq_true (pairKey_of_le hp)⟩
  simp only [FriendTables.insertFriend, hany]

theorem acceptFriendRequest_tables (m : Mirrors st t) (rid uid : Int) :
    t.acceptFriendRequest rid uid = match st.friendReqs.find? (Store.pendingFor rid uid) with
      | none => (-1, t)
      | some r => if (min r.fromUid uid, max r.fromUid uid) ∈ st.friends then (-1, t.setAccepted rid)
        else (r.fromUid, { t.setAccepted rid with
          friends := t.friends ++ [(min r.fromUid uid, max r.fromUid uid)] }) := by
  have hfind : (t.friendRequests.find? fun r => r.id = rid ∧ r.toUid = uid ∧ r.status = 0) =
      (st.friendReqs.find? (Store.pendingFor rid uid)).map FileFriendRequest.stored := by
    rw [m.requests, List.find?_map]
    congr 2
    funext r
    rw [Bool.eq_iff_iff, pendingFor_iff]
    exact decide_eq_true_iff
  simp only [FriendTables.acceptFriendRequest, hfind]
  cases hr : st.friendReqs.find? (Store.pendingFor rid uid) with
  | none => rfl
  | some r =>
      have hto : r.stored.toUid = uid := (pendingFor_iff.mp (List.find?_some hr)).2.1
      have hsorted : ∀ q ∈ (t.setAccepted rid).friends, q.1 ≤ q.2 := by
        intro q hq
        exact m.sorted q (m.friends ▸ hq)
      have hfrom : r.stored.fromUid = r.fromUid := rfl
      simp only [Option.map_some, hto, hfrom]
      rw [insertFriend_eq min_le_max hsorted]
      simp only [FriendTables.setAccepted, m.friends]
      split_ifs <;> rfl

theorem accept_agree (m : Mirrors st t) (rid uid : Int) :
    (st.acceptFriendRequest rid uid).1 = (t.acceptFriendRequest rid uid).1 ↔
      ¬ (FriendOp.accept rid uid).Diverges st := by
  rw [acceptFriendRequest_files m, acceptFriendRequest_tables m]
  cases hr : st.friendReqs.find? (Store.pendingFor rid uid) with
  | none =>
      refine iff_of_true rfl ?_
      rintro ⟨r, hmem, hp, -⟩
      exact List.find?_eq_none.mp hr r hmem hp
  | some r =>
      have hmem := List.mem_of_find?_eq_some hr
      have hpend := List.find?_some hr
      have h0 := m.senders r hmem
      simp only
      split_ifs with hf
      · refine iff_of_false ?_ fun h => h ⟨r, hmem, hpend, hf⟩
        simp only
        omega
      · refine iff_of_true rfl ?_
        rintro ⟨r', hmem', hpend', hf'⟩
        have hid : r'.id = r.id := (pendingFor_iff.mp hpend').1.trans (pendingFor_iff.mp hpend).1.symm
        obtain rfl := m.eq_of_id hmem' hmem hid
        exact hf hf'

theorem mirrors_accept (m : Mirrors st t) {rid uid : Int}
    (h : ¬ (FriendOp.accept rid uid).Diverges st) :
    Mirrors (st.acceptFriendRequest rid uid).2 (t.acceptFriendRequest rid uid).2 := by
  rw [acceptFriendRequest_files m, acceptFriendRequest_tables m]
  cases hr : st.friendReqs.find? (Store.pendingFor rid uid) with
  | none => exact m
  | some r =>
      have hf : (min r.fromUid uid, max r.fromUid uid) ∉ st.friends := fun hf =>
        h ⟨r, List.mem_of_find?_eq_some hr, List.find?_some hr, hf⟩
      simp only [if_neg hf]
      refine { m with
        friends := ?_, requests := ?_, sorted := ?_, ids := ?_, fresh := ?_, senders := ?_ }
      · exact congrArg (· ++ _) m.friends
      · simp only [FriendTables.setAccepted, m.requests, List.map_map]
        refine List.map_congr_left fun r _ => ?_
        by_cases hr : r.id = rid <;>
          simp [FileFriendRequest.accepted, FileFriendRequest.stored, hr]
      · exact List.forall_mem_append.mpr ⟨m.sorted, List.forall_mem_singleton.mpr min_le_max⟩
      · exact List.pairwise_map.mpr (m.ids.imp fun {a b} h => by rwa [accepted_id, accepted_id])
      · intro r' hr'
        obtain ⟨r, hmem, rfl⟩ := List.mem_map.mp hr'
        rw [accepted_id]
        exact m.fresh r hmem
      · intro r' hr'
        obtain ⟨r, hmem, rfl⟩ := List.mem_map.mp hr'
        rw [accepted_fromUid]
        exact m.senders r hmem

/-! ## Names -/

/-- The names that the join finds for a uid. -/
def Store.joinedNames (st : Store) (uid : Int) : List String :=
  (st.users.filter fun u => u.uid = uid).map fun u => cString u.username

theorem joinedNames_eq (m : Mirrors st t) (uid : Int) : st.joinedNames uid =
    ((st.users.find? fun u => u.uid = uid).map fun u => cString u.username).toList := by
  rw [Store.joinedNames, filter_key m.uids]
  cases st.users.find? fun u => u.uid = uid <;> rfl

theorem joinedNames_length (m : Mirrors st t) (uid : Int) : (st.joinedNames uid).length ≤ 1 := by
  rw [joinedNames_eq m, Option.length_toList]
  split_ifs
  · exact le_refl 1
  · exact Nat.zero_le 1

theorem joinedNames_iff (m : Mirrors st t) (uid : Int) :
    st.joinedNames uid = [st.displayName uid] ↔ st.Named uid := by
  have hfind : (st.users.find? fun u => u.uid == uid) = st.users.find? fun u => u.uid = uid := by
    congr 1
  rw [joinedNames_eq m, Store.displayName, hfind]
  cases hu : st.users.find? fun u => u.uid = uid with
  | none =>
      refine iff_of_false (by simp) ?_
      rintro ⟨u, hmem, huid, -⟩
      exact List.find?_eq_none.mp hu u hmem (decide_eq_true huid)
  | some u =>
      have hmem := List.mem_of_find?_eq_some hu
      have huid : u.uid = uid := by simpa using List.find?_some hu
      simp only [Option.map_some, Option.toList_some, List.cons.injEq, and_true]
      constructor
      · exact fun h => ⟨u, hmem, huid, h⟩
      · rintro ⟨u', hmem', huid', h⟩
        obtain rfl := List.inj_on_of_nodup_map m.uids hmem' hmem (huid'.trans huid.symm)
        exact h

/-! ## Listing friends -/

theorem getFriends_files (uid : Int) (st : Store) :
    st.getFriends uid = (st.friends.filterMap (friendOf uid)).map fun v => (v, st.displayName v) := by
  rw [Store.getFriends, List.map_filterMap]
  congr 1
  funext p
  simp only [friendOf]
  split_ifs <;> rfl

/-- The rows that a pair adds to the list. -/
theorem friendRows_eq (uid : Int) (p : Int × Int) (st : Store) :
    (st.users.filter fun u => ((p.1 = uid ∨ p.2 = uid) ∧ u.uid ≠ uid) ∧ (u.uid = p.1 ∨ u.uid = p.2)).map
      (fun u => (u.uid, cString u.username)) =
    (friendOf uid p).toList.flatMap fun v =>
      if v = uid then [] else (st.joinedNames v).map fun n => (v, n) := by
  -- the rows of one user other than `uid`
  have hrows : ∀ v, (st.users.filter fun u => u.uid = v).map (fun u => (u.uid, cString u.username)) =
      (st.joinedNames v).map fun n => (v, n) := by
    intro v
    rw [Store.joinedNames, List.map_map]
    refine List.map_congr_left fun u hu => ?_
    have huid : u.uid = v := by simpa using (List.mem_filter.mp hu).2
    rw [huid]
    rfl
  obtain ⟨a, b⟩ := p
  by_cases ha : a = uid
  · by_cases hb : b = uid
    · have hnone : ∀ u : FileUser, ¬ ((u.uid ≠ uid) ∧ u.uid = uid) := fun u h => h.1 h.2
      simp [friendOf, ha, hb, hnone]
    · have hcond : ∀ u : FileUser, (u.uid ≠ uid ∧ (u.uid = uid ∨ u.uid = b)) ↔ u.uid = b := by
        intro u
        omega
      simp [friendOf, ha, hb, hcond, hrows]
  · by_cases hb : b = uid
    · have hcond : ∀ u : FileUser, (u.uid ≠ uid ∧ (u.uid = a ∨ u.uid = uid)) ↔ u.uid = a := by
        intro u
        omega
      simp [friendOf, ha, hb, hcond, hrows]
    · simp [friendOf, ha, hb]

theorem getFriends_tables (m : Mirrors st t) (uid : Int) :
    t.getFriends uid = (st.friends.filterMap (friendOf uid)).flatMap fun v =>
      if v = uid then [] else (st.joinedNames v).map fun n => (v, n) := by
  rw [FriendTables.getFriends, innerJoin, List.filter_flatMap, List.map_flatMap, flatMap_filterMap,
    m.friends, m.users]
  refine List.flatMap_congr fun p _ => ?_
  rw [← friendRows_eq, List.filter_map, List.map_map, List.filter_filter]
  congr 2
  funext u
  simp only [Function.comp_apply, Bool.decide_and]

theorem friends_agree (m : Mirrors st t) (uid : Int) :
    (st.getFriends uid).Perm (t.getFriends uid) ↔ ¬ (FriendOp.friends uid).Diverges st := by
  rw [getFriends_files, getFriends_tables m, perm_map_flatMap_iff]
  · simp only [FriendOp.Diverges, not_exists, not_and, not_or, not_not]
    refine forall₂_congr fun v _ => ?_
    by_cases hv : v = uid
    · simp [hv]
    · rw [if_neg hv, ← joinedNames_iff m, and_iff_right hv]
      exact List.map_eq_singleton_iff.trans (by simp)
  · intro v _ v' _ h
    split_ifs at h
    · cases h
    · obtain ⟨n, -, e⟩ := List.mem_map.mp h
      exact (Prod.mk.inj e).1.symm
  · intro v _
    split_ifs
    · exact Nat.zero_le 1
    · rw [List.length_map]
      exact joinedNames_length m v

/-! ## Listing requests -/

/-- The rows that the join gives for a request. -/
def Store.requestRows (st : Store) (r : FileFriendRequest) : List FriendRequestInfo :=
  (st.joinedNames r.fromUid).map fun n => ⟨r.id, r.fromUid, n, cString r.stored.message⟩

theorem requestRows_iff (m : Mirrors st t) (r : FileFriendRequest) :
    st.requestRows r = [⟨r.id, r.fromUid, st.displayName r.fromUid, r.message⟩] ↔
      st.Named r.fromUid ∧ cString r.stored.message = r.message := by
  rw [← joinedNames_iff m, Store.requestRows, List.map_eq_singleton_iff]
  constructor
  · rintro ⟨n, hn, e⟩
    simp only [FriendRequestInfo.mk.injEq, true_and] at e
    exact ⟨by rw [hn, e.1], e.2⟩
  · rintro ⟨hn, hm⟩
    exact ⟨_, hn, by rw [hm]⟩

theorem getPendingRequests_files (uid : Int) (st : Store) : st.getPendingRequests uid =
    ((st.friendReqs.filter fun r => r.toUid = uid ∧ r.status = 0).map fun r =>
      ⟨r.id, r.fromUid, st.displayName r.fromUid, r.message⟩).reverse := by
  rw [Store.getPendingRequests, List.filter_reverse, List.map_reverse]
  congr 3
  funext r
  rw [Bool.eq_iff_iff]
  simp

theorem filter_sender (r : FileFriendRequest) (st : Store) :
    (st.users.filter fun u => r.stored.fromUid = u.uid) = st.users.filter fun u => u.uid = r.fromUid :=
  List.filter_congr fun _ _ => decide_eq_decide.mpr eq_comm

theorem requestJoin_eq (uid : Int) (r : FileFriendRequest) (st : Store) :
    (((st.users.filter fun u => r.stored.fromUid = u.uid).map fun u => (r.stored, u)).filter fun p =>
      p.1.toUid = uid ∧ p.1.status = 0).map (fun p : FileFriendRequest × FileUser =>
        (⟨p.1.id, p.1.fromUid, cString p.2.username, cString p.1.message⟩ : FriendRequestInfo)) =
    if r.toUid = uid ∧ r.status = 0 then st.requestRows r else [] := by
  have hselect : ∀ l : List FileUser, ((l.map fun u => (r.stored, u)).filter fun p =>
      p.1.toUid = uid ∧ p.1.status = 0) =
      if r.toUid = uid ∧ r.status = 0 then l.map fun u => (r.stored, u) else [] := by
    intro l
    split_ifs with h
    · refine List.filter_eq_self.mpr fun p hp => ?_
      obtain ⟨u, -, rfl⟩ := List.mem_map.mp hp
      exact decide_eq_true h
    · refine List.filter_eq_nil_iff.mpr fun p hp => ?_
      obtain ⟨u, -, rfl⟩ := List.mem_map.mp hp
      exact fun h' => h (of_decide_eq_true h')
  rw [hselect, filter_sender]
  split_ifs
  · rw [Store.requestRows, Store.joinedNames, List.map_map, List.map_map]
    rfl
  · rfl

/-- The rows of the query come in the order of the ids. -/
theorem getPendingRequests_tables (m : Mirrors st t) (uid : Int) : t.getPendingRequests uid =
    ((st.friendReqs.filter fun r => r.toUid = uid ∧ r.status = 0).flatMap st.requestRows).reverse := by
  rw [FriendTables.getPendingRequests, innerJoin, m.requests, m.users, List.filter_flatMap,
    List.flatMap_map, insertionSort_ascending, List.map_reverse, List.map_flatMap, flatMap_filter]
  · congr 1
    refine List.flatMap_congr fun r _ => ?_
    rw [requestJoin_eq]
    simp only [decide_eq_true_iff]
  · refine List.pairwise_flatMap.mpr ⟨fun r _ => ?_, m.ids.imp fun {r r'} hlt p hp p' hp' => ?_⟩
    · refine List.Pairwise.filter _ (List.pairwise_map.mpr ?_)
      rw [filter_sender, filter_key m.uids]
      cases st.users.find? fun u => u.uid = r.fromUid <;> simp
    · obtain ⟨u, -, rfl⟩ := List.mem_map.mp (List.mem_filter.mp hp).1
      obtain ⟨u', -, rfl⟩ := List.mem_map.mp (List.mem_filter.mp hp').1
      exact Int.not_le.mpr hlt

theorem pending_agree (m : Mirrors st t) (uid : Int) :
    st.getPendingRequests uid = t.getPendingRequests uid ↔ ¬ (FriendOp.pending uid).Diverges st := by
  have hiff : ¬ (FriendOp.pending uid).Diverges st ↔
      ∀ r ∈ st.friendReqs.filter fun r => r.toUid = uid ∧ r.status = 0,
        st.requestRows r = [⟨r.id, r.fromUid, st.displayName r.fromUid, r.message⟩] := by
    simp only [FriendOp.Diverges, not_exists, not_and, not_or, not_not, List.mem_filter,
      decide_eq_true_iff, requestRows_iff m]
    exact forall_congr' fun r => ⟨fun h hr => h hr.1 hr.2.1 hr.2.2, fun h hr hto hs => h ⟨hr, hto, hs⟩⟩
  rw [getPendingRequests_files, getPendingRequests_tables m, List.reverse_inj, hiff]
  constructor
  · intro h
    refine (perm_map_flatMap_iff (fun r hr r' hr' hmem => ?_) fun r _ => ?_).mp (.of_eq h)
    · obtain ⟨n, -, e⟩ := List.mem_map.mp hmem
      have hid := (congrArg FriendRequestInfo.id e).symm
      exact m.eq_of_id (List.mem_of_mem_filter hr) (List.mem_of_mem_filter hr') hid
    · rw [Store.requestRows, List.length_map]
      exact joinedNames_length m r.fromUid
  · intro h
    rw [List.map_eq_flatMap, List.flatMap_congr h]

/-! ## Sequences -/

namespace FriendOp

/-- **A call agrees exactly if it does not diverge.** -/
theorem agree_iff (m : Mirrors st t) (op : FriendOp) :
    (op.onFiles st).1.Agree (op.onTables t).1 ↔ ¬ op.Diverges st := by
  cases op with
  | add a b msg => exact add_agree m a b msg
  | accept rid uid => exact accept_agree m rid uid
  | friends uid => exact friends_agree m uid
  | pending uid => exact pending_agree m uid

/-- **A call that does not diverge leaves the same rows.** -/
theorem mirrors {op : FriendOp} (m : Mirrors st t) (h0 : op.NonNeg) (h : ¬ op.Diverges st) :
    Mirrors (op.onFiles st).2 (op.onTables t).2 := by
  cases op with
  | add a b msg => exact mirrors_add m h0.1 h
  | accept rid uid => exact mirrors_accept m h
  | friends | pending => exact m

end FriendOp

theorem mirrors_start {us : List FileUser} (hus : (us.map FileUser.uid).Nodup) :
    Mirrors { users := us } { users := us } where
  users := rfl
  friends := rfl
  requests := rfl
  next := rfl
  uids := hus
  sorted := fun _ h => by cases h
  ids := List.Pairwise.nil
  fresh := fun _ h => by cases h
  senders := fun _ h => by cases h
  positive := Int.one_pos

/-- From the same rows on. -/
theorem agree_from_iff {ops : List FriendOp} (hops : ∀ op ∈ ops, op.NonNeg) (m : Mirrors st t) :
    List.Forall₂ FriendResult.Agree (FriendOp.resultsOnFiles ops st) (FriendOp.resultsOnTables ops t) ↔
      ∀ pre op, pre ++ [op] <+: ops → ¬ op.Diverges (FriendOp.filesAfter st pre) := by
  induction ops generalizing st t with
  | nil =>
      refine iff_of_true .nil fun pre op h => ?_
      simp at h
  | cons op ops ih =>
      obtain ⟨hop, hops⟩ := List.forall_mem_cons.mp hops
      rw [FriendOp.resultsOnFiles, FriendOp.resultsOnTables, List.forall₂_cons, FriendOp.agree_iff m,
        forall_prefix_cons]
      -- after a call that does not diverge, the induction goes on from the next stores
      exact and_congr_right fun h => ih hops (FriendOp.mirrors m hop h)

/-- **When the two backends agree.** From empty tables with the same registered users, a sequence of
calls with non-negative uids has the same results in file mode and in MySQL mode, call by call, exactly if no
call diverges. -/
theorem backends_agree_iff (us : List FileUser) (hus : (us.map FileUser.uid).Nodup)
    (ops : List FriendOp) (hops : ∀ op ∈ ops, op.NonNeg) :
    List.Forall₂ FriendResult.Agree (FriendOp.resultsOnFiles ops { users := us })
      (FriendOp.resultsOnTables ops { users := us }) ↔
    ∀ pre op, pre ++ [op] <+: ops → ¬ op.Diverges (FriendOp.filesAfter { users := us } pre) :=
  agree_from_iff hops (mirrors_start hus)

namespace Sample

def registered : List FileUser := [⟨1000, "alice", ""⟩, ⟨1001, "bob", ""⟩]

/-- A request is sent, listed and accepted. -/
def befriend : List FriendOp :=
  [.add 1000 1001 "hi", .pending 1001, .accept 1 1001, .friends 1000, .add 1001 1000 ""]

/-- Each of two users asks the other, and both requests are accepted. -/
def crossed : List FriendOp :=
  [.add 1000 1001 "", .add 1001 1000 "", .accept 1 1001, .accept 2 1000]

end Sample

theorem backends_agree_iff_sample : (Sample.registered.map FileUser.uid).Nodup ∧
    (∀ op ∈ Sample.befriend, op.NonNeg) ∧
    List.Forall₂ FriendResult.Agree
      (FriendOp.resultsOnFiles Sample.befriend { users := Sample.registered })
      (FriendOp.resultsOnTables Sample.befriend { users := Sample.registered }) :=
  ⟨by decide, by decide, (backends_agree_iff Sample.registered (by decide) Sample.befriend
    (by decide)).mpr (forall_prefix_concat.mpr (by decide))⟩

theorem backends_disagree : (Sample.registered.map FileUser.uid).Nodup ∧
    (∀ op ∈ Sample.crossed, op.NonNeg) ∧
    FriendOp.resultsOnFiles Sample.crossed { users := Sample.registered } =
      [.code 1, .code 2, .code 1000, .code 1001] ∧
    FriendOp.resultsOnTables Sample.crossed { users := Sample.registered } =
      [.code 1, .code 2, .code 1000, .code (-1)] ∧
    ¬ List.Forall₂ FriendResult.Agree
      (FriendOp.resultsOnFiles Sample.crossed { users := Sample.registered })
      (FriendOp.resultsOnTables Sample.crossed { users := Sample.registered }) := by
  have hfiles : FriendOp.resultsOnFiles Sample.crossed { users := Sample.registered } =
      [.code 1, .code 2, .code 1000, .code 1001] := by decide
  have htables : FriendOp.resultsOnTables Sample.crossed { users := Sample.registered } =
      [.code 1, .code 2, .code 1000, .code (-1)] := by decide
  refine ⟨by decide, by decide, hfiles, htables, ?_⟩
  rw [hfiles, htables]
  simp [FriendResult.Agree]

end AuraChat

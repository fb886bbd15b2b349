import AuraChat.Model.Community
import AuraChat.Storage.Accounts
import AuraChat.Storage.Requests

set_option autoImplicit false

/-!
# The file store is a community

* `Disk.Ready`: accounts, requests and files are sound, and the ids of the requests ascend;
* one lemma for each call: the answer is the one of the community, and the tables describe the community
  after it;
* **`store_is_community`**: the calls and answers of every run, with restarts between them, are those of
  a community.
-/

namespace AuraChat

open Trace

variable {J : JsonLib} {hash : String → String} {st : Store} {d d' : Disk}

/-! ## The tables -/

/-- The ids of the requests ascend. -/
def Store.Ascending (st : Store) : Prop := (st.friendReqs.map FileFriendRequest.id).Pairwise (· < ·)

theorem acceptLoop_ids (rid uid : Int) (reqs : List FileFriendRequest) :
    (Store.acceptLoop rid uid reqs).2.map FileFriendRequest.id = reqs.map FileFriendRequest.id := by
  induction reqs with
  | nil => rfl
  | cons r rs ih =>
      rw [Store.acceptLoop]
      split_ifs
      · rfl
      · rw [List.map_cons, List.map_cons, ih]

theorem ascending_apply (h : st.Ascending) (hr : st.RequestsSound) (op : StoreOp) :
    (op.apply hash st).Ascending := by
  have ho := op.outcome hash st
  generalize op.apply hash st = st', op.saves st = names at ho
  cases ho with
  | request a b msg =>
      rw [Store.Ascending, List.map_append, List.pairwise_append]
      refine ⟨h, List.pairwise_singleton _ _, ?_⟩
      intro id hid id' hid'
      obtain ⟨r, hmem, rfl⟩ := List.mem_map.mp hid
      obtain rfl := List.mem_singleton.mp hid'
      exact hr.lt r hmem
  | accept rid uid | slip rid uid =>
      rw [Store.Ascending, acceptLoop_ids]
      exact h
  | flush hb =>
      simp only [Store.flush, Bool.or_true, if_true]
      exact h
  | same | register | mark | submit | drain => exact h

structure Disk.Ready (J : JsonLib) (d : Disk) : Prop where
  sound : d.Sound J
  accounts : d.store.AccountsSound
  requests : d.store.RequestsSound
  ascending : d.store.Ascending

theorem ready_empty : Disk.empty.Ready J :=
  ⟨sound_empty, accountsSound_empty, requestsSound_empty, List.Pairwise.nil⟩

theorem ready_step {op : DiskOp} (hJ : J.Lawful) (h : d.Ready J) (hop : op.Fair)
    (hs : Disk.step J hash op d = some d') : d'.Ready J := by
  refine ⟨sound_step hJ h.sound hop hs, (users_step h.sound hs).sound h.accounts,
    (requests_step h.sound h.requests hs).1, ?_⟩
  cases op with
  | run op =>
      obtain rfl := Option.some.inj hs
      exact ascending_apply h.ascending h.requests op
  | restart =>
      rw [restart_eq h.sound] at hs
      obtain rfl := Option.some.inj hs
      exact h.ascending

/-! ## Accounts -/

theorem mem_accounts {uid : Int} {name digest : String} :
    (uid, name, digest) ∈ st.community.accounts ↔ ⟨uid, name, digest⟩ ∈ st.users := Iff.rfl

theorem exists_account (name : String) :
    (∃ a ∈ st.community.accounts, a.2.1 = name) ↔ st.Taken name := by
  constructor
  · rintro ⟨a, ha, rfl⟩
    exact ⟨_, ha, rfl⟩
  · rintro ⟨u, hu, rfl⟩
    exact ⟨(u.uid, u.username, u.passwordHash), hu, rfl⟩

theorem step_registerUser (st : Store) (name password : String) :
    st.community.Step hash (.registerUser name password) (st.registerUser hash name password).1
      (st.registerUser hash name password).2.community := by
  rw [Store.registerUser]
  by_cases h : st.Taken name
  · rw [if_pos ((any_username st name).mpr h)]
    exact .nameTaken name password ((exists_account name).mpr h)
  · rw [if_neg (mt (any_username st name).mp h)]
    have hfree : ∀ a ∈ st.community.accounts, a.2.1 ≠ name :=
      fun a ha e => h ((exists_account name).mp ⟨a, ha, e⟩)
    convert Community.Step.registered name password st.nextUid hfree (Int.le_refl _) using 1
    ext a
    case accounts =>
      simp only [Store.community, Set.mem_ofPred_eq, List.mem_append, List.mem_singleton, Set.mem_insert_iff,
        FileUser.mk.injEq, Prod.ext_iff]
      exact or_comm
    all_goals rfl

theorem step_verifyLogin (ha : st.AccountsSound) (name password : String) :
    st.community.Step hash (.verifyLogin name password) (st.verifyLogin hash name password) st.community := by
  by_cases h : ∃ uid, (uid, name, hash password) ∈ st.community.accounts
  · obtain ⟨uid, hmem⟩ := h
    have hlogin := verifyLogin_of_mem hash ha.names (mem_accounts.mp hmem) password
    rw [if_pos rfl] at hlogin
    rw [hlogin]
    exact .loggedIn name password uid hmem
  · have hlogin : st.verifyLogin hash name password = -1 := by
      by_cases ht : st.Taken name
      · obtain ⟨u, hu, rfl⟩ := ht
        rw [verifyLogin_of_mem hash ha.names hu password, if_neg fun e => h ⟨u.uid, ?_⟩]
        rw [mem_accounts, ← e]
        exact hu
      · exact verifyLogin_of_not_taken ht password
    rw [hlogin]
    exact .loginRefused name password fun uid hmem => h ⟨uid, hmem⟩

/-- The users that a search goes through. -/
def Store.matching (keyword : String) (us : List FileUser) : List (Int × String) :=
  (us.filter fun u => Store.toLower keyword <:+: Store.toLower u.username).map fun u => (u.uid, u.username)

theorem searchLoop_take (keyword : String) (us : List FileUser) (acc : List (Int × String))
    (h : acc.length < 20) :
    Store.searchLoop keyword us acc = (acc ++ Store.matching keyword us).take 20 := by
  induction us generalizing acc with
  | nil =>
      rw [Store.searchLoop, Store.matching, List.filter_nil, List.map_nil, List.append_nil,
        List.take_of_length_le h.le]
  | cons u us ih =>
      by_cases hfind : Store.toLower keyword <:+: Store.toLower u.username
      · have hcons : acc ++ Store.matching keyword (u :: us) =
            acc ++ [(u.uid, u.username)] ++ Store.matching keyword us := by
          rw [Store.matching, List.filter_cons_of_pos (by simpa using hfind), List.map_cons, List.append_assoc]
          rfl
        rw [Store.searchLoop, if_pos hfind, hcons]
        split_ifs with h20
        · have hlen : (acc ++ [(u.uid, u.username)]).length = 20 := by
            simp only [List.length_append, List.length_singleton] at h20 ⊢
            omega
          exact (List.take_left' hlen).symm
        · exact ih _ (Nat.lt_of_not_le h20)
      · rw [Store.searchLoop, if_neg hfind, Store.matching, List.filter_cons_of_neg (by simpa using hfind),
          if_neg (Nat.not_le.mpr h)]
        exact ih _ h

theorem mem_matching {keyword : String} {x : Int × String} :
    x ∈ Store.matching keyword st.users ↔ (∃ digest, (x.1, x.2, digest) ∈ st.community.accounts) ∧
      Store.toLower keyword <:+: Store.toLower x.2 := by
  simp only [Store.matching, List.mem_map, List.mem_filter, decide_eq_true_eq]
  constructor
  · rintro ⟨u, ⟨hu, hfind⟩, rfl⟩
    exact ⟨⟨u.passwordHash, hu⟩, hfind⟩
  · rintro ⟨⟨digest, hu⟩, hfind⟩
    exact ⟨_, ⟨hu, hfind⟩, rfl⟩

theorem step_searchUsers (ha : st.AccountsSound) (keyword : String) :
    st.community.Step hash (.searchUsers keyword) (st.searchUsers keyword) st.community := by
  have hsearch : st.searchUsers keyword = (Store.matching keyword st.users).take 20 := by
    rw [Store.searchUsers, searchLoop_take _ _ _ (by decide), List.nil_append]
  have hnodup : (Store.matching keyword st.users).Nodup := by
    refine List.Nodup.of_map Prod.fst ?_
    rw [Store.matching, List.map_map]
    exact (List.filter_sublist.map FileUser.uid).nodup ha.uids
  rw [hsearch]
  refine .found keyword _ (hnodup.sublist (List.take_sublist _ _)) (List.length_take_le _ _)
    (fun x hx => mem_matching.mp (List.mem_of_mem_take hx)) fun hlt a ha hfind => ?_
  have hall : (Store.matching keyword st.users).length ≤ 20 := by
    rw [List.length_take] at hlt
    omega
  rw [List.take_of_length_le hall]
  exact mem_matching.mpr ⟨⟨a.2.2, ha⟩, hfind⟩

theorem named_iff (ha : st.AccountsSound) (uid : Int) (name : String) :
    st.community.Named uid name ↔ st.displayName uid = name := by
  rw [Store.displayName, Community.Named]
  cases hfind : st.users.find? fun u => u.uid == uid with
  | none =>
      have hno : ∀ a ∈ st.community.accounts, a.1 ≠ uid := by
        intro a hmem e
        exact List.find?_eq_none.mp hfind _ hmem (beq_iff_eq.mpr e)
      constructor
      · rintro (⟨digest, hmem⟩ | ⟨-, rfl⟩)
        · exact absurd rfl (hno _ hmem)
        · rfl
      · rintro rfl
        exact .inr ⟨hno, rfl⟩
  | some u =>
      have hu := List.mem_of_find?_eq_some hfind
      have htest := List.find?_some hfind
      have huid : u.uid = uid := beq_iff_eq.mp htest
      constructor
      · rintro (⟨digest, hmem⟩ | ⟨hno, -⟩)
        · have heq := List.inj_on_of_nodup_map ha.uids hu hmem huid
          exact congrArg FileUser.username heq
        · exact absurd huid (hno (u.uid, u.username, u.passwordHash) hu)
      · rintro rfl
        refine .inl ⟨u.passwordHash, ?_⟩
        rw [← huid]
        exact hu

/-! ## Friends -/

theorem mem_asked {id a b : Int} {text : String} :
    (id, a, b, text) ∈ st.community.asked ↔ ⟨id, a, b, text, 0⟩ ∈ st.friendReqs := Iff.rfl

theorem sorted_of_mem_friends (hr : st.RequestsSound) {p : Int × Int} (hp : p ∈ st.friends) : p.1 ≤ p.2 := by
  obtain ⟨r, -, rfl⟩ := List.mem_map.mp (hr.friends.subset hp)
  exact min_le_max

theorem mem_friends (hr : st.RequestsSound) (a b : Int) :
    s(a, b) ∈ st.community.friends ↔ (min a b, max a b) ∈ st.friends := by
  constructor
  · rintro ⟨p, hp, he⟩
    have hle := sorted_of_mem_friends hr hp
    rcases Sym2.eq_iff.mp he with ⟨rfl, rfl⟩ | ⟨rfl, rfl⟩
    · rw [min_eq_left hle, max_eq_right hle]
      exact hp
    · rw [min_eq_right hle, max_eq_left hle]
      exact hp
  · intro hmem
    refine ⟨_, hmem, ?_⟩
    rcases le_total a b with hle | hle
    · rw [min_eq_left hle, max_eq_right hle]
    · rw [min_eq_right hle, max_eq_left hle]
      exact Sym2.eq_swap

theorem any_friends (a b : Int) :
    st.friends.any (fun p => p.1 == min a b && p.2 == max a b) = true ↔ (min a b, max a b) ∈ st.friends := by
  rw [List.any_eq_true]
  constructor
  · rintro ⟨p, hp, htest⟩
    simp only [Bool.and_eq_true, beq_iff_eq] at htest
    rw [← htest.1, ← htest.2]
    exact hp
  · intro hmem
    exact ⟨_, hmem, by simp⟩

theorem any_asked (a b : Int) :
    st.friendReqs.any (fun r => r.fromUid == a && r.toUid == b && r.status == 0) = true ↔
      ∃ id text, (id, a, b, text) ∈ st.community.asked := by
  rw [List.any_eq_true]
  constructor
  · rintro ⟨⟨id, a', b', text, status⟩, hmem, htest⟩
    simp only [Bool.and_eq_true, beq_iff_eq] at htest
    obtain ⟨⟨rfl, rfl⟩, rfl⟩ := htest
    exact ⟨id, text, hmem⟩
  · rintro ⟨id, text, hmem⟩
    exact ⟨_, hmem, by simp⟩

theorem step_addFriendRequest (hr : st.RequestsSound) (a b : Int) (msg : String) :
    st.community.Step hash (.addFriendRequest a b msg) (st.addFriendRequest a b msg).1
      (st.addFriendRequest a b msg).2.community := by
  rw [Store.addFriendRequest]
  split_ifs with hfriends hdup
  · exact .alreadyFriends a b msg ((mem_friends hr a b).mpr ((any_friends a b).mp hfriends))
  · have hno := mt ((mem_friends hr a b).trans (any_friends a b).symm).mp hfriends
    exact .alreadyAsked a b msg hno ((any_asked a b).mp hdup)
  · have hno := mt ((mem_friends hr a b).trans (any_friends a b).symm).mp hfriends
    have hnone : ∀ id text, (id, a, b, text) ∉ st.community.asked :=
      fun id text hmem => hdup ((any_asked a b).mpr ⟨id, text, hmem⟩)
    convert Community.Step.asked a b msg st.nextReqId hno hnone (Int.le_refl _) using 1
    ext r
    case asked =>
      simp only [Store.community, Set.mem_ofPred_eq, List.mem_append, List.mem_singleton, Set.mem_insert_iff,
        FileFriendRequest.mk.injEq, Prod.ext_iff, and_true]
      exact or_comm
    all_goals rfl

/-- The request that is accepted waits no longer, and the others wait as before. -/
theorem mem_accepted (hr : st.RequestsSound) {r x : FileFriendRequest} {pre post : List FileFriendRequest}
    (hreqs : st.friendReqs = pre ++ r :: post) (hx : x.status = 0) :
    x ∈ pre ++ { r with status := 1 } :: post ↔ x ∈ st.friendReqs ∧ x ≠ r := by
  have hids := hr.ids
  rw [hreqs, List.map_append, List.map_cons, List.nodup_middle, List.nodup_cons, ← List.map_append] at hids
  have hother : ∀ y ∈ pre ++ post, y ≠ r := fun y hy e => hids.1 (List.mem_map.mpr ⟨y, hy, by rw [e]⟩)
  have hdone : x ≠ { r with status := 1 } := fun e => by
    rw [e] at hx
    exact absurd hx Int.one_ne_zero
  rw [hreqs, List.mem_append, List.mem_append, List.mem_cons, List.mem_cons]
  constructor
  · rintro (hmem | hmem | hmem)
    · exact ⟨.inl hmem, hother x (List.mem_append_left _ hmem)⟩
    · exact absurd hmem hdone
    · exact ⟨.inr (.inr hmem), hother x (List.mem_append_right _ hmem)⟩
  · rintro ⟨hmem | hmem | hmem, hne⟩
    · exact .inl hmem
    · exact absurd hmem hne
    · exact .inr (.inr hmem)

theorem step_acceptFriendRequest (hr : st.RequestsSound) (hs : st.Senders) (rid uid : Int) :
    st.community.Step hash (.acceptFriendRequest rid uid) (st.acceptFriendRequest rid uid).1
      (st.acceptFriendRequest rid uid).2.community := by
  rw [Store.acceptFriendRequest]
  cases hfind : st.friendReqs.find? (Store.pendingFor rid uid) with
  | none =>
      rw [acceptLoop_none hfind]
      refine .acceptRefused rid uid fun a text hmem => ?_
      exact List.find?_eq_none.mp hfind _ (mem_asked.mp hmem) (by simp [Store.pendingFor])
  | some r =>
      have hmem := List.mem_of_find?_eq_some hfind
      obtain ⟨rfl, rfl, hstatus⟩ := pendingFor_eq (List.find?_some hfind)
      obtain ⟨pre, post, hreqs, hloop⟩ := acceptLoop_split hfind
      have hpos : ¬ r.fromUid < 0 := Int.not_lt.mpr (hs r hmem)
      dsimp only
      rw [(acceptLoop_some hfind).1, if_neg hpos, hloop]
      have hasked : (r.id, r.fromUid, r.toUid, r.message) ∈ st.community.asked := by
        rw [mem_asked, ← hstatus]
        exact hmem
      convert Community.Step.accepted r.id r.toUid r.fromUid r.message hasked using 1
      ext x
      case asked =>
        obtain ⟨id, a, b, text⟩ := x
        have hiff := mem_accepted hr (x := ⟨id, a, b, text, 0⟩) hreqs rfl
        refine hiff.trans (and_congr_right fun _ => not_congr ?_)
        rw [Set.mem_singleton_iff]
        cases r
        subst hstatus
        simp only [FileFriendRequest.mk.injEq, Prod.mk.injEq, and_true]
      case friends =>
        have hpair : s(min r.fromUid r.toUid, max r.fromUid r.toUid) = s(r.fromUid, r.toUid) := by
          rcases le_total r.fromUid r.toUid with hle | hle
          · rw [min_eq_left hle, max_eq_right hle]
          · rw [min_eq_right hle, max_eq_left hle]
            exact Sym2.eq_swap
        simp only [Store.community, Set.mem_ofPred_eq, List.mem_append, List.mem_singleton, or_and_right,
          exists_or, exists_eq_left, Set.mem_insert_iff, hpair, eq_comm (a := x)]
        exact or_comm
      all_goals rfl

theorem step_getFriends (ha : st.AccountsSound) (uid : Int) :
    st.community.Step hash (.getFriends uid) (st.getFriends uid) st.community := by
  refine .friends uid _ fun other name => ?_
  rw [named_iff ha, Store.getFriends, List.mem_filterMap]
  constructor
  · rintro ⟨p, hp, he⟩
    split_ifs at he with h1 h2
    · obtain ⟨rfl, rfl⟩ := Prod.mk.inj (Option.some.inj he)
      exact ⟨⟨p, hp, by rw [h1]⟩, rfl⟩
    · obtain ⟨rfl, rfl⟩ := Prod.mk.inj (Option.some.inj he)
      exact ⟨⟨p, hp, by rw [h2]; exact Sym2.eq_swap⟩, rfl⟩
  · rintro ⟨⟨p, hp, he⟩, rfl⟩
    refine ⟨p, hp, ?_⟩
    rcases Sym2.eq_iff.mp he with ⟨h1, h2⟩ | ⟨h1, h2⟩
    · rw [if_pos h1, h2]
    · by_cases hsame : p.1 = uid
      · have hother : p.2 = other := by rw [h2, ← hsame, h1]
        rw [if_pos hsame, hother]
      · rw [if_neg hsame, if_pos h2, h1]

theorem step_getPendingRequests (ha : st.AccountsSound) (hasc : st.Ascending) (uid : Int) :
    st.community.Step hash (.getPendingRequests uid) (st.getPendingRequests uid) st.community := by
  refine .pending uid _ ?_ fun i => ?_
  · rw [Store.getPendingRequests, List.pairwise_map]
    refine List.Pairwise.filter _ (List.pairwise_reverse.mpr ?_)
    exact List.pairwise_map.mp hasc
  · rw [named_iff ha, Store.getPendingRequests]
    simp only [List.mem_map, List.mem_filter, List.mem_reverse, Bool.and_eq_true, beq_iff_eq]
    constructor
    · rintro ⟨⟨id, a, b, text, status⟩, ⟨hmem, hto, hstatus⟩, rfl⟩
      obtain rfl : b = uid := hto
      obtain rfl : status = 0 := hstatus
      exact ⟨hmem, rfl⟩
    · rintro ⟨hmem, hname⟩
      exact ⟨_, ⟨hmem, rfl, rfl⟩, by rw [hname]⟩

/-! ## Messages -/

theorem step_queryOfflineMessages (st : Store) (uid : Int) :
    st.community.Step hash (.queryOfflineMessages uid) (st.queryOfflineMessages uid) st.community := by
  have hmail : st.queryOfflineMessages uid =
      (st.community.mail uid).map fun x => ⟨x.1, x.2.1, uid, x.2.2, false⟩ := by
    rw [Store.queryOfflineMessages, Store.community, List.map_map]
    refine List.map_congr_left fun m hm => ?_
    have htest := (List.mem_filter.mp hm).2
    simp only [Store.undelivered, Bool.and_eq_true, beq_iff_eq] at htest
    rw [Function.comp_apply, htest.1]
  rw [hmail]
  exact .mail uid

/-- What waits after a mark. -/
theorem undelivered_mark (u uid maxId : Int) (m : FileMessage) :
    Store.undelivered u (if m.toUid = uid ∧ m.id ≤ maxId then { m with delivered := true } else m) =
      (Store.undelivered u m && (decide (u ≠ uid) || decide (maxId < m.id))) := by
  by_cases hmark : m.toUid = uid ∧ m.id ≤ maxId
  · rw [if_pos hmark]
    obtain ⟨rfl, hle⟩ := hmark
    by_cases hu : m.toUid = u
    · subst hu
      simp [Store.undelivered, hle]
    · simp [Store.undelivered, hu]
  · rw [if_neg hmark]
    by_cases hu : m.toUid = u
    · subst hu
      have hor : m.toUid ≠ uid ∨ maxId < m.id := by
        by_cases e : m.toUid = uid
        · exact .inr (Int.not_le.mp fun hle => hmark ⟨e, hle⟩)
        · exact .inl e
      simp [hor]
    · simp [Store.undelivered, hu]

theorem step_markDelivered (st : Store) (uid maxId : Int) :
    st.community.Step hash (.markDelivered uid maxId) () (st.markDelivered uid maxId).community := by
  have hmail : (st.markDelivered uid maxId).community.mail =
      Function.update st.community.mail uid ((st.community.mail uid).filter fun x => maxId < x.1) := by
    funext u
    have hwait : (st.markDelivered uid maxId).community.mail u =
        (st.community.mail u).filter fun x => decide (u ≠ uid) || decide (maxId < x.1) := by
      simp only [Store.community, Store.markDelivered, List.filter_map, List.map_map, List.filter_filter]
      rw [List.filter_congr (q := fun m => (decide (u ≠ uid) || decide (maxId < m.id)) && Store.undelivered u m)]
      · refine List.map_congr_left fun m _ => ?_
        simp only [Function.comp_apply]
        split_ifs <;> rfl
      · intro m _
        rw [Function.comp_apply, undelivered_mark, Bool.and_comm]
    rw [hwait, Function.update_apply]
    split_ifs with hu
    · subst hu
      simp
    · simp [hu]
  convert Community.Step.delivered uid maxId using 1
  rw [← hmail]
  rfl

/-- The messages of a batch with their ids. -/
def numbered (next : Int) : List DBChatMessage → List (Int × DBChatMessage)
  | [] => []
  | m :: ms => (next, m) :: numbered (next + 1) ms

theorem map_snd_numbered (next : Int) (ms : List DBChatMessage) : (numbered next ms).map Prod.snd = ms := by
  induction ms generalizing next with
  | nil => rfl
  | cons m ms ih => rw [numbered, List.map_cons, ih]

theorem numbered_bounds (next : Int) (ms : List DBChatMessage) :
    ∀ x ∈ numbered next ms, next ≤ x.1 ∧ x.1 < next + ms.length := by
  induction ms generalizing next with
  | nil => nofun
  | cons m ms ih =>
      rw [numbered, List.length_cons]
      refine List.forall_mem_cons.mpr ⟨⟨Int.le_refl _, by dsimp only; omega⟩, fun x hx => ?_⟩
      have hbounds := ih (next + 1) x hx
      omega

theorem numbered_ascending (next : Int) (ms : List DBChatMessage) :
    ((numbered next ms).map Prod.fst).Pairwise (· < ·) := by
  induction ms generalizing next with
  | nil => exact List.Pairwise.nil
  | cons m ms ih =>
      rw [numbered, List.map_cons, List.pairwise_cons]
      refine ⟨fun id hid => ?_, ih (next + 1)⟩
      obtain ⟨x, hx, rfl⟩ := List.mem_map.mp hid
      have hbounds := numbered_bounds (next + 1) ms x hx
      dsimp only
      omega

theorem mailFor_numbered (uid next : Int) (ms : List DBChatMessage) :
    Community.mailFor uid (numbered next ms) =
      ((Store.rowsOf next ms).filter (Store.undelivered uid)).map fun m => (m.id, m.fromUid, m.content) := by
  rw [Community.mailFor]
  induction ms generalizing next with
  | nil => rfl
  | cons m ms ih =>
      rw [numbered, Store.rowsOf, List.filter_cons, List.filter_cons]
      by_cases hwaits : (m.toUid == uid && !m.delivered) = true
      · have hrow : Store.undelivered uid ⟨next, m.fromUid, m.toUid, m.content, m.delivered⟩ = true := hwaits
        rw [if_pos hwaits, if_pos hrow, List.map_cons, List.map_cons, ih]
      · have hrow : ¬ Store.undelivered uid ⟨next, m.fromUid, m.toUid, m.content, m.delivered⟩ = true := hwaits
        rw [if_neg hwaits, if_neg hrow, ih]

theorem flush_apply (st : Store) : StoreOp.flush.apply hash st = { st with
    messages := st.messages ++ Store.rowsOf st.nextMsgId st.batch
    nextMsgId := st.nextMsgId + st.batch.length
    batch := [] } := by
  simp only [StoreOp.apply, Store.flush, Bool.or_true, if_true]
  split_ifs with hb
  · obtain ⟨file, users, friends, reqs, messages, nextUid, nextReqId, nextMsgId, queue, batch⟩ := st
    obtain rfl : batch = [] := hb
    simp [Store.rowsOf]
  · rfl

theorem step_flush (st : Store) :
    st.community.Step hash .flush () (StoreOp.flush.apply hash st).community := by
  have hout : st.community.outbox = (numbered st.nextMsgId st.batch).map Prod.snd ++ st.queue := by
    rw [map_snd_numbered]
    rfl
  have hbound : st.community.mailBound ≤ st.nextMsgId + st.batch.length := by
    change st.nextMsgId ≤ _
    omega
  rw [flush_apply]
  convert Community.Step.posted (numbered st.nextMsgId st.batch) st.queue _ hout
    (numbered_ascending _ _) (numbered_bounds _ _) hbound using 1
  ext uid
  case mail =>
    simp only [Store.community, mailFor_numbered, List.filter_append, List.map_append]
  all_goals rfl

theorem step_submit (st : Store) (m : DBChatMessage) :
    st.community.Step hash (.submit m) () (st.submit m).community := by
  have hout : (st.submit m).community = { st.community with outbox := st.community.outbox ++ [m] } := by
    simp only [Store.community, Store.submit, List.append_assoc]
  rw [hout]
  exact .handedIn m

theorem step_drain (st : Store) :
    st.community.Step hash .drain () (StoreOp.drain.apply hash st).community := by
  have hsame : (StoreOp.drain.apply hash st).community = st.community := by
    simp only [StoreOp.apply]
    split_ifs with hb
    · simp only [Store.community, Store.drain, List.append_assoc, List.take_append_drop]
    · rfl
  rw [hsame]
  exact .waits

/-! ## Runs -/

/-- **One call.** -/
theorem lives_of_serves (h : d.Ready J) {e : Exchange} (hs : d.Serves J hash e d') :
    d.store.community.Lives hash e d'.store.community := by
  obtain ⟨a, ans⟩ := e
  obtain ⟨hans, hstep⟩ := hs
  dsimp only at hans hstep
  subst hans
  cases a with
  | restart =>
      have heq := (restart_eq h.sound).symm.trans hstep
      obtain rfl := Option.some.inj heq
      exact .restarted
  | registerUser name password =>
      obtain rfl := Option.some.inj hstep
      exact step_registerUser _ name password
  | verifyLogin name password =>
      obtain rfl := Option.some.inj hstep
      exact step_verifyLogin h.accounts name password
  | searchUsers keyword =>
      obtain rfl := Option.some.inj hstep
      exact step_searchUsers h.accounts keyword
  | addFriendRequest a b msg =>
      obtain rfl := Option.some.inj hstep
      exact step_addFriendRequest h.requests a b msg
  | acceptFriendRequest rid uid =>
      obtain rfl := Option.some.inj hstep
      exact step_acceptFriendRequest h.requests h.sound.senders rid uid
  | getFriends uid =>
      obtain rfl := Option.some.inj hstep
      exact step_getFriends h.accounts uid
  | getPendingRequests uid =>
      obtain rfl := Option.some.inj hstep
      exact step_getPendingRequests h.accounts h.ascending uid
  | queryOfflineMessages uid =>
      obtain rfl := Option.some.inj hstep
      exact step_queryOfflineMessages _ uid
  | markDelivered uid maxId =>
      obtain rfl := Option.some.inj hstep
      exact step_markDelivered _ uid maxId
  | submit m =>
      obtain rfl := Option.some.inj hstep
      exact step_submit _ m
  | drain =>
      obtain rfl := Option.some.inj hstep
      exact step_drain _
  | flush =>
      obtain rfl := Option.some.inj hstep
      exact step_flush _

/-- A call that is fair, and its answer. -/
def Disk.FairServes (J : JsonLib) (hash : String → String) (d : Disk) (e : Exchange) (d' : Disk) : Prop :=
  e.1.op.Fair ∧ d.Serves J hash e d'

theorem ready_of_serves (hJ : J.Lawful) {es : List Exchange}
    (h : Run (Disk.FairServes J hash) Disk.empty es d) : d.Ready J :=
  h.invariant (Disk.Ready J) ready_empty fun _ _ _ hd hs => ready_step hJ hd hs.1 hs.2.2

theorem serves_restart (h : d.Ready J) :
    d.FairServes J hash ⟨.restart, ()⟩ ⟨Store.ofTables d.store.tables, d.files⟩ :=
  ⟨trivial, rfl, restart_eq h.sound⟩

/-- **The file store is a community.** The calls and answers of every run from an empty data directory, with
restarts of the server between them, are those of a community that was founded empty, the tables describe this
community at the end, and every fair call is answered. -/
theorem store_is_community (hJ : J.Lawful) {es : List Exchange}
    (h : Run (Disk.FairServes J hash) Disk.empty es d) :
    Run (Community.Lives hash) Community.founded es d.store.community ∧
      ∀ a : StoreCall, a.op.Fair → ∃ d', d.FairServes J hash ⟨a, a.answer hash d.store⟩ d' := by
  constructor
  · have hrun := h.refines (Disk.Ready J) (fun d => d.store.community) ready_empty
      (fun _ _ _ hd hs => ready_step hJ hd hs.1 hs.2.2) fun _ _ _ hd hs => lives_of_serves hd hs.2
    have hfounded : Disk.empty.store.community = Community.founded := by
      ext x <;> simp [Disk.empty, Store.community, Community.founded]
    rw [← hfounded]
    exact hrun
  · intro a ha
    have hstep : ∃ d', Disk.step J hash a.op d = some d' := by
      cases a with
      | restart => exact ⟨_, restart_eq (ready_of_serves hJ h).sound⟩
      | _ => exact ⟨_, rfl⟩
    obtain ⟨d', hs⟩ := hstep
    exact ⟨d', ha, rfl, hs⟩

/-- User 1001 accepts a request of user 1000, the server restarts, and user 1000 has a friend. -/
theorem store_is_community_sample : ∃ d, Run (Community.Lives id) Community.founded
    [⟨.addFriendRequest 1000 1001 "hello", 1⟩, ⟨.acceptFriendRequest 1 1001, 1000⟩, ⟨.restart, ()⟩,
      ⟨.getFriends 1000, [(1001, "用户1001")]⟩] d := by
  have hask : (StoreCall.addFriendRequest 1000 1001 "hello").op.Fair := by decide
  have haccept : (StoreCall.acceptFriendRequest 1 1001).op.Fair := trivial
  have hfriends : (StoreCall.getFriends 1000).op.Fair := trivial
  have hrun : Run (Disk.FairServes JsonText.lib id) Disk.empty
      [⟨.addFriendRequest 1000 1001 "hello", 1⟩, ⟨.acceptFriendRequest 1 1001, 1000⟩] _ :=
    .snoc (.snoc .nil ⟨hask, rfl, rfl⟩) ⟨haccept, rfl, rfl⟩
  have hready := ready_of_serves JsonText.lib_lawful hrun
  have hup := hrun.snoc (serves_restart hready)
  have hlast := hup.snoc (e := ⟨.getFriends 1000, [(1001, "用户1001")]⟩) ⟨hfriends, by decide, rfl⟩
  exact ⟨_, (store_is_community JsonText.lib_lawful hlast).1⟩

end AuraChat

import AuraChat.Safety.Provenance
import AuraChat.Storage.Operations

set_option autoImplicit false

/-!
# What the server has told is true

An answer claims something about the store: that an account exists, that a name is taken, that a friend
request is in, that two users are friends. On the file store this was so when the reply of the store came.
What is claimed to be there stays: accounts, requests, friendships and messages are never taken back.

* `Store.Extends`, `move_extends`: the tables only grow;
* `Fact`, **`fact_of_run`**: what the replies of the store mean, then and from then on;
* `OnRecord`, **`answers_true`**: what the clients are told.
-/

namespace AuraChat

open Interleave

variable {P : Params} {db : Store} {C : Label → State → Prop} {s s' : State} {l : Label}

/-! ## Growing tables -/

/-- The tables of a later store. A request is the same but for its status, and once accepted it stays so; a
message is the same but for its flag, and once delivered it stays so. -/
structure Store.Extends (st st' : Store) : Prop where
  users : st.users ⊆ st'.users
  friends : st.friends ⊆ st'.friends
  requests : ∀ r ∈ st.friendReqs, ∃ r' ∈ st'.friendReqs, r'.id = r.id ∧ r'.fromUid = r.fromUid ∧
    r'.toUid = r.toUid ∧ r'.message = r.message ∧ (r.status = 1 → r'.status = 1)
  messages : ∀ m ∈ st.messages, ∃ m' ∈ st'.messages, m'.id = m.id ∧ m'.payload = m.payload ∧
    (m.delivered = true → m'.delivered = true)
  uids : st.nextUid ≤ st'.nextUid
  requestIds : st.nextReqId ≤ st'.nextReqId

theorem Store.Extends.refl (st : Store) : st.Extends st where
  users := List.Subset.refl _
  friends := List.Subset.refl _
  requests r hr := ⟨r, hr, rfl, rfl, rfl, rfl, id⟩
  messages m hm := ⟨m, hm, rfl, rfl, id⟩
  uids := Int.le_refl _
  requestIds := Int.le_refl _

theorem Store.registerUser_extends (hash : String → String) (u p : String) (st : Store) :
    st.Extends (st.registerUser hash u p).2 := by
  unfold Store.registerUser
  split_ifs
  · exact .refl st
  · exact { Store.Extends.refl st with
      users := List.subset_append_left _ _
      uids := Int.le_add_of_nonneg_right (by decide) }

theorem Store.addFriendRequest_extends (f t : Int) (m : String) (st : Store) :
    st.Extends (st.addFriendRequest f t m).2 := by
  unfold Store.addFriendRequest
  split_ifs
  · exact .refl st
  · exact .refl st
  · exact { Store.Extends.refl st with
      requests := fun r hr => ⟨r, List.mem_append_left _ hr, rfl, rfl, rfl, rfl, id⟩
      requestIds := Int.le_add_of_nonneg_right (by decide) }

theorem acceptLoop_kept (rid uid : Int) (reqs : List FileFriendRequest) :
    ∀ r ∈ reqs, ∃ r' ∈ (Store.acceptLoop rid uid reqs).2, r'.id = r.id ∧ r'.fromUid = r.fromUid ∧
      r'.toUid = r.toUid ∧ r'.message = r.message ∧ (r.status = 1 → r'.status = 1) := by
  intro r hr
  cases hf : reqs.find? (Store.pendingFor rid uid) with
  | none =>
      rw [acceptLoop_none hf]
      exact ⟨r, hr, rfl, rfl, rfl, rfl, id⟩
  | some q =>
      obtain ⟨pre, post, rfl, hloop⟩ := acceptLoop_split hf
      rw [hloop]
      rcases List.mem_append.mp hr with hr | hr
      · exact ⟨r, List.mem_append_left _ hr, rfl, rfl, rfl, rfl, id⟩
      rcases List.mem_cons.mp hr with rfl | hr
      · exact ⟨{ r with status := 1 }, by simp, rfl, rfl, rfl, rfl, fun _ => rfl⟩
      · exact ⟨r, by simp [hr], rfl, rfl, rfl, rfl, id⟩

theorem Store.acceptFriendRequest_extends (rid uid : Int) (st : Store) :
    st.Extends (st.acceptFriendRequest rid uid).2 := by
  simp only [Store.acceptFriendRequest]
  split_ifs
  · exact { Store.Extends.refl st with requests := acceptLoop_kept rid uid st.friendReqs }
  · exact { Store.Extends.refl st with
      requests := acceptLoop_kept rid uid st.friendReqs
      friends := List.subset_append_left _ _ }

theorem Store.markDelivered_extends (uid maxId : Int) (st : Store) : st.Extends (st.markDelivered uid maxId) :=
  { Store.Extends.refl st with
    messages := fun m hm => by
      refine ⟨_, List.mem_map_of_mem hm, ?_⟩
      split_ifs
      · exact ⟨rfl, rfl, fun _ => rfl⟩
      · exact ⟨rfl, rfl, id⟩ }

theorem Store.flush_extends (ok : Bool) (st : Store) : st.Extends (st.flush ok) := by
  unfold Store.flush
  split_ifs
  · exact { Store.Extends.refl st with
      messages := fun m hm => ⟨m, List.mem_append_left _ hm, rfl, rfl, id⟩ }
  · exact { Store.Extends.refl st with }

theorem act_extends {o : Origin} {a : Call} {e : Ext} {r : Reply a}
    (h : act P o a e s = some (r, s')) : s.db.Extends s'.db := by
  cases a with
  | registerUser u p =>
      simp only [act] at h
      split_ifs at h
      all_goals
        simp only [Option.some.injEq, Prod.mk.injEq] at h
        obtain ⟨-, rfl⟩ := h
      · exact Store.registerUser_extends P.fileHash u p s.db
      · exact .refl s.db
  | addFriendRequest f t m =>
      simp only [act] at h
      split_ifs at h
      all_goals
        simp only [Option.some.injEq, Prod.mk.injEq] at h
        obtain ⟨-, rfl⟩ := h
      · exact Store.addFriendRequest_extends f t m s.db
      · exact .refl s.db
  | acceptFriendRequest q u =>
      simp only [act] at h
      split_ifs at h
      all_goals
        simp only [Option.some.injEq, Prod.mk.injEq] at h
        obtain ⟨-, rfl⟩ := h
      · exact Store.acceptFriendRequest_extends q u s.db
      · exact .refl s.db
  | markDelivered uid maxId =>
      simp only [act, Option.some.injEq, Prod.mk.injEq] at h
      obtain ⟨-, rfl⟩ := h
      split_ifs
      · exact Store.markDelivered_extends uid maxId s.db
      · exact .refl s.db
  | queueSendPacket x cmd seq body why =>
      simp only [act, Option.map_eq_some_iff, Prod.mk.injEq] at h
      obtain ⟨w, -, -, rfl⟩ := h
      exact .refl s.db
  | queueCloseConnection old fd =>
      simp only [act, Option.map_eq_some_iff, Prod.mk.injEq] at h
      obtain ⟨w, -, -, rfl⟩ := h
      exact .refl s.db
  | bindEnter uid x =>
      simp only [act] at h
      split at h
      all_goals
        simp only [Option.some.injEq, Prod.mk.injEq] at h
        obtain ⟨-, rfl⟩ := h
        exact .refl s.db
  | submit m =>
      simp only [act, Option.some.injEq, Prod.mk.injEq] at h
      obtain ⟨-, rfl⟩ := h
      exact { Store.Extends.refl s.db with }
  | _ =>
      simp only [act, Option.some.injEq, Prod.mk.injEq] at h
      obtain ⟨-, rfl⟩ := h
      exact .refl s.db

/-- **The tables only grow.** -/
theorem move_extends (h : Move P s l s') : s.db.Extends s'.db := by
  cases h with
  | call i e t a k r s₁ hi hp ha =>
      have hext := act_extends ha
      exact hext
  | flush ok hn => exact Store.flush_extends ok s.db
  | drain hb => exact { Store.Extends.refl s.db with }
  | _ => exact .refl s.db

/-! ## Facts -/

/-- The request is in the table, whatever has become of it. -/
def Store.HasRequest (st : Store) (id fromUid toUid : Int) (message : String) : Prop :=
  ∃ r ∈ st.friendReqs, r.id = id ∧ r.fromUid = fromUid ∧ r.toUid = toUid ∧ r.message = message

def Store.AreFriends (st : Store) (a b : Int) : Prop := (a, b) ∈ st.friends ∨ (b, a) ∈ st.friends

/-- The message is in the table, delivered or not. -/
def Store.HasMessage (st : Store) (id : Int) (payload : Int × Int × Bytes) : Prop :=
  ∃ r ∈ st.messages, r.id = id ∧ r.payload = payload

/-- What a reply of the store means: for the tables `st` that the call was run on, and for the tables `st'`
of any later state. -/
def Fact (hash : String → String) (st st' : Store) : Event Reply → Prop
  | ⟨.verifyLogin name password, .ok uid⟩ =>
      (0 < uid → ⟨uid, name, hash password⟩ ∈ st'.users) ∧
      (uid ≤ 0 → ∀ u, (st.users.find? fun u => u.username == name && u.passwordHash == hash password) =
        some u → u.uid ≤ 0)
  | ⟨.registerUser name password, .ok uid⟩ =>
      (0 ≤ uid → ⟨uid, name, hash password⟩ ∈ st'.users) ∧
      (uid < 0 → uid = -2 ∧ ∃ u ∈ st'.users, u.username = name)
  | ⟨.addFriendRequest fromUid toUid message, .ok id⟩ =>
      (0 ≤ id → st'.HasRequest id fromUid toUid message) ∧
      (id < 0 → (id = -2 ∧ st'.AreFriends fromUid toUid) ∨
        (id = -3 ∧ ∃ r ∈ st.friendReqs, r.fromUid = fromUid ∧ r.toUid = toUid ∧ r.status = 0))
  | ⟨.acceptFriendRequest rid acceptor, .ok fromUid⟩ =>
      (0 ≤ fromUid → st'.AreFriends fromUid acceptor ∧
        ∃ r ∈ st'.friendReqs, r.id = rid ∧ r.fromUid = fromUid ∧ r.toUid = acceptor ∧ r.status = 1) ∧
      (fromUid < 0 → ∀ r, st.friendReqs.find? (Store.pendingFor rid acceptor) = some r → r.fromUid < 0)
  | ⟨.getFriends uid, .ok users⟩ =>
      (∀ u ∈ users, st'.AreFriends uid u.1) ∧ ∀ v, st.AreFriends uid v → ∃ u ∈ users, u.1 = v
  | ⟨.searchUsers keyword, .ok users⟩ => ∀ u ∈ users, Store.toLower keyword <:+: Store.toLower u.2 ∧
      ∃ v ∈ st'.users, v.uid = u.1 ∧ v.username = u.2
  | ⟨.getPendingRequests uid, .ok requests⟩ =>
      (∀ r ∈ requests, st'.HasRequest r.id r.fromUid uid r.message) ∧
      ∀ r ∈ st.friendReqs, r.toUid = uid → r.status = 0 →
        ∃ q ∈ requests, q.id = r.id ∧ q.fromUid = r.fromUid ∧ q.message = r.message
  | ⟨.queryOfflineMessages uid, .ok rows⟩ =>
      (∀ m ∈ rows, m.toUid = uid ∧ st'.HasMessage m.id m.payload) ∧
      ∀ r ∈ st.messages, r.toUid = uid → r.delivered = false →
        ∃ m ∈ rows, m.id = r.id ∧ m.payload = r.payload
  | ⟨.markDelivered uid maxId, .ok _⟩ => ∀ r ∈ st.messages, r.toUid = uid → r.id ≤ maxId →
      ∃ r' ∈ st'.messages, r'.id = r.id ∧ r'.payload = r.payload ∧ r'.delivered = true
  | _ => True

theorem Store.HasRequest.extends {st st' : Store} {id f t : Int} {m : String}
    (h : st.HasRequest id f t m) (he : st.Extends st') : st'.HasRequest id f t m := by
  obtain ⟨r, hr, rfl, rfl, rfl, rfl⟩ := h
  obtain ⟨r', hr', h1, h2, h3, h4, -⟩ := he.requests r hr
  exact ⟨r', hr', h1, h2, h3, h4⟩

theorem Store.AreFriends.extends {st st' : Store} {a b : Int} (h : st.AreFriends a b)
    (he : st.Extends st') : st'.AreFriends a b :=
  h.imp (fun hm => he.friends hm) fun hm => he.friends hm

theorem Store.HasMessage.extends {st st' : Store} {id : Int} {x : Int × Int × Bytes}
    (h : st.HasMessage id x) (he : st.Extends st') : st'.HasMessage id x := by
  obtain ⟨r, hr, rfl, rfl⟩ := h
  obtain ⟨r', hr', h1, h2, -⟩ := he.messages r hr
  exact ⟨r', hr', h1, h2⟩

/-- What has become true stays true. -/
theorem Fact.extends {hash : String → String} {st st' st'' : Store} {ev : Event Reply}
    (h : Fact hash st st' ev) (he : st'.Extends st'') : Fact hash st st'' ev := by
  unfold Fact at h ⊢
  split
  · exact h.imp_left fun h h0 => he.users (h h0)
  · refine ⟨fun h0 => he.users (h.1 h0), fun h0 => ⟨(h.2 h0).1, ?_⟩⟩
    obtain ⟨-, u, hu, hname⟩ := h.2 h0
    exact ⟨u, he.users hu, hname⟩
  · refine ⟨fun h0 => (h.1 h0).extends he, fun h0 => ?_⟩
    exact (h.2 h0).imp_left fun h => ⟨h.1, h.2.extends he⟩
  · refine ⟨fun h0 => ?_, h.2⟩
    obtain ⟨hf, r, hr, rfl, rfl, rfl, hst⟩ := h.1 h0
    obtain ⟨r', hr', h1, h2, h3, -, h5⟩ := he.requests r hr
    exact ⟨hf.extends he, r', hr', h1, h2, h3, h5 hst⟩
  · exact h.imp_left fun h u hu => (h u hu).extends he
  · intro u hu
    obtain ⟨hk, v, hv, h1, h2⟩ := h u hu
    exact ⟨hk, v, he.users hv, h1, h2⟩
  · exact h.imp_left fun h r hr => (h r hr).extends he
  · exact h.imp_left fun h m hm => ⟨(h m hm).1, (h m hm).2.extends he⟩
  · intro r hr hto hid
    obtain ⟨r₁, hr₁, h1, h2, h3⟩ := h r hr hto hid
    obtain ⟨r₂, hr₂, h4, h5, h6⟩ := he.messages r₁ hr₁
    exact ⟨r₂, hr₂, h4.trans h1, h5.trans h2, h6 h3⟩
  · trivial

/-! ## The replies of the file store -/

section Replies

variable (st : Store)

theorem verifyLogin_fact (hash : String → String) (name password : String) :
    Fact hash st st ⟨.verifyLogin name password, .ok (st.verifyLogin hash name password)⟩ := by
  simp only [Fact, Store.verifyLogin]
  split
  · rename_i u hu
    refine ⟨fun _ => ?_, fun h0 v hv => ?_⟩
    · have hm := List.mem_of_find?_eq_some hu
      have hp := List.find?_some hu
      simp only [Bool.and_eq_true, beq_iff_eq] at hp
      obtain ⟨rfl, hhash⟩ := hp
      rw [← hhash]
      exact hm
    · obtain rfl := Option.some.inj (hu.symm.trans hv)
      exact h0
  · rename_i hu
    refine ⟨fun h0 => absurd h0 (by omega), fun _ v hv => ?_⟩
    rw [hu] at hv
    cases hv

theorem registerUser_fact (hash : String → String) (name password : String) (h0 : 0 ≤ st.nextUid) :
    Fact hash st (st.registerUser hash name password).2
      ⟨.registerUser name password, .ok (st.registerUser hash name password).1⟩ := by
  simp only [Fact, Store.registerUser]
  split_ifs with htaken
  · obtain ⟨u, hu, hname⟩ := List.any_eq_true.mp htaken
    exact ⟨fun h => absurd h (by simp), fun _ => ⟨rfl, u, hu, beq_iff_eq.mp hname⟩⟩
  · exact ⟨fun _ => by simp, fun h => absurd h (Int.not_lt.mpr h0)⟩

theorem addFriendRequest_fact {hash : String → String} (f t : Int) (m : String) (h0 : 0 ≤ st.nextReqId) :
    Fact hash st (st.addFriendRequest f t m).2
      ⟨.addFriendRequest f t m, .ok (st.addFriendRequest f t m).1⟩ := by
  simp only [Fact, Store.addFriendRequest]
  split_ifs with hfriends hasked
  · obtain ⟨p, hp, hpair⟩ := List.any_eq_true.mp hfriends
    simp only [Bool.and_eq_true, beq_iff_eq] at hpair
    refine ⟨fun h => absurd h (by simp), fun _ => .inl ⟨rfl, ?_⟩⟩
    -- the pair is stored with the smaller uid first
    rcases Int.le_total f t with hle | hle
    · rw [Int.min_eq_left hle, Int.max_eq_right hle] at hpair
      exact .inl (by rwa [← hpair.1, ← hpair.2])
    · rw [Int.min_eq_right hle, Int.max_eq_left hle] at hpair
      exact .inr (by rwa [← hpair.1, ← hpair.2])
  · obtain ⟨r, hr, hpending⟩ := List.any_eq_true.mp hasked
    simp only [Bool.and_eq_true, beq_iff_eq] at hpending
    exact ⟨fun h => absurd h (by simp),
      fun _ => .inr ⟨rfl, r, hr, hpending.1.1, hpending.1.2, hpending.2⟩⟩
  · refine ⟨fun _ => ?_, fun h => absurd h (Int.not_lt.mpr h0)⟩
    exact ⟨_, List.mem_append_right _ (List.mem_singleton_self _), rfl, rfl, rfl, rfl⟩

theorem acceptFriendRequest_fact {hash : String → String} (rid uid : Int) :
    Fact hash st (st.acceptFriendRequest rid uid).2
      ⟨.acceptFriendRequest rid uid, .ok (st.acceptFriendRequest rid uid).1⟩ := by
  simp only [Fact]
  cases hf : st.friendReqs.find? (Store.pendingFor rid uid) with
  | none =>
      simp only [Store.acceptFriendRequest, acceptLoop_none hf]
      exact ⟨fun h => absurd h (by simp), fun _ r hr => by cases hr⟩
  | some r =>
      have hp := List.find?_some hf
      simp only [Store.pendingFor, Bool.and_eq_true, beq_iff_eq] at hp
      obtain ⟨⟨hid, hto⟩, -⟩ := hp
      obtain ⟨pre, post, -, hloop⟩ := acceptLoop_split hf
      simp only [Store.acceptFriendRequest, (acceptLoop_some hf).1, hloop, Option.some.injEq, forall_eq']
      split_ifs with hneg
      · exact ⟨fun h => absurd h (by simp), fun _ => hneg⟩
      · refine ⟨fun _ => ⟨?_, { r with status := 1 }, by simp, hid, rfl, hto, rfl⟩, fun h => absurd h hneg⟩
        simp only [Store.AreFriends, List.mem_append, List.mem_singleton, Prod.mk.injEq]
        omega

theorem getFriends_fact {hash : String → String} (uid : Int) :
    Fact hash st st ⟨.getFriends uid, .ok (st.getFriends uid)⟩ := by
  refine ⟨fun u hu => ?_, fun v hv => ?_⟩
  · obtain ⟨p, hp, hpu⟩ := List.mem_filterMap.mp hu
    split_ifs at hpu with h1 h2
    · obtain rfl := Option.some.inj hpu
      exact .inl (h1 ▸ hp)
    · obtain rfl := Option.some.inj hpu
      exact .inr (h2 ▸ hp)
  · rcases hv with hv | hv
    · exact ⟨(v, st.displayName v), List.mem_filterMap.mpr ⟨_, hv, if_pos rfl⟩, rfl⟩
    · by_cases hself : v = uid
      · subst hself
        exact ⟨(v, st.displayName v), List.mem_filterMap.mpr ⟨_, hv, if_pos rfl⟩, rfl⟩
      · exact ⟨(v, st.displayName v),
          List.mem_filterMap.mpr ⟨_, hv, (if_neg hself).trans (if_pos rfl)⟩, rfl⟩

theorem searchLoop_fact (keyword : String) (users : List FileUser) (acc : List (Int × String)) :
    ∀ u ∈ Store.searchLoop keyword users acc, u ∈ acc ∨
      (Store.toLower keyword <:+: Store.toLower u.2 ∧ ∃ v ∈ users, v.uid = u.1 ∧ v.username = u.2) := by
  induction users generalizing acc with
  | nil => exact fun u hu => .inl hu
  | cons v vs ih =>
      have found : ∀ u ∈ (if Store.toLower keyword <:+: Store.toLower v.username then
          acc ++ [(v.uid, v.username)] else acc), u ∈ acc ∨
          (Store.toLower keyword <:+: Store.toLower u.2 ∧
            ∃ w ∈ v :: vs, w.uid = u.1 ∧ w.username = u.2) := by
        intro u hu
        split_ifs at hu with hk
        · rcases List.mem_append.mp hu with hu | hu
          · exact .inl hu
          · obtain rfl := List.mem_singleton.mp hu
            exact .inr ⟨hk, v, List.mem_cons_self, rfl, rfl⟩
        · exact .inl hu
      intro u hu
      simp only [Store.searchLoop] at hu
      generalize (if Store.toLower keyword <:+: Store.toLower v.username then
          acc ++ [(v.uid, v.username)] else acc) = acc' at found hu
      split_ifs at hu
      · exact found u hu
      · rcases ih acc' u hu with hu | ⟨hk, w, hw, h1, h2⟩
        · exact found u hu
        · exact .inr ⟨hk, w, List.mem_cons_of_mem _ hw, h1, h2⟩

theorem searchUsers_fact {hash : String → String} (keyword : String) :
    Fact hash st st ⟨.searchUsers keyword, .ok (st.searchUsers keyword)⟩ :=
  fun u hu => (searchLoop_fact keyword st.users [] u hu).resolve_left List.not_mem_nil

theorem getPendingRequests_fact {hash : String → String} (uid : Int) :
    Fact hash st st ⟨.getPendingRequests uid, .ok (st.getPendingRequests uid)⟩ := by
  refine ⟨fun r hr => ?_, fun r hr hto hst => ?_⟩
  · simp only [Store.getPendingRequests, List.mem_map, List.mem_filter, List.mem_reverse,
      Bool.and_eq_true, beq_iff_eq] at hr
    obtain ⟨q, ⟨hq, hto, -⟩, rfl⟩ := hr
    exact ⟨q, hq, rfl, rfl, hto, rfl⟩
  · refine ⟨_, List.mem_map_of_mem (List.mem_filter.mpr ⟨List.mem_reverse.mpr hr, ?_⟩), rfl, rfl, rfl⟩
    simp [hto, hst]

theorem queryOfflineMessages_fact {hash : String → String} (uid : Int) :
    Fact hash st st ⟨.queryOfflineMessages uid, .ok (st.queryOfflineMessages uid)⟩ := by
  refine ⟨fun m hm => ?_, fun r hr hto hd => ?_⟩
  · simp only [Store.queryOfflineMessages, List.mem_map, List.mem_filter, Store.undelivered,
      Bool.and_eq_true, beq_iff_eq] at hm
    obtain ⟨r, ⟨hr, hto, -⟩, rfl⟩ := hm
    exact ⟨hto, r, hr, rfl, rfl⟩
  · refine ⟨_, List.mem_map_of_mem (List.mem_filter.mpr ⟨hr, ?_⟩), rfl, rfl⟩
    simp [Store.undelivered, hto, hd]

theorem markDelivered_fact {hash : String → String} (uid maxId : Int) :
    Fact hash st (st.markDelivered uid maxId) ⟨.markDelivered uid maxId, .ok ()⟩ := by
  intro r hr hto hid
  refine ⟨_, List.mem_map_of_mem hr, ?_⟩
  rw [if_pos ⟨hto, hid⟩]
  exact ⟨rfl, rfl, rfl⟩

end Replies

theorem Ext.of_give {α : Type} {e : Ext} {x y : α} (h : e.give x = .ok y) : x = y := by
  unfold Ext.give at h
  split_ifs at h
  exact Except.ok.inj h

/-- **A reply of the file store means something when it comes.** -/
theorem act_fact {o : Origin} {a : Call} {e : Ext} {r : Reply a} (hfile : s.db.useFileStorage = true)
    (huid : 0 ≤ s.db.nextUid) (hreq : 0 ≤ s.db.nextReqId) (h : act P o a e s = some (r, s')) :
    Fact P.fileHash s.db s'.db ⟨a, r⟩ := by
  cases a with
  | verifyLogin name password =>
      rcases r with _ | uid
      · trivial
      simp only [act, hfile, if_true, Option.some.injEq, Prod.mk.injEq] at h
      obtain ⟨hg, rfl⟩ := h
      obtain rfl := Ext.of_give hg
      exact verifyLogin_fact s.db P.fileHash name password
  | registerUser name password =>
      rcases r with _ | uid
      · trivial
      simp only [act, hfile, if_true, Option.some.injEq, Prod.mk.injEq] at h
      obtain ⟨hg, rfl⟩ := h
      obtain rfl := Ext.of_give hg
      exact registerUser_fact s.db P.fileHash name password huid
  | addFriendRequest f t m =>
      rcases r with _ | id
      · trivial
      simp only [act, hfile, if_true, Option.some.injEq, Prod.mk.injEq] at h
      obtain ⟨hg, rfl⟩ := h
      obtain rfl := Ext.of_give hg
      exact addFriendRequest_fact s.db f t m hreq
  | acceptFriendRequest rid uid =>
      rcases r with _ | fromUid
      · trivial
      simp only [act, hfile, if_true, Option.some.injEq, Prod.mk.injEq] at h
      obtain ⟨hg, rfl⟩ := h
      obtain rfl := Ext.of_give hg
      exact acceptFriendRequest_fact s.db rid uid
  | getFriends uid =>
      rcases r with _ | users
      · trivial
      simp only [act, hfile, if_true, Option.some.injEq, Prod.mk.injEq] at h
      obtain ⟨hg, rfl⟩ := h
      obtain rfl := Ext.of_give hg
      exact getFriends_fact s.db uid
  | searchUsers keyword =>
      rcases r with _ | users
      · trivial
      simp only [act, hfile, if_true, Option.some.injEq, Prod.mk.injEq] at h
      obtain ⟨hg, rfl⟩ := h
      obtain rfl := Ext.of_give hg
      exact searchUsers_fact s.db keyword
  | getPendingRequests uid =>
      rcases r with _ | requests
      · trivial
      simp only [act, hfile, if_true, Option.some.injEq, Prod.mk.injEq] at h
      obtain ⟨hg, rfl⟩ := h
      obtain rfl := Ext.of_give hg
      exact getPendingRequests_fact s.db uid
  | queryOfflineMessages uid =>
      rcases r with _ | rows
      · trivial
      simp only [act, hfile, Bool.true_or, if_true, Option.some.injEq, Prod.mk.injEq] at h
      obtain ⟨hg, rfl⟩ := h
      obtain rfl := Ext.of_give hg
      exact queryOfflineMessages_fact s.db uid
  | markDelivered uid maxId =>
      rcases r with _ | _
      · trivial
      simp only [act, hfile, Bool.true_or, if_true, Option.some.injEq, Prod.mk.injEq] at h
      obtain ⟨-, rfl⟩ := h
      exact markDelivered_fact s.db uid maxId
  | _ => trivial

/-! ## Along a run -/

theorem move_useFileStorage (h : Move P s l s') : s'.db.useFileStorage = s.db.useFileStorage := by
  rcases move_db h with ⟨-, -, he⟩ | ⟨o, uid, maxId, -, he⟩ | ⟨ok, -, -, -, he⟩
  · exact he
  · rw [he]; rfl
  · rw [he]

theorem useFileStorage_of_run (h : RunTo P db C s) : s.db.useFileStorage = db.useFileStorage :=
  run_invariant h (fun s => s.db.useFileStorage = db.useFileStorage) rfl
    fun _ _ _ _ _ _ ih hm => (move_useFileStorage hm).trans ih

theorem counters_of_run (h : RunTo P db C s) : db.nextUid ≤ s.db.nextUid ∧ db.nextReqId ≤ s.db.nextReqId :=
  run_invariant h (fun s => db.nextUid ≤ s.db.nextUid ∧ db.nextReqId ≤ s.db.nextReqId)
    ⟨Int.le_refl _, Int.le_refl _⟩ fun _ _ _ _ _ _ ih hm =>
      ⟨Int.le_trans ih.1 (move_extends hm).uids, Int.le_trans ih.2 (move_extends hm).requestIds⟩

/-- A recorded call was made in some state of the run, and its reply is a fact for the tables of this state
and of the state `s`. -/
def FactIn (P : Params) (db : Store) (C : Label → State → Prop) (s : State) (ev : Event Reply) : Prop :=
  ∃ s₀, RunTo P db C s₀ ∧ Reach (step P) C s₀ s ∧ Fact P.fileHash s₀.db s.db ev

/-- **The replies of the file store are facts**, in every state from then on. -/
theorem fact_of_run (h : RunTo P db C s) (hfile : db.useFileStorage = true) (huid : 0 ≤ db.nextUid)
    (hreq : 0 ≤ db.nextReqId) {o : Origin} {ev : Event Reply} (hd : .did o ev ∈ s.log) :
    FactIn P db C s ev := by
  refine h.invariant_reach (fun s => ∀ o ev, .did o ev ∈ s.log → FactIn P db C s ev)
    (fun _ _ hd => by cases hd) (fun l s s' hr hc ih hs o ev hd => ?_) o ev hd
  have hm := move_of_step (wf_of_run hr) hs
  rcases move_did hm hd with hd | ⟨i, e, t, k, s₁, -, -, -, -, ha, -, hdb⟩
  · obtain ⟨s₀, hr₀, hlater, hfact⟩ := ih o ev hd
    exact ⟨s₀, hr₀, hlater.tail hc hs, hfact.extends (move_extends hm)⟩
  · refine ⟨s, hr, .tail .refl hc hs, ?_⟩
    rw [hdb]
    exact act_fact ((useFileStorage_of_run hr).trans hfile) (Int.le_trans huid (counters_of_run hr).1)
      (Int.le_trans hreq (counters_of_run hr).2) ha

/-- A packet that was received, and calls that were made for it, with what their replies mean. -/
structure OnRecord (P : Params) (db : Store) (C : Label → State → Prop) (s : State) (o : Origin)
    (hdr : PacketHeader) (body : Bytes) (hist : List (Event Reply)) : Prop where
  received : .received o hdr body ∈ s.log
  did : ∀ ev ∈ hist, .did o ev ∈ s.log
  facts : ∀ ev ∈ hist, FactIn P db C s ev

end AuraChat

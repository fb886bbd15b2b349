import AuraChat.Lib.Sequence
import AuraChat.Storage.Operations

set_option autoImplicit false

/-!
# Friendships

`add_friend_request` looks for the pair of its users among the friends, but the pair is inserted by
`accept_friend_request`, which does not look: when both users have sent a request, both can be
accepted, and the pair is stored twice. As long as no request of friends is accepted, every pair is
stored once, with the smaller uid first (`friends_unique_iff`).

* `friends_apply`: an operation stores the pair of the request that it accepts;
* **`friends_unique_iff`**.
-/

namespace AuraChat

open Interleave

variable {hash : String → String} {st : Store} {op : StoreOp}

/-! ## Pairs -/

theorem friends_apply (op : StoreOp) (st : Store) :
    (op.apply hash st).friends = st.friends ++ (op.pair st).toList := by
  have h := op.outcome hash st
  generalize op.apply hash st = st', op.saves st = names at h ⊢
  cases h with
  | same _ hp => rw [hp, Option.toList_none, List.append_nil]
  | accept rid uid r hr h0 => simp only [StoreOp.pair, hr, if_pos h0, Option.toList_some]
  | slip rid uid r hr h0 =>
      simp only [StoreOp.pair, hr, if_neg (Int.not_le.mpr h0), Option.toList_none, List.append_nil]
  | flush hb =>
      simp only [Store.flush, Bool.or_true, if_true]
      exact (List.append_nil _).symm
  | register | request | mark | submit | drain => exact (List.append_nil _).symm

/-! ## Requests -/

/-- A request goes to another user. -/
def Store.ToOthers (st : Store) : Prop := ∀ r ∈ st.friendReqs, r.fromUid ≠ r.toUid

/-- A request that is added goes to another user, as `process_business` has checked. -/
def StoreOp.ToOther : StoreOp → Prop
  | .addFriendRequest a b _ => a ≠ b
  | _ => True

instance : (op : StoreOp) → Decidable op.ToOther
  | .addFriendRequest a b _ => inferInstanceAs (Decidable (a ≠ b))
  | .registerUser _ _ | .acceptFriendRequest _ _ | .markDelivered _ _ | .submit _ | .drain | .flush
  | .query => isTrue trivial

theorem toOthers_apply (hop : op.ToOther) (h : st.ToOthers) : (op.apply hash st).ToOthers := by
  refine forall_friendReqs_apply (K := fun a b => a ≠ b) (fun a b msg heq => ?_) h
  rw [heq] at hop
  exact hop

/-! ## Pairs -/

/-- Every pair is stored once, with the smaller uid first. -/
structure Store.UniqueFriends (st : Store) : Prop where
  nodup : st.friends.Nodup
  lt : ∀ p ∈ st.friends, p.1 < p.2

/-- The operation accepts a request of friends. -/
def StoreOp.Crosses (st : Store) (op : StoreOp) : Prop := ∃ p ∈ op.pair st, p ∈ st.friends

instance (st : Store) (op : StoreOp) : Decidable (op.Crosses st) := by
  unfold StoreOp.Crosses; infer_instance

theorem pair_lt (h : st.ToOthers) {p : Int × Int} (hp : op.pair st = some p) : p.1 < p.2 := by
  cases op with
  | acceptFriendRequest rid uid =>
      simp only [StoreOp.pair] at hp
      cases hfind : st.friendReqs.find? (Store.pendingFor rid uid) with
      | none => simp [hfind] at hp
      | some r =>
          simp only [hfind] at hp
          split_ifs at hp
          obtain rfl := Option.some.inj hp
          have hne := h r (List.mem_of_find?_eq_some hfind)
          have hto : r.toUid = uid := by
            have := List.find?_some hfind
            simp only [Store.pendingFor, Bool.and_eq_true, beq_iff_eq] at this
            exact this.1.2
          rw [hto] at hne
          simp only
          omega
  | _ => cases hp

/-- **An operation keeps the pairs unique exactly if it accepts no request of friends.** -/
theorem uniqueFriends_apply (ht : st.ToOthers) (h : st.UniqueFriends) :
    (op.apply hash st).UniqueFriends ↔ ¬ op.Crosses st := by
  cases hp : op.pair st with
  | none =>
      have hfriends : (op.apply hash st).friends = st.friends := by
        rw [friends_apply, hp]
        exact List.append_nil _
      refine iff_of_true ⟨hfriends ▸ h.nodup, hfriends ▸ h.lt⟩ ?_
      rintro ⟨p, hp', -⟩
      rw [hp] at hp'
      cases hp'
  | some p =>
      have hfriends : (op.apply hash st).friends = st.friends ++ [p] := by
        rw [friends_apply, hp]
        rfl
      have hcross : op.Crosses st ↔ p ∈ st.friends := by simp [StoreOp.Crosses, hp]
      have hnd : (st.friends ++ [p]).Nodup ↔ p ∉ st.friends := by
        rw [(List.perm_append_singleton p st.friends).nodup_iff, List.nodup_cons]
        exact and_iff_left h.nodup
      rw [hcross, ← hnd]
      constructor
      · intro h'
        exact hfriends ▸ h'.nodup
      · intro hnodup
        refine ⟨hfriends ▸ hnodup, ?_⟩
        rw [hfriends]
        exact List.forall_mem_append.mpr ⟨h.lt, List.forall_mem_singleton.mpr (pair_lt ht hp)⟩

/-- The friend in a pair. -/
def friendOf (uid : Int) (p : Int × Int) : Option Int :=
  if p.1 = uid then some p.2 else if p.2 = uid then some p.1 else none

theorem getFriends_uids (uid : Int) (st : Store) :
    (st.getFriends uid).map Prod.fst = st.friends.filterMap (friendOf uid) := by
  rw [Store.getFriends, List.map_filterMap]
  congr 1
  funext p
  simp only [friendOf]
  split_ifs <;> rfl

theorem eq_of_friendOf {uid v : Int} {p q : Int × Int} (hp : p.1 < p.2) (hq : q.1 < q.2)
    (h : friendOf uid p = some v) (h' : friendOf uid q = some v) : p = q := by
  obtain ⟨a, b⟩ := p
  obtain ⟨c, d⟩ := q
  simp only [friendOf] at h h'
  simp only [Prod.mk.injEq]
  split_ifs at h h' <;> simp only [Option.some.injEq] at h h' <;> omega

/-- **No friend is listed twice.** -/
theorem getFriends_nodup (h : st.UniqueFriends) (uid : Int) :
    ((st.getFriends uid).map Prod.fst).Nodup := by
  rw [getFriends_uids]
  refine List.pairwise_filterMap.mpr (h.nodup.imp_of_mem fun {p q} hp hq hne v hv v' hv' he => ?_)
  subst he
  exact hne (eq_of_friendOf (h.lt p hp) (h.lt q hq) hv hv')

/-! ## Sequences -/

/-- **When friendships are unique.** Along any sequence of operations from the empty store whose requests
go to other users, every pair of friends is stored once with the smaller uid first, and no friend is
listed twice, exactly if no request of friends is accepted. -/
theorem friends_unique_iff (ops : List StoreOp) (hops : ∀ op ∈ ops, op.ToOther) :
    (∀ pre, pre <+: ops → (StoreOp.applyAll hash {} pre).friends.Nodup ∧
      (∀ p ∈ (StoreOp.applyAll hash {} pre).friends, p.1 < p.2) ∧
      ∀ uid, (((StoreOp.applyAll hash {} pre).getFriends uid).map Prod.fst).Nodup) ↔
    ∀ pre op, pre ++ [op] <+: ops → ¬ op.Crosses (StoreOp.applyAll hash {} pre) := by
  have hiff : (∀ pre, pre <+: ops → (StoreOp.applyAll hash {} pre).UniqueFriends) ↔
      ∀ pre op, pre ++ [op] <+: ops → ¬ op.Crosses (StoreOp.applyAll hash {} pre) :=
    forall_prefix_iff (f := StoreOp.apply hash) (K := Store.ToOthers) (I := Store.UniqueFriends)
      (C := fun op st => ¬ op.Crosses st) (fun _ h => (by cases h))
      ⟨List.nodup_nil, fun _ h => (by cases h)⟩ (fun _ _ => toOthers_apply)
      (fun _ _ _ => uniqueFriends_apply) hops
  rw [← hiff]
  constructor
  · intro h pre hpre
    exact ⟨(h pre hpre).1, (h pre hpre).2.1⟩
  · intro h pre hpre
    exact ⟨(h pre hpre).nodup, (h pre hpre).lt, getFriends_nodup (h pre hpre)⟩

namespace Sample

/-- Each of two users asks the other, and both requests are accepted. -/
def crossedOps : List StoreOp :=
  [.addFriendRequest 1000 1001 "", .addFriendRequest 1001 1000 "", .acceptFriendRequest 1 1001,
    .acceptFriendRequest 2 1000]

/-- Users 1001 and 1002 become friends of user 1000. -/
def friendOps : List StoreOp :=
  [.addFriendRequest 1000 1001 "", .addFriendRequest 1002 1000 "", .acceptFriendRequest 1 1001,
    .acceptFriendRequest 2 1000]

end Sample

theorem friends_unique_iff_sample : (∀ op ∈ Sample.friendOps, op.ToOther) ∧
    ∀ pre, pre <+: Sample.friendOps → (StoreOp.applyAll id {} pre).friends.Nodup ∧
      (∀ p ∈ (StoreOp.applyAll id {} pre).friends, p.1 < p.2) ∧
      ∀ uid, (((StoreOp.applyAll id {} pre).getFriends uid).map Prod.fst).Nodup :=
  ⟨by decide, (friends_unique_iff Sample.friendOps (by decide)).mpr (forall_prefix_concat.mpr (by decide))⟩

theorem friends_stored_twice : (∀ op ∈ Sample.crossedOps, op.ToOther) ∧
    (StoreOp.applyAll id {} Sample.crossedOps).friends = [(1000, 1001), (1000, 1001)] ∧
    ((StoreOp.applyAll id {} Sample.crossedOps).getFriends 1000).map Prod.fst = [1001, 1001] := by
  decide

end AuraChat

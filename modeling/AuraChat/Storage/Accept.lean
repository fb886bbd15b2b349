import AuraChat.Storage.Backends

set_option autoImplicit false

/-!
# A failed accept

`accept_friend_request` marks the request before it stores the friendship, and nothing takes the mark back
when the second step fails.

* `setAccepted_ne`, `insertFriend_cases`: what the two statements do to the tables;
* `FriendBackend.Slips`: a call that returns `-1` after it has changed something;
* **`accept_unchanged_iff`**: these are all; `crossed_accept` is one of them;
* `files_unchanged`: in file mode there is none in a state that the server reaches.
-/

namespace AuraChat

variable {st : Store} {t : FriendTables} {rid uid : Int}

/-! ## The statements -/

/-- The two users are friends already. -/
def FriendTables.Befriended (t : FriendTables) (a b : Int) : Prop :=
  ∃ q ∈ t.friends, FriendTables.pairKey q = FriendTables.pairKey (min a b, max a b)

instance (t : FriendTables) (a b : Int) : Decidable (t.Befriended a b) := by
  unfold FriendTables.Befriended; infer_instance

theorem pendingRequest_mem {r : FileFriendRequest} (h : t.pendingRequest rid uid = some r) :
    r ∈ t.friendRequests ∧ r.id = rid ∧ r.status = 0 := by
  rw [FriendTables.pendingRequest] at h
  have hpend := List.find?_some h
  obtain ⟨hid, -, hstatus⟩ := of_decide_eq_true hpend
  exact ⟨List.mem_of_find?_eq_some h, hid, hstatus⟩

theorem setAccepted_ne {r : FileFriendRequest} (h : t.pendingRequest rid uid = some r) :
    (t.setAccepted rid).friendRequests ≠ t.friendRequests := by
  obtain ⟨hr, hid, hstatus⟩ := pendingRequest_mem h
  intro he
  have hsame := List.map_inj_left.mp (he.trans (List.map_id t.friendRequests).symm) r hr
  rw [if_pos hid] at hsame
  have hone : (1 : Int) = r.status := congrArg FileFriendRequest.status hsame
  rw [hstatus] at hone
  cases hone

theorem insertFriend_cases (a b : Int) (t : FriendTables) :
    (t.Befriended a b ∧ t.insertFriend (min a b, max a b) = none) ∨
    (¬ t.Befriended a b ∧ t.insertFriend (min a b, max a b) =
      some { t with friends := t.friends ++ [(min a b, max a b)] }) := by
  simp only [FriendTables.insertFriend, FriendTables.Befriended]
  split_ifs with h
  · exact .inl ⟨by simpa using h, rfl⟩
  · exact .inr ⟨by simpa using h, rfl⟩

/-! ## Calls that return `-1` -/

/-- The call returns `-1` after it has changed something. In file mode: the request that it marks comes from
a negative uid. In MySQL mode: the request is marked and the friendship is not stored, because the statement
does not come through or the two users are friends already; or it is stored for the user `-1`. -/
def FriendBackend.Slips (rid uid : Int) : FriendBackend → Prop
  | .files st => ∃ r, st.friendReqs.find? (Store.pendingFor rid uid) = some r ∧ r.fromUid < 0
  | .tables t k => k.connected = true ∧ k.selected = true ∧
      ∃ r, t.pendingRequest rid uid = some r ∧
        if k.inserted = true ∧ ¬ t.Befriended r.fromUid r.toUid then r.fromUid = -1
        else k.updated = true

/-- What holds of a call of `accept_friend_request` that fails. -/
def FriendBackend.Unchanged (b b' : FriendBackend) : Prop :=
  b'.requests = b.requests ∧ b'.friends = b.friends

theorem files_unchanged_iff (st : Store) (rid uid : Int) :
    ((st.acceptFriendRequest rid uid).1 = -1 →
      (FriendBackend.files st).Unchanged (.files (st.acceptFriendRequest rid uid).2)) ↔
    ¬ (FriendBackend.files st).Slips rid uid := by
  simp only [FriendBackend.Slips, FriendBackend.Unchanged, Store.acceptFriendRequest]
  cases hr : st.friendReqs.find? (Store.pendingFor rid uid) with
  | none =>
      rw [acceptLoop_none hr]
      refine iff_of_true (fun _ => ⟨rfl, rfl⟩) ?_
      rintro ⟨r, he, -⟩
      cases he
  | some r =>
      obtain ⟨hfrom, hne⟩ := acceptLoop_some hr
      rw [hfrom]
      split_ifs with h0
      · exact iff_of_false (fun h => hne (h rfl).1) fun h => h ⟨r, rfl, h0⟩
      · refine iff_of_true (fun h => ?_) ?_
        · simp only at h
          omega
        · rintro ⟨r', he, h⟩
          exact h0 (Option.some.inj he ▸ h)

/-- The request is selected: then it is marked if the `UPDATE` comes through, and the friendship is stored
if the `INSERT` does and the two users are not friends already. -/
theorem tables_unchanged_of_pending {r : FileFriendRequest} (hr : t.pendingRequest rid uid = some r)
    (updated inserted : Bool) :
    ((t.acceptFriendRequestOn ⟨true, true, updated, inserted⟩ rid uid).1 = -1 →
      (t.acceptFriendRequestOn ⟨true, true, updated, inserted⟩ rid uid).2.friendRequests =
          t.friendRequests ∧
        (t.acceptFriendRequestOn ⟨true, true, updated, inserted⟩ rid uid).2.friends = t.friends) ↔
    ¬ if inserted = true ∧ ¬ t.Befriended r.fromUid r.toUid then r.fromUid = -1
      else updated = true := by
  have hmark : ∃ t', t' = (if updated = true then t.setAccepted rid else t) ∧
      t'.friends = t.friends ∧ (t'.friendRequests = t.friendRequests ↔ ¬ updated = true) := by
    refine ⟨_, rfl, ?_⟩
    split_ifs with hu
    · exact ⟨rfl, iff_of_false (setAccepted_ne hr) (not_not.mpr hu)⟩
    · exact ⟨rfl, iff_of_true rfl hu⟩
  obtain ⟨t', ht', hfriends, hreqs⟩ := hmark
  have hbefriended : t'.Befriended r.fromUid r.toUid ↔ t.Befriended r.fromUid r.toUid := by
    rw [FriendTables.Befriended, hfriends]
    rfl
  simp only [FriendTables.acceptFriendRequestOn, hr, ← ht', Bool.not_true, Bool.false_eq_true, if_false]
  cases inserted with
  | false => simp [hfriends, hreqs]
  | true =>
      rcases insertFriend_cases r.fromUid r.toUid t' with ⟨hb, hins⟩ | ⟨hb, hins⟩
      · rw [hbefriended] at hb
        simp [hins, hb, hfriends, hreqs]
      · rw [hbefriended] at hb
        simp [hins, hb, hfriends]

theorem tables_unchanged_iff (t : FriendTables) (k : FriendTables.AcceptLink) (rid uid : Int) :
    ((t.acceptFriendRequestOn k rid uid).1 = -1 →
      (FriendBackend.tables t k).Unchanged (.tables (t.acceptFriendRequestOn k rid uid).2 k)) ↔
    ¬ (FriendBackend.tables t k).Slips rid uid := by
  obtain ⟨connected, selected, updated, inserted⟩ := k
  cases connected with
  | false => exact iff_of_true (fun _ => ⟨rfl, rfl⟩) nofun
  | true =>
      cases selected with
      | false => exact iff_of_true (fun _ => ⟨rfl, rfl⟩) nofun
      | true =>
          simp only [FriendBackend.Slips, true_and]
          cases hr : t.pendingRequest rid uid with
          | none =>
              have hsame : t.acceptFriendRequestOn ⟨true, true, updated, inserted⟩ rid uid = (-1, t) := by
                simp [FriendTables.acceptFriendRequestOn, hr]
              rw [hsame]
              exact iff_of_true (fun _ => ⟨rfl, rfl⟩) nofun
          | some r =>
              refine (tables_unchanged_of_pending hr updated inserted).trans (not_congr ?_)
              simp only [Option.some.injEq, exists_eq_left']

/-- **When a failed accept leaves the store unchanged.** In either mode, for every state of the tables and
every statement that fails, a call that returns `-1` leaves the requests and the pairs of friends as they
were exactly if it is not one that slips. -/
theorem accept_unchanged_iff (b : FriendBackend) (rid uid : Int) :
    ((b.acceptFriendRequest rid uid).1 = -1 → b.Unchanged (b.acceptFriendRequest rid uid).2) ↔
      ¬ b.Slips rid uid := by
  cases b with
  | files st => exact files_unchanged_iff st rid uid
  | tables t k => exact tables_unchanged_iff t k rid uid

/-- **The second of two crossed requests**: it is accepted when the users are friends already, the call
returns `-1`, and the request is no longer pending. -/
theorem crossed_accept :
    let t := Sample.crossed.dropLast.foldl (fun t op => (op.onTables t).2) { users := Sample.registered }
    let b := FriendBackend.tables t {}
    (b.acceptFriendRequest 2 1000).1 = -1 ∧ ¬ b.Unchanged (b.acceptFriendRequest 2 1000).2 := by
  intro t b
  refine ⟨by decide, fun h => ?_⟩
  have hne : (b.acceptFriendRequest 2 1000).2.requests ≠ b.requests := by decide
  exact hne h.1

/-! ## File mode -/

/-- No request comes from a negative uid. -/
def Store.Senders (st : Store) : Prop := ∀ r ∈ st.friendReqs, 0 ≤ r.fromUid

theorem senders_onFiles {op : FriendOp} (hop : op.NonNeg) (h : st.Senders) :
    (op.onFiles st).2.Senders := by
  cases op with
  | add a b msg =>
      simp only [FriendOp.onFiles, Store.addFriendRequest]
      split_ifs
      · exact h
      · exact h
      · exact List.forall_mem_append.mpr ⟨h, List.forall_mem_singleton.mpr hop.1⟩
  | accept rid uid =>
      intro r hr
      have hmem : r ∈ (Store.acceptLoop rid uid st.friendReqs).2 := by
        simp only [FriendOp.onFiles, Store.acceptFriendRequest] at hr
        split_ifs at hr <;> exact hr
      obtain ⟨r', hr', hfrom, -⟩ := mem_acceptLoop hmem
      rw [hfrom]
      exact h r' hr'
  | friends uid | pending uid => exact h

theorem senders_filesAfter {ops : List FriendOp} (hops : ∀ op ∈ ops, op.NonNeg) (h : st.Senders) :
    (FriendOp.filesAfter st ops).Senders := by
  induction ops generalizing st with
  | nil => exact h
  | cons op ops ih =>
      obtain ⟨hop, hops⟩ := List.forall_mem_cons.mp hops
      exact ih hops (senders_onFiles hop h)

/-- **In file mode a failed accept leaves the store unchanged**, in every state that calls with non-negative
uids reach. -/
theorem files_unchanged {ops : List FriendOp} (hops : ∀ op ∈ ops, op.NonNeg) (h : st.Senders)
    (rid uid : Int) (hfail : ((FriendOp.filesAfter st ops).acceptFriendRequest rid uid).1 = -1) :
    (FriendBackend.files (FriendOp.filesAfter st ops)).Unchanged
      (.files ((FriendOp.filesAfter st ops).acceptFriendRequest rid uid).2) := by
  refine (files_unchanged_iff _ rid uid).mpr ?_ hfail
  rintro ⟨r, hr, hneg⟩
  exact Int.not_lt.mpr (senders_filesAfter hops h r (List.mem_of_find?_eq_some hr)) hneg

end AuraChat
